import FormKernel.Code.Element
import FormKernel.Code.Form
import FormKernel.Code.Kernel
import FormKernel.Compiler.Naming
import FormKernel.Compiler.Sampling

/-! # Records of what is compiled

Every object is turned into a record that code is written from.  Functions keep the names that
they were given; those without a name are numbered. -/

namespace FormKernel.Compiler

open Binding (Layout)
open Code
open Form (Cell Element EntityKind Expr IntegralKind Terminal)
open Integral (Drawing)
open Reference (CellData)

structure Settings where
  data : CellData
  options : Json
  /-- What all names of generated objects depend on. -/
  label : String := ""
  /-- The names that functions and constants were given. -/
  names : List (Terminal × String) := []
  drawing : Drawing := .off

/-- The name of a function or constant, if it was given one. -/
def Settings.nameOf (s : Settings) (t : Terminal) (other : String) : String :=
  (s.names.lookup t).getD other

/-! ## Elements and dofmaps -/

/-- The element that the dofs of an element are those of: a block has the dofs of its first
    sub-element. -/
def scalarElement (e : Element) : Outcome Element :=
  if e.blockSize ≤ 1 then .ok e
  else match e.subElements with
    | sub :: _ => .ok sub
    | [] => misfit .noMember

/-- The name of a reference cell in generated code. -/
def cellShape (cell : Cell) : String := if cell == .vertex then "point" else cell.name

/-- The dimension of the space that an element spans. -/
def spaceDim (e : Element) : Nat := e.dim + e.globalSupportDofs

def elementRecord (label : String) (e : Element) : Outcome ElementRecord := do
  let base ← scalarElement e
  return {
    name := elementName label e, signature := e.text, cell := cellShape e.cell, dim := e.cell.dim
    typeName := e.typeName, spaceDim := spaceDim e, valueShape := e.shape.map Int.ofNat
    degree := e.degree, subElementCount := e.subElements.length, blockSize := e.blockSize
    discontinuous := e.discontinuous
    symmetric := e.kind == .blocked && e.symmetricNumbers.isSome
    lagrangeVariant := e.lagrangeVariant, dpcVariant := e.dpcVariant, family := e.family
    cellNumber := some e.cell.code, subElements := e.subElements.map (elementName label)
    custom := base.custom
    quadrature := base.quadrature.map fun (points, weights) =>
      { cell := cellShape base.cell, points, weights } }

def dofmapRecord (label : String) (e : Element) : Outcome DofmapRecord := do
  let base ← scalarElement e
  if base.entityClosureDofs.any List.isEmpty then misfit .outOfRange
  let numbers (dofs : List (List (List Nat))) := dofs.map fun d => d.map fun i => i.map Int.ofNat
  return {
    name := dofmapName label e, signature := "FFCx dofmap for " ++ e.text
    globalSupportDofs := base.globalSupportDofs, elementSupportDofs := base.dim
    blockSize := e.blockSize, subDofmapCount := e.subElements.length
    entityDofs := numbers base.entityDofs, entityClosureDofs := numbers base.entityClosureDofs
    subDofmaps := e.subElements.map (dofmapName label) }

/-! ## Functions -/

/-- Where values of functions start when they follow each other, each with a number of values. -/
def offsetsOf (sizes : List (Terminal × Nat)) : List (Terminal × Int) :=
  (sizes.foldl (fun (out, start) (t, n) => (assign t (start : Int) out, start + n))
    (([] : List (Terminal × Int)), 0)).1

/-- Where the values of constants start. -/
def constantOffsets (constants : List Terminal) : List (Terminal × Int) :=
  offsetsOf (constants.map fun c => (c, volume c.shape))

/-- The numbers of functions: their places in a list. -/
def numbersOf (functions : List Terminal) : List (Terminal × Int) :=
  functions.zipIdx.foldl (fun out (t, i) => assign t (i : Int) out) []

/-- The names of functions, those without name numbered after a letter. -/
def namesOf (s : Settings) (letter : String) (functions : List Terminal) : List String :=
  functions.zipIdx.map fun (t, i) => s.nameOf t s!"{letter}{i}"

def functionSpace (s : Settings) (t : Terminal) : Outcome (String × FunctionSpace) := do
  let name := s.nameOf t t.text
  if !Text.isIdentifier name then throw (.functionName name)
  let some space := t.space? | misfit .noMember
  let some domain := space.domain | misfit .noMember
  let some map := domain.coordinate | misfit .noMember
  return (name, {
    element := elementName s.label space.element, dofmap := dofmapName s.label space.element
    family := map.familyName, degree := map.degree, cell := map.cell.code
    variant := map.lagrangeVariant, valueShape := space.shape.map Int.ofNat })

/-- The function spaces of functions; of those with one name the last counts. -/
def functionSpaces (s : Settings) (functions : List Terminal) :
    Outcome (List (String × FunctionSpace)) :=
  functions.foldlM (fun out t => do
    let (name, space) ← functionSpace s t
    return assign name space out) []

/-! ## Integrals -/

/-- The entities that the tables of an integral are made for. -/
def entityOf : IntegralKind → Outcome EntityKind
  | .cell | .custom => .ok .cell
  | .exteriorFacet | .interiorFacet => .ok .facet
  | .vertex => .ok .vertex
  | _ => misfit .noEntry

def representationTask (s : Settings) (cell : Option Cell) (kind : IntegralKind)
    (entity : EntityKind) (rank : Nat) : Integral.Task where
  data := s.data
  cell := cell
  kind := kind
  entity := entity
  rank := rank
  factorized := s.options["sum_factorization"].toBool
  tolerance := { relative := s.options["table_rtol"].toFloat
                 absolute := s.options["table_atol"].toFloat }
  drawing := s.drawing

/-- A group of integrals with the points that they are sampled at. -/
structure SampledGroup where
  group : IntegralGroup
  samplings : List Sampling

structure SampledForm where
  form : MultilinearForm
  groups : List SampledGroup

/-- The record of a group of integrals of a form with a number. -/
def integralRecord (s : Settings) (f : MultilinearForm) (id : Nat) (g : SampledGroup) :
    Outcome IntegralRecord := do
  let group := g.group
  let kind := group.kind
  let entity ← entityOf kind
  let cell := group.domain.cell
  let some coordinate := group.domain.coordinate | misfit .noEntry
  let elements := elementsOf f.arguments
  let sides := if kind == .interiorFacet then 2 else 1
  let shape := elements.map fun e => ((sides * spaceDim e : Nat) : Int)
  let product := s.options["sum_factorization"].toBool && kind == .cell
  let terms ← (group.terms.zip g.samplings).mapM fun (t, sampling) => do
    return (← sampling.rule s.data kind cell elements product, t.integrand)
  let integrands ← integrandsByRule terms
  let numbers := numbersOf f.coefficients
  let ordered := numbers.mergeSort fun a b => a.2 ≤ b.2
  let sizes := List.zipWith (fun t e => (t.1, sides * spaceDim e)) ordered
    (elementsOf f.coefficients)
  let layout : Layout := {
    kind, entity, coefficientNumbers := numbers, coefficientOffsets := offsetsOf sizes
    constantOffsets := constantOffsets f.constants }
  return {
    name := integralName s.label f id kind.name group.subdomains
    task := { data := s.data, layout, shape }
    representation := ←
      Integral.represent (representationTask s (some cell) kind entity shape.length) integrands
    enabledCoefficients := group.enabled
    coordinateElement := elementName s.label coordinate }

/-! ## Forms -/

def subdomainNumber : Subdomain → Outcome Int
  | .otherwise => .ok (-1)
  | .number n => .ok n
  | .other _ => misfit .wrongKind

/-- The numbers of the parts of a mesh that a group of integrals is taken over. -/
def subdomainNumbers (g : IntegralGroup) : Outcome (List Int) := do
  let ids ← g.subdomains.mapM subdomainNumber
  if ids.isEmpty then misfit .wrongValue
  if ids.any (· < -1) then throw .negativeSubdomain
  return ids

def addGroup (s : Settings) (id : Nat) (f : MultilinearForm) (r : FormRecord) (g : IntegralGroup) :
    Outcome FormRecord := do
  let ids ← subdomainNumbers g
  let name := integralName s.label f id g.kind.name g.subdomains
  let extend (l : IntegralList) : IntegralList :=
    { names := l.names ++ ids.map fun _ => name, ids := l.ids ++ ids }
  match g.kind with
  | .cell => return { r with cellIntegrals := extend r.cellIntegrals }
  | .exteriorFacet => return { r with exteriorIntegrals := extend r.exteriorIntegrals }
  | .interiorFacet => return { r with interiorIntegrals := extend r.interiorIntegrals }
  | _ => misfit .noEntry

def formRecord (s : Settings) (f : MultilinearForm) (id : Nat) : Outcome FormRecord := do
  let functions := f.arguments ++ f.coefficients
  let spaces ← functionSpaces s functions
  let name := f.name.getD (toString id)
  f.groups.foldlM (addGroup s id f) {
    name := formName s.label f id, publicName := s!"form_{s.label}_{name}", signature := f.signature
    rank := f.arguments.length, coefficientCount := f.coefficients.length
    constantCount := f.constants.length, positions := f.positions
    coefficientNames := namesOf s "w" f.coefficients, constantNames := namesOf s "c" f.constants
    elements := (elementsOf functions).map (elementName s.label)
    dofmaps := (elementsOf functions).map (dofmapName s.label)
    cellIntegrals := {}, exteriorIntegrals := {}, interiorIntegrals := {}, spaces }

/-! ## Expressions -/

/-- The entities that points belong to: cells, or facets if the points have one coordinate less.
    Without a cell the values are the same everywhere. -/
def pointEntity (cell : Option Cell) (points : Dense Float) : Outcome EntityKind :=
  match cell with
  | none => .ok .cell
  | some cell => do
    let width ← extent points 1
    if cell.dim == width then return .cell
    if cell.dim == width + 1 then return .facet
    throw (.pointDimension cell.dim width)

def expressionRecord (s : Settings) (e : Expr) (points : Dense Float) (given : Option String)
    (id : Nat) : Outcome ExpressionRecord := do
  let cell := e.domain?.map (·.cell)
  let arguments := argumentsOf e
  let coefficients := coefficientsOf e
  let constants := constantsOf e
  let spaces ← functionSpaces s (coefficients ++ arguments)
  let name := match e with
    | .terminal t => s.nameOf t (toString id)
    | .operator .. => given.getD (toString id)
  let shape := (elementsOf arguments).map fun e => (spaceDim e : Int)
  if shape.length > 1 then throw .severalArguments
  let entity ← pointEntity cell points
  let count ← extent points 0
  if cell.isNone then require (coefficients.isEmpty && constants.isEmpty)
  let sizes := List.zipWith (fun t e => (t, spaceDim e)) coefficients (elementsOf coefficients)
  let layout : Layout := {
    kind := .expression, entity, coefficientNumbers := numbersOf coefficients
    coefficientOffsets := offsetsOf sizes, constantOffsets := constantOffsets constants }
  let rule : Quadrature.Rule := { points, weights := Dense.filled [count] 1.0 }
  return {
    name := expressionName s.label e points, publicName := s!"expression_{s.label}_{name}"
    task := { data := s.data, layout, shape, valueShape := e.shape }
    representation := ←
      Integral.represent (representationTask s cell .expression entity shape.length) [(rule, e)]
    points, positions := (List.range coefficients.length).map Int.ofNat
    coefficientNames := namesOf s "w" coefficients, constantNames := namesOf s "c" constants
    spaces }

end FormKernel.Compiler
