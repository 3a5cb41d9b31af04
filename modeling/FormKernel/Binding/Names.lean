import FormKernel.Form.Modified
import FormKernel.Kernel.MultiIndex
import FormKernel.Quadrature.Rule
import FormKernel.Table.Kind

/-! # Names in a kernel

The symbols that stand for the arguments of a kernel, for its tables and loop indices and for the
values of terminals, and where coefficients and constants lie in the arguments. -/

namespace FormKernel.Binding

open Form (EntityKind IntegralKind ModifiedTerminal Side Terminal)
open Kernel (Expr MultiIndex Operand Symbol)
open Quadrature (Rule)
open Table (TableRef)

/-- What kind of integral a kernel is for, and where the values of coefficients and constants lie
    in its arguments. -/
structure Layout where
  kind : IntegralKind
  entity : EntityKind
  coefficientNumbers : List (Terminal × Int) := []
  coefficientOffsets : List (Terminal × Int) := []
  constantOffsets : List (Terminal × Int) := []

def entryOf (table : List (Terminal × Int)) (t : Terminal) : Outcome Int :=
  orMisfit (table.lookup t) .noEntry

/-! ## Symbols -/

def pointIndex : Symbol := ⟨"iq", some .int⟩

/-- The index of a loop over the degrees of freedom of a coefficient. -/
def dofSumIndex : Symbol := ⟨"ic", some .int⟩

def elementTensor : Symbol := ⟨"A", some .scalar⟩

def coefficients : Symbol := ⟨"w", some .scalar⟩

def constants : Symbol := ⟨"c", some .scalar⟩

def coordinateDofs : Symbol := ⟨"coordinate_dofs", some .real⟩

/-- The numbers of the entities within their cells. -/
def entityLocalIndex : Symbol := ⟨"entity_local_index", some .int⟩

def pointPermutation : Symbol := ⟨"quadrature_permutation", some .int⟩

def givenWeights : Symbol := ⟨"weights_chunk", some .real⟩

def givenPoints : Symbol := ⟨"points_chunk", some .real⟩

def weightsTable (rule : Option Rule) : Outcome Symbol :=
  match rule with
  | some r => do return ⟨s!"weights_{← r.name}", some .real⟩
  | none => misfit .noMember

def pointsTable (rule : Option Rule) : Outcome Symbol :=
  match rule with
  | some r => do return ⟨s!"points_{← r.name}", some .real⟩
  | none => misfit .noMember

def argumentIndex (i : Int) : Outcome Symbol :=
  let names := ["i", "j", "k", "l"]
  let place := if i < 0 then i + 4 else i
  if place < 0 then misfit .outOfRange
  else match names[place.toNat]? with
    | some name => .ok ⟨name, some .int⟩
    | none => misfit .outOfRange

/-! ## Expressions -/

/-- An item of an array with any number of indices, each put on in turn. -/
def item (array : Symbol) (indices : List Operand) : Outcome Expr :=
  indices.foldlM (fun e i => Expr.ofItem (.expr e) [i]) (.symbol array)

def plus (a b : Operand) : Outcome Operand := ArithOp.apply .add a b

def times (a b : Operand) : Outcome Operand := ArithOp.apply .mul a b

def entityNumber (entity : EntityKind) (side : Option Side) : Outcome Operand := do
  match entity with
  | .cell => return .expr (.int (.int 0))
  | .facet =>
    return .expr (← item entityLocalIndex [.int (if side == some .minus then 1 else 0)])
  | .vertex => return .expr (← item entityLocalIndex [.int 0])
  | .unknown _ => return .none

def permutationNumber (table : TableRef) (side : Option Side) : Outcome Operand := do
  if table.permuted then
    return .expr (← item pointPermutation [.int (if side == some .minus then 1 else 0)])
  else return .int 0

def sideMark : Option Side → String
  | some .plus => "_0"
  | some .minus => "_1"
  | none => ""

def averageMark : Option Form.Average → String
  | some a => s!"_a{a.name}"
  | none => ""

def restrictionMark : Option Side → String
  | some .plus => "_r0"
  | some .minus => "_r1"
  | none => ""

/-- The name of the variable that holds a modified terminal. -/
def variableName (base : String) (m : ModifiedTerminal) : Outcome String := do
  let digits (ns : List Int) : String := String.join (ns.map toString)
  if !m.globalDerivatives.isEmpty then require (base == "J")
  let globals := if m.globalDerivatives.isEmpty then "" else s!"_deriv_{digits m.globalDerivatives}"
  let locals ← if m.localDerivatives.isEmpty then pure "" else
    match m.terminal.domain? with
    | none => misfit .noMember
    | some d =>
      let counts := (List.range d.gdim).map fun (i : Nat) => m.localDerivatives.count (i : Int)
      pure ("_d" ++ String.join (counts.map toString))
  let component := if m.component.isEmpty then "" else s!"_c{m.flatComponent}"
  return base ++ averageMark m.averaged ++ restrictionMark m.restriction ++ globals ++
    locals ++ component

def coordinateVariable (m : ModifiedTerminal) : Outcome Symbol := do
  Symbol.of (← variableName "x" m) (some .real)

def jacobianVariable (m : ModifiedTerminal) : Outcome Symbol := do
  Symbol.of (← variableName "J" m) (some .real)

def coefficientVariable (l : Layout) (m : ModifiedTerminal) : Outcome Symbol := do
  let n ← entryOf l.coefficientNumbers m.terminal
  Symbol.of (← variableName s!"w{n}" m) (some .scalar)

/-- A component of a coordinate node; the nodes of the second cell follow those of the first. -/
def coordinateDof (dof component : Operand) (dofs : Int) (side : Option Side) : Outcome Expr := do
  let offset := if side == some .minus then dofs * 3 else 0
  let place ← plus (← plus (← times (.int 3) dof) component) (.int offset)
  item coordinateDofs [place]

def coefficientDof (l : Layout) (t : Terminal) (dof : Operand) : Outcome Expr := do
  let offset ← entryOf l.coefficientOffsets t
  item coefficients [← plus (.int offset) dof]

/-- A degree of freedom of a blocked coefficient: in a copy without gaps, and in place. -/
def coefficientDofBlocked (l : Layout) (t : Terminal) (index : Operand) (blockSize offset : Int) :
    Outcome (Expr × Expr) := do
  let start ← entryOf l.coefficientOffsets t
  let copy ← Symbol.of s!"_w_{start}_{offset}" (some .scalar)
  let packed ← item copy [index]
  let place ← plus (← plus (.int start) (← times index (.int blockSize))) (.int offset)
  return (packed, ← item coefficients [place])

def constantItem (l : Layout) (t : Terminal) (index : Int) : Outcome Expr := do
  let offset ← entryOf l.constantOffsets t
  item constants [.int (offset + index)]

/-- A table at a point, still to be indexed by a degree of freedom. -/
def tableAtPoint (t : TableRef) (entity : EntityKind) (side : Option Side) : Outcome Expr := do
  let entity ← if t.uniform then pure (.int 0) else entityNumber entity side
  let point : Operand := if t.piecewise then .int 0 else .expr (.symbol pointIndex)
  let permutation ← permutationNumber t side
  item (← Symbol.of t.name (some .real)) [permutation, entity, point]

/-! ## Indices -/

/-- The index of the loops over the points of a rule. -/
def ruleIndex (rule : Option Rule) (name : String) : Outcome MultiIndex :=
  let symbol (name : String) : Expr := .symbol ⟨name, some .int⟩
  match rule with
  | none => MultiIndex.ofExprs [symbol name] [0]
  | some r =>
    match r.factors with
    | none => MultiIndex.ofExprs [symbol name] [r.weights.size]
    | some fs => MultiIndex.ofExprs ((List.range fs.length).map fun i => symbol s!"{name}{i}")
        (fs.map fun f => (f.2.size : Int))

def lastExtent (a : Dense Float) : Outcome Int := orMisfit a.shape.getLast? .outOfRange

/-- The number of degrees of freedom of a table. -/
def tableDofs (t : TableRef) : Outcome Nat := orMisfit t.values.shape[3]? .outOfRange

/-- How many entries of an argument lie between the first and the last degree of freedom. -/
def tableSpan (t : TableRef) (dofs : Nat) : Int := (t.blockSize : Int) * ((dofs : Int) - 1) + 1

/-- The index of the loops over the degrees of freedom of a table. -/
def dofIndex (t : TableRef) (name : String) : Outcome MultiIndex :=
  let symbol (name : String) : Expr := .symbol ⟨name, some .int⟩
  match t.factors with
  | none => do
    let dofs ← lastExtent t.values
    MultiIndex.ofExprs [symbol name] [dofs]
  | some fs => do
    let sizes ← fs.mapM fun f => lastExtent f.values
    MultiIndex.ofExprs ((List.range fs.length).map fun i => symbol s!"{name}{i}") sizes

end FormKernel.Binding
