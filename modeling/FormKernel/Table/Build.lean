import FormKernel.Graph.Basic
import FormKernel.Table.Values

/-! # Tables of an integral

The tables of all terminals of an integral for one rule.  Values close to -1, 0 and 1 are moved
to them, axes along which a table is constant are reduced to length one, and tables that are
equal share a name. -/

namespace FormKernel.Table

open Form (Cell Element EntityKind IntegralKind ModifiedTerminal)
open Quadrature (Rule)
open Reference (CellData permuteInterval permuteTriangle permuteQuadrilateral)

structure Setting where
  data : CellData
  rule : Rule
  cell : Option Cell
  kind : IntegralKind
  entity : EntityKind
  factorized : Bool := false
  /-- How close to -1, 0 or 1 values are moved there. -/
  tolerance : Tolerance := tableTolerance
  comparison : Comparison := tableTolerance

/-- An entry of the tables of an integral. -/
inductive TableEntry where
  | factor (t : TableFactor)
  | terminal (m : ModifiedTerminal) (t : TableRef)

/-- The name of the array that an entry is stored under. -/
def TableEntry.name : TableEntry → String
  | .factor f => f.name
  | .terminal _ t => t.name

/-- The kind and values of the array of an entry; factors of tables have no kind. -/
def TableEntry.array : TableEntry → Option TableKind × Dense Float
  | .factor f => (none, f.values)
  | .terminal _ t => (some t.kind, t.values)

/-- What has been built so far. -/
structure Tables where
  /-- The arrays by name. -/
  arrays : List (String × Dense Float) := []
  factors : List TableFactor := []
  entries : List TableEntry := []

/-- The ways in which points may be seen from the two sides of a facet; cells that have none
    support no integral over interior facets. -/
def facetViews : Cell → List (Dense Float → Outcome (Dense Float))
  | .interval => [pure]
  | .triangle | .quadrilateral =>
    (List.range 2).map fun reflections points => permuteInterval points reflections
  | .tetrahedron => (List.range 3).flatMap fun rotations => (List.range 2).map
      fun reflections points => permuteTriangle points reflections rotations
  | .hexahedron => (List.range 4).flatMap fun rotations => (List.range 2).map
      fun reflections points => permuteQuadrilateral points reflections rotations
  | .vertex | .prism | .pyramid => []

/-- The table of an element, with one part for each way in which the points may be seen. -/
def rawTable (s : Setting) (e : TerminalElement) : Outcome ComponentTable := do
  let table (points : Dense Float) : Outcome ComponentTable :=
    componentTable s.data points s.cell s.kind e.element e.averaged s.entity e.derivatives
      e.component
  let some cell := s.cell | misfit .noMember
  if s.kind != .interiorFacet then table s.rule.points
  else
    match ← (facetViews cell).mapM fun view => do table (← view s.rule.points) with
    | [] => misfit .unassigned
    | first :: rest =>
      let parts := first :: rest
      let count := parts.foldl (fun n p => n + p.values.shape.headD 0) 0
      return { first with
        values :=
        ⟨count :: first.values.shape.drop 1, parts.foldl (fun out p => out ++ p.values.data) #[]⟩ }

/-- Keeps only the first entry along an axis. -/
def reduceAxis (axis : Nat) (a : Dense Float) : Dense Float :=
  let shape := a.shape.mapIdx fun i n => if i == axis then min n 1 else n
  ⟨shape, ((indicesOf shape).map fun i => (a.get? i).getD 0.0).toArray⟩

/-- A table of which the constant axes have been reduced. -/
structure Reduced where
  values : Dense Float
  kind : TableKind
  permuted : Bool

/-- Reduces the axes along which a table is constant. -/
def reduce (c : Comparison) (values : Dense Float) : Outcome Reduced := do
  let kind ← TableKind.of c values
  let values := if kind.isPiecewise then reduceAxis 2 values else values
  let values := if kind.isUniform then reduceAxis 1 values else values
  let permuted ← isPermuted c values
  return { values := if permuted then values else reduceAxis 0 values, kind, permuted }

/-- Numbers of elements: sub-elements come before the elements they are part of. -/
def elementNumbers (elements : List Element) : List Element :=
  Element.sortUnique (elements.flatMap Element.closure)

def factorTable (rule : Rule) (derivatives : List Nat) (place : Nat) (factor : Element) :
    Outcome (Dense Float) := do
  let some factors := rule.factors | misfit .wrongKind
  let some (points, _) := factors[place]? | misfit .outOfRange
  let some d := derivatives[place]? | misfit .outOfRange
  let table := factor.tabulate [d] (Reference.rowLists points)
  return ⟨1 :: 1 :: table.shape, table.data⟩

/-- The name of a factor, by its place among all factors. -/
def factorName (place : Nat) : String := s!"FE_TF{place}"

/-- Adds the table of a factor unless an equal one is known. -/
def addFactor (known : List TableFactor) (values : Dense Float) : List TableFactor × TableFactor :=
  match known.find? fun f =>
      f.values.shape == values.shape &&
      allClose pointTolerance f.values.data.toList values.data.toList with
  | some f => (known, f)
  | none =>
    let f : TableFactor := { name := factorName known.length, values }
    (known ++ [f], f)

def addFactors (rule : Rule) (derivatives : List Nat) (factors : List Element)
    (known : List TableFactor) : Outcome (List TableFactor × List TableFactor) := do
  let (known, found) ← ((List.range factors.length).zip factors).foldlM
    (fun (known, found) (place, factor) => do
      let values ← factorTable rule derivatives place factor
      let (known, f) := addFactor known values
      return (known, found ++ [f])) (known, ([] : List TableFactor))
  if factors.length < 2 then misfit .outOfRange
  return (known, found)

def putTerminal (m : ModifiedTerminal) (t : TableRef) : List TableEntry → List TableEntry
  | [] => [.terminal m t]
  | .factor f :: rest => .factor f :: putTerminal m t rest
  | .terminal n u :: rest =>
    if n == m then .terminal n t :: rest else .terminal n u :: putTerminal m t rest

def elementNumber (numbers : List Element) (e : Element) : Nat := (numbers.findIdx? (· == e)).getD 0

/-- The name and values under which a table is stored: those of an equal table that is known
    already, or its own. -/
def share (c : Comparison) (name : String) (values : Dense Float)
    (arrays : List (String × Dense Float)) :
    (String × Dense Float) × List (String × Dense Float) :=
  match arrays.find? fun a => equalTables c values a.2 with
  | some known => (known, arrays)
  | none => ((name, values), assign name values arrays)

/-- Adds the factors of a table, if they are asked for and the element is a product in one way. -/
def split (s : Setting) (e : TerminalElement) (known : List TableFactor) :
    Outcome (List TableFactor × Option (List TableFactor)) :=
  match s.factorized, e.element.tensorProduct with
  | true, some [factors] => do
    let (known, found) ← addFactors s.rule e.derivatives factors known
    return (known, some found)
  | _, _ => .ok (known, none)

def addTable (s : Setting) (numbers : List Element) (tables : Tables)
    (task : ModifiedTerminal × TerminalElement) : Outcome Tables := do
  let (m, e) := task
  let name ← tableName s.rule (elementNumber numbers e.element) e.averaged s.entity e.derivatives
    e.component
  let raw ← rawTable s e
  let reduced ← reduce s.comparison (clamp s.tolerance [-1.0, 0.0, 1.0] raw.values)
  let ((name, values), arrays) := share s.comparison name reduced.values tables.arrays
  if s.factorized && s.rule.factors.isNone then throw .noSumFactorization
  let (factors, own) ← split s e tables.factors
  let shift := if m.restriction == some .minus && m.terminal.space?.isSome then e.element.dim else 0
  let ref : TableRef := {
    name, values, offset := shift + raw.offset, blockSize := raw.stride, kind := reduced.kind,
    permuted := reduced.permuted, factors := own }
  let new := (factors.drop tables.factors.length).map .factor
  return { arrays, factors, entries := putTerminal m ref (tables.entries ++ new) }

/-- The tables of terminals, given those that are known by name. -/
def buildTables (s : Setting) (terminals : List ModifiedTerminal)
    (known : List (String × Dense Float)) : Outcome Tables := do
  let analysed ← terminals.mapM fun m => do return (m, ← terminalElement m)
  let tasks := analysed.filterMap fun (m, e) => e.map fun e => (m, e)
  let numbers := elementNumbers (tasks.map fun t => t.2.element)
  tasks.foldlM (addTable s numbers) { arrays := known }

end FormKernel.Table
