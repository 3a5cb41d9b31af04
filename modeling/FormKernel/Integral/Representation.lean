import FormKernel.Factor.Dependencies
import FormKernel.Scalar.Expansion
import FormKernel.Table.Build

/-! # Representation of an integral

What a kernel is written from: for each rule the graph of factors of the integrand and the blocks
of the element tensor that the factors contribute to, and the tables that all rules share.

An integrand is first made scalar.  Terminals whose tables vanish are replaced by zero, the
arguments are factored out, and every product of arguments gives a block: the degrees of freedom
it touches, the tables of its arguments and the factors that multiply them. -/

namespace FormKernel.Integral

open Factor (FactorVertex)
open Form (Builder Cell EntityKind Expr IntegralKind ModifiedTerminal Side)
open FormKernel.Graph (Vertex)
open Quadrature (Rule)
open Reference (CellData)
open Table (Comparison TableKind TableRef Tables Tolerance tableTolerance)

inductive Drawing where
  | off | on | unavailable
  deriving DecidableEq

structure Task where
  data : CellData
  cell : Option Cell
  kind : IntegralKind
  entity : EntityKind
  rank : Nat
  factorized : Bool := false
  tolerance : Tolerance := tableTolerance
  comparison : Comparison := tableTolerance
  drawing : Drawing := .off

/-- What is asked of the tables of an integral for a rule. -/
def Task.setting (task : Task) (rule : Rule) : Table.Setting where
  data := task.data
  rule := rule
  cell := task.cell
  kind := task.kind
  entity := task.entity
  factorized := task.factorized
  tolerance := task.tolerance
  comparison := task.comparison

/-- An argument of a block: its place among the modified arguments and its table. -/
structure BlockArgument where
  place : Nat
  table : TableRef

/-- The contribution of one product of arguments. -/
structure Block where
  kinds : List TableKind
  /-- The factors, each with the component of the integrand that it belongs to. -/
  factors : List (Nat × Nat)
  piecewise : Bool
  names : List String
  sides : List (Option Side)
  transposed : Bool := false
  uniform : Bool
  arguments : List BlockArgument
  permuted : Bool

/-- The degrees of freedom of each argument of a block. -/
abbrev BlockMap := List (List Int)

structure Integrand where
  rule : Rule
  scalar : Graph Nat Vertex
  factors : Graph Nat FactorVertex
  arguments : List Nat
  blocks : List (BlockMap × List Block)
  /-- Whether terminals are seen from both sides of a facet. -/
  twoSided : Bool
  deriving Inhabited

def Integrand.argument? (i : Integrand) (place : Nat) : Option ModifiedTerminal := do
  (← i.factors.data? (← i.arguments[place]?)).terminal

structure Representation where
  tables : List (String × Dense Float) := []
  kinds : List (String × Option TableKind) := []
  integrands : List Integrand := []

/-- Whether the points of facets have to be permuted; the last rule decides. -/
def Representation.facetPermutations (r : Representation) : Bool :=
  (r.integrands.getLast?.map (·.twoSided)).getD false

/-! ## Rules -/

/-- Adds the integrand of a rule; it takes the place of that of an equal rule. -/
def addRule (rules : List (Rule × Expr)) (rule : Rule) (e : Expr) :
    Outcome (List (Rule × Expr)) :=
  match rules with
  | [] => .ok [(rule, e)]
  | (r, old) :: rest => do
    if r.bytes == rule.bytes then
      if ← r.equal rule then return (r, e) :: rest
    return (r, old) :: (← addRule rest rule e)

def byRule (integrands : List (Rule × Expr)) : Outcome (List (Rule × Expr)) :=
  integrands.foldlM (fun rules (rule, e) => addRule rules rule e) []

/-! ## Preparation of the integrand -/

/-- Puts one in place of the weight of a point, which the kernel multiplies with later. -/
def withoutWeight (e : Expr) : Expr :=
  e.replace fun
    | .quantity .quadratureWeight .. => some Factor.one
    | _ => none

def modifiedTerminals (g : Graph Nat Vertex) : Outcome (List (Nat × ModifiedTerminal)) :=
  (g.nodes.filter fun n => n.2.expr.isModified).mapM fun (i, v) => do
    return (i, ← ModifiedTerminal.of v.expr)

def tableOf (tables : Tables) (m : ModifiedTerminal) : Option TableRef :=
  tables.entries.findSome? fun
    | .terminal n t => if n == m then some t else none
    | .factor _ => none

def tensorOf : List Nat → List Expr → Expr
  | [], items => items.headD (.terminal .zero)
  | n :: shape, items =>
    let size := volume shape
    .operator .listTensor ((List.range n).map fun i => tensorOf shape (items.drop (i * size)))
      (n :: shape) [] []

/-- Sets terminals to zero and rebuilds everything that depends on them; operators are rebuilt
    even where nothing below them has changed. -/
def rebuilt [Builder] (g : Graph Nat Vertex) (zero : List Nat) : List Expr :=
  let start := g.nodes.map fun (i, v) => if zero.contains i then .terminal .zero else v.expr
  g.nodes.foldl (fun exprs (i, _) =>
    let deps := (g.out i).filterMap (exprs[·]?)
    if deps.isEmpty then exprs
    else exprs.modify i fun
      | .operator op .. => Builder.build op deps
      | e => e) start

/-- The integrand of a scalar graph, from the components of its targets. -/
def integrandOf (g : Graph Nat Vertex) (exprs : List Expr) (shape : List Nat) : Outcome Expr := do
  let items ← (List.range (volume shape)).mapM fun (c : Nat) =>
    match g.nodes.find? fun n => n.2.components.contains c with
    | some (i, _) => orMisfit exprs[i]? .noEntry
    | none => misfit .noMember
  return tensorOf shape items

/-! ## Factors and blocks -/

def appendTo {κ α : Type} [BEq κ] (key : κ) (value : α) : List (κ × List α) → List (κ × List α)
  | [] => [(key, [value])]
  | (k, vs) :: rest =>
    if k == key then (k, vs ++ [value]) :: rest else (k, vs) :: appendTo key value rest

def argumentProducts (g : Graph Nat FactorVertex) :
    Outcome (List (List Nat × List (Nat × Nat))) :=
  g.nodes.foldlM (fun products (i, v) => do
    require (v.targets.length == v.components.length)
    return (v.targets.zip v.components).foldl (fun products (k, c) =>
      appendTo k (i, c) products) products) []

/-- Attaches modified terminals and their tables to factors. -/
def withTables (tables : Tables) (g : Graph Nat FactorVertex) :
    Outcome (Graph Nat FactorVertex) := do
  let nodes ← g.nodes.mapM fun (i, v) => do
    if v.expr.isModified then
      let m ← ModifiedTerminal.of v.expr
      return (i, { v with terminal := some m, table := tableOf tables m })
    else return (i, v)
  return { g with nodes }

def terminalAt (g : Graph Nat FactorVertex) (i : Nat) : Outcome ModifiedTerminal :=
  orMisfit ((g.data? i).bind (·.terminal)) .noEntry

/-- The degrees of freedom of a table. -/
def dofsOf (t : TableRef) : List Int :=
  (List.range ((t.values.shape[3]?).getD 0)).map fun (i : Nat) =>
    (t.offset : Int) + (i : Int) * t.blockSize

def blockOf (g : Graph Nat FactorVertex) (arrays : List (String × Dense Float)) (rank : Nat)
    (product : List Nat × List (Nat × Nat)) : Outcome (BlockMap × Block) := do
  let (places, factors) := product
  require (places.length == rank)
  let tables ← places.mapM fun i => orMisfit ((g.data? i).bind (·.table)) .noEntry
  require (tables.all fun t => t.kind != .zeros)
  let sides ← (places.zip tables).mapM fun (i, t) => do
    if t.uniform then return none else return (← terminalAt g i).restriction
  let permuted := tables.any fun t =>
    (arrays.lookup t.name).any fun a => a.shape.headD 0 > 1
  return (tables.map dofsOf, {
    kinds := tables.map (·.kind), factors
    piecewise := factors.all fun f => ((g.data? f.1).bind (·.status)) == some .piecewise
    names := tables.map (·.name), sides, uniform := tables.all (·.uniform)
    arguments := (places.zip tables).map fun (i, t) => ⟨i, t⟩, permuted })

/-- The blocks of all products of arguments, in the order of the products. -/
def blocksOf (g : Graph Nat FactorVertex) (arrays : List (String × Dense Float)) (rank : Nat)
    (products : List (List Nat × List (Nat × Nat))) : Outcome (List (BlockMap × List Block)) :=
  (products.mergeSort fun a b => (compare a.1 b.1).isLE).foldlM (fun blocks p => do
    let (map, block) ← blockOf g arrays rank p
    return appendTo map block blocks) []

def arrayNames (t : TableRef) : List String :=
  match t.factors with
  | some fs => fs.map (·.name)
  | none => [t.name]

/-- The tables that a kernel reads: those of active factors and of blocks. -/
def usedTables (g : Graph Nat FactorVertex) (blocks : List (BlockMap × List Block)) :
    List TableRef :=
  let used := g.nodes.filterMap fun (_, v) =>
    if v.status == some .inactive then none else v.table
  let inBlocks := blocks.flatMap fun (_, bs) => bs.flatMap fun b => b.arguments.map (·.table)
  used ++ inBlocks

/-- The names of the arrays that a kernel reads. -/
def activeNames (g : Graph Nat FactorVertex) (blocks : List (BlockMap × List Block)) :
    List String :=
  Form.distinct ((usedTables g blocks).flatMap arrayNames)

/-- The kind and values of each array. -/
def arraysOf (tables : Tables) : List (String × Option TableKind × Dense Float) :=
  tables.entries.foldl (fun out e => assign e.name e.array out) []

/-- The arrays of some names, without those that are zero or one throughout. -/
def storedArrays (tables : Tables) (names : List String) :
    List (String × Option TableKind × Dense Float) :=
  names.filterMap fun name =>
    match (arraysOf tables).lookup name with
    | some (kind, values) =>
      if kind == some .zeros || kind == some .ones then none else some (name, kind, values)
    | none => none

/-- The scalar graph of an integrand of some shape in which terminals whose tables vanish are
    zero. -/
def withoutZeros [Builder] (tables : Tables) (terminals : List (Nat × ModifiedTerminal))
    (shape : List Nat) (g : Graph Nat Vertex) : Outcome (Graph Nat Vertex) :=
  let vanishes (m : ModifiedTerminal) : Bool := (tableOf tables m).any fun t => t.kind == .zeros
  if (arraysOf tables).any fun a => a.2.1 == some .zeros then do
    let zero := (terminals.filter fun t => vanishes t.2).map (·.1)
    Scalar.scalarGraph (← integrandOf g (rebuilt g zero) shape)
  else .ok g

/-- Represents the integrand of one rule, given what has been represented before. -/
def addIntegrand [Builder] (task : Task) (done : Representation) (rule : Rule) (e : Expr) :
    Outcome Representation := do
  let e := withoutWeight (Builder.balance e)
  let scalar ← Scalar.scalarGraph e
  let terminals ← modifiedTerminals scalar
  let tables ← Table.buildTables (task.setting rule) (terminals.map (·.2)) done.tables
  let scalar ← withoutZeros tables terminals e.shape scalar
  if task.drawing == .unavailable then throw .noDrawing
  let g ← (Factor.factorize scalar task.rank).graph
  let products ← argumentProducts g
  let g ← Factor.analyse (← withTables tables g)
  let blocks ← blocksOf g ((arraysOf tables).map fun a => (a.1, a.2.2)) task.rank products
  let places := (Form.distinct (products.flatMap (·.1))).mergeSort
  let _ ← places.mapM (terminalAt g)
  let stored := storedArrays tables (activeNames g blocks)
  let sides := terminals.map fun t => t.2.restriction
  return {
    tables := stored.foldl (fun out (n, _, v) => assign n v out) done.tables
    kinds := stored.foldl (fun out (n, k, _) => assign n k out) done.kinds
    integrands := done.integrands ++ [{
      rule, scalar, factors := g, arguments := places, blocks
      twoSided := sides.contains (some .plus) && sides.contains (some .minus) }] }

def represent [Builder] (task : Task) (integrands : List (Rule × Expr)) :
    Outcome Representation := do
  (← byRule integrands).foldlM (fun done (rule, e) => addIntegrand task done rule e) {}

end FormKernel.Integral
