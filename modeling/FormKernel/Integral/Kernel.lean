import FormKernel.Integral.Partition

/-! # Kernels of integrals

The body of the function that adds the integral over one cell or facet to the element tensor: a
loop over the points of each rule, inside of which every block is computed by a loop nest over its
degrees of freedom. -/

namespace FormKernel.Integral

open Binding (Layout)
open Kernel (Expr MultiIndex Operand Stmt Symbol)
open Quadrature (Rule)
open Reference (CellData)

structure KernelTask where
  data : CellData
  layout : Layout
  /-- The extents of the element tensor. -/
  shape : List Int

/-- The variables that hold a factor times the weight, by factor. -/
structure Weighted where
  count : Nat := 0
  /-- Those of the rule at hand. -/
  known : List ((Nat × Bool) × Symbol) := []

structure BlockCode where
  weighted : Weighted
  /-- Declarations of factors times weights. -/
  intermediates : List (Symbol × Expr) := []
  sections : List Stmt := []

/-- Additions to entries of the element tensor, grouped by entry. -/
abbrev Additions := List (List Expr × List Operand)

/-- Whether lists of indices are equal. -/
def sameIndices (a b : List Expr) : Bool :=
  a.length == b.length && (a.zip b).all fun (x, y) => x.same y

def addTerm (indices : List Expr) (term : Operand) : Additions → Additions
  | [] => [(indices, [term])]
  | (known, terms) :: rest =>
    if sameIndices known indices then (known, terms ++ [term]) :: rest
    else (known, terms) :: addTerm indices term rest

/-- The blocks in order, grouped by the degrees of freedom before their offsets and strides. -/
def groupBlocks (i : Integrand) : Outcome (List (BlockMap × List Block)) := do
  let sorted := i.blocks.mergeSort fun a b => (compare a.1 b.1).isLE
  let blocks := sorted.flatMap fun (map, bs) => bs.map fun b => (map, b)
  blocks.foldlM (fun groups (map, b) => do
    require (b.arguments.length == map.length)
    let scalar ← (map.zip b.arguments).mapM fun (dofs, a) =>
      dofs.mapM fun (d : Int) =>
        if a.table.blockSize == 0 then misfit .zeroDivision
        else pure ((d - a.table.offset).fdiv a.table.blockSize)
    return appendTo scalar b groups) []

/-- The values of the arguments of a block at a point, with the tables that are read. -/
def argumentFactors (l : Layout) (declared : List String) (i : Integrand) (b : Block)
    (point : MultiIndex) (dofs : List MultiIndex) : Outcome (List Operand × List Symbol) := do
  let parts ← (b.arguments.zip dofs).mapM fun (a, dof) => do
    match i.argument? a.place with
    | none => misfit .outOfRange
    | some m =>
      require (a.table.kind != .zeros)
      if a.table.kind == .ones then return (Operand.int 1, [])
      let (e, tables) ← Binding.tableAccess declared a.table l.entity m.restriction point dof
      return (Operand.expr e, tables)
  return (parts.map (·.1), parts.flatMap (·.2))

def weightAt (l : Layout) (rule : Rule) (point : MultiIndex) : Outcome Expr := do
  let table ← if l.kind.isCustom then pure Binding.givenWeights
    else Binding.weightsTable (some rule)
  Binding.item table [.expr point.flat]

/-- The factor of a block times the weight.  A product is kept in a variable, which blocks with the
    same factor share. -/
def weightedFactor (task : KernelTask) (i : Integrand) (v : Variables) (b : Block)
    (point : MultiIndex) (done : BlockCode) : Outcome (Operand × BlockCode) := do
  if b.factors.length > 1 then throw .severalComponents
  let some (factor, _) := b.factors.head? | misfit .outOfRange
  let some vertex := i.factors.data? factor | misfit .noEntry
  let f ← v.get vertex.expr
  let weight ← weightAt task.layout i.rule point
  match ← Operand.product [f, .expr weight] with
  | .expr (.nary .product tag t args) =>
    let key := (factor, b.piecewise)
    match done.weighted.known.lookup key with
    | some s => return (.expr (.symbol s), done)
    | none =>
      let symbol ← Symbol.of s!"fw{done.weighted.count}" (some .scalar)
      return (.expr (.symbol symbol), { done with
        weighted := ⟨done.weighted.count + 1, done.weighted.known ++ [(key, symbol)]⟩
        intermediates := done.intermediates ++ [(symbol, .nary .product tag t args)] })
  | o => return (o, done)

/-- The variable or array that a factor is read from. -/
def arrayOf : Operand → Outcome Symbol
  | .expr (.symbol s) => .ok s
  | .expr (.access s _) => .ok s
  | _ => misfit .noMember

/-- The place in the element tensor of a degree of freedom of an argument. -/
def tensorIndex (dofs : List Int) (a : BlockArgument) (index : MultiIndex) : Outcome Expr := do
  let offset : Operand := .int a.table.offset
  let place ← if dofs.length == 1 then Binding.plus (.expr index.flat) offset
    else do Binding.plus (← Binding.times (.int a.table.blockSize) (.expr index.flat)) offset
  place.toExpr

/-- What a group of blocks reads and adds. -/
structure GroupCode where
  done : BlockCode
  reads : List Symbol := []
  additions : Additions := []
  loops : List MultiIndex := []

def addBlock (task : KernelTask) (declared : List String) (i : Integrand) (v : Variables)
    (map : BlockMap) (point : MultiIndex) (group : GroupCode) (b : Block) : Outcome GroupCode := do
  let dofs ← (List.range map.length).mapM fun (k : Nat) => do
    let some a := b.arguments[k]? | misfit .outOfRange
    let s ← Binding.argumentIndex k
    Binding.dofIndex a.table s.name
  if b.kinds.contains .zeros then throw .zeroArgument
  let (fw, done) ← weightedFactor task i v b point group.done
  let read ← arrayOf fw
  if b.transposed then throw (.unmetBecause "Not handled yet")
  let (factors, tables) ← argumentFactors task.layout declared i b point dofs
  let term ← Operand.product (fw :: factors)
  let indices ← (map.zip (b.arguments.zip dofs)).mapM fun (ds, a, index) => tensorIndex ds a index
  return {
    done, reads := group.reads ++ [read] ++ tables
    additions := addTerm indices term group.additions, loops := dofs }

def assignments (shape : List Int) (additions : Additions) : Outcome (List Operand) :=
  additions.flatMapM fun (indices, terms) => do
    let index ← MultiIndex.ofExprs indices shape
    terms.mapM fun term => do
      let entry ← Binding.item Binding.elementTensor [.expr index.toExpr]
      return .expr (.assign .add entry (← term.toExpr))

def groupSection (task : KernelTask) (declared : List String) (i : Integrand) (v : Variables)
    (done : BlockCode) (group : BlockMap × List Block) : Outcome BlockCode := do
  let (map, blocks) := group
  let point ← Binding.ruleIndex (some i.rule) Binding.pointIndex.name
  let code ← blocks.foldlM (addBlock task declared i v map point) { done }
  let body ← assignments task.shape code.additions
  let loops ← Kernel.nestedLoops code.loops.reverse (.list body)
  let part ← Stmt.ofPart "Tensor Computation" [loops] [] (Kernel.distinctSymbols code.reads)
    [Binding.elementTensor] (if code.loops.length > 1 then [.licm] else [])
  return { code.done with sections := code.done.sections ++ [part] }

def outputOf : Stmt → Outcome (List Symbol)
  | .part _ _ _ _ _ output _ => .ok output
  | _ => misfit .unmet

def pointLoop (task : KernelTask) (declared : List String) (i : Integrand) (v : Variables)
    (weighted : Nat) : Outcome (Operand × Partition × Nat) := do
  let p ← partition task.layout declared s!"sv_{← i.rule.name}" .varying (some i.rule) i.factors v
  let code ← (← groupBlocks i).foldlM (groupSection task declared i p.values)
    { weighted := { count := weighted } }
  let inputs ← p.definitions.flatMapM outputOf
  let declarations ← code.intermediates.mapM fun (s, _) => do
    return Operand.stmt (← Stmt.ofVariable s (some (.int 0)))
  let body := p.intermediates.map Operand.stmt ++
    code.intermediates.map fun (s, value) => Operand.expr (.assign .set (.symbol s) value)
  let intermediates ← Stmt.ofPart "Intermediates" body declarations inputs
    (code.intermediates.map (·.1)) []
  let point ← Binding.ruleIndex (some i.rule) Binding.pointIndex.name
  let parts ← Kernel.optimize (p.definitions ++ [intermediates] ++ code.sections)
  return (← Kernel.nestedLoops [point] (.list (parts.map .stmt)), p, code.weighted.count)

/-- The code of one rule: what comes before all loops over points, and the loop. -/
structure RuleCode where
  values : Variables := {}
  weighted : Nat := 0
  before : List Operand := []
  loops : List Operand := []

/-- The code of a definition; a terminal that is read in place has none. -/
def definitionCode : Stmt → Operand
  | .list [] => .list []
  | s => .stmt s

def addRuleCode (task : KernelTask) (declared : List String) (done : RuleCode) (i : Integrand) :
    Outcome RuleCode := do
  let p ← partition task.layout declared s!"sp_{← i.rule.name}" .piecewise none i.factors
    { done.values with own := [] }
  let (loop, q, weighted) ← pointLoop task declared i p.values done.weighted
  return {
    values := q.values, weighted
    before :=
    done.before ++ [.list (p.definitions.map definitionCode), .list (p.intermediates.map .stmt)]
    loops := done.loops ++ [loop] }

def kernel (task : KernelTask) (r : Representation) : Outcome (List Stmt) := do
  let weights ← declareWeights task.layout r
  let names := tableNames r.tables
  let names := if task.layout.kind.isCustom then names.filter (isPiecewiseTable r) else names
  let tables := Stmt.commented (← declareTables r names) [
    "Precomputed values of basis functions and precomputations",
    "FE* dimensions: [permutation][entities][points][dofs]"]
  let geometry ← declareGeometry task.data geometryTables r
  let code ← r.integrands.foldlM (addRuleCode task names) {}
  Operand.toStmts (weights ++ tables ++ geometry ++ code.before ++ code.loops)

end FormKernel.Integral
