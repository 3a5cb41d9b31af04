import FormKernel.Integral.Partition

/-! # Kernels that evaluate expressions

The body of the function that evaluates an expression at the points of the reference cell.  The
entries of its result are numbered by point, component and the degrees of freedom of the
arguments. -/

namespace FormKernel.Integral

open Binding (Layout)
open Factor (FactorVertex Status)
open Form (Quantity)
open Kernel (DType Expr MultiIndex Operand Stmt Symbol)
open Reference (CellData GeometryTable)

/-- What a kernel that evaluates an expression is written for. -/
structure PointTask where
  data : CellData
  layout : Layout
  shape : List Int
  /-- The shape of the expression. -/
  valueShape : List Nat

def isFacetQuantity : Quantity → Bool
  | .facetCoordinate | .facetEdgeVectors | .cellFacetJacobian | .referenceFacetVolume
  | .referenceNormal | .facetOrientation | .referenceFacetEdgeVectors => true
  | _ => false

/-- The tables of reference geometry of an expression.  An expression on cells has no quantities of
    facets. -/
def pointGeometry (task : PointTask) (r : Representation) : Outcome (List Operand) := do
  let known : List (Quantity × GeometryTable) :=
    geometryTables.filter fun t => t.1 == .referenceCellVolume || t.1 == .referenceNormal
  for (q, cell) in quantities r do
    if task.layout.entity == .cell && isFacetQuantity q then
      throw (.facetQuantity (Form.Head.quantity q).typeText)
    if (known.lookup q).isSome then let _ ← cell
  declareGeometry task.data known r

/-- Code that computes factors of an expression. -/
structure PointPartition where
  values : Variables := {}
  definitions : List Operand := []
  intermediates : List Operand := []

def addPointFactor (l : Layout) (declared : List String) (name : String)
    (done : PointPartition) (v : FactorVertex) : Outcome PointPartition := do
  let known (o : Operand) : Variables := done.values.put false v.expr o
  if v.expr.isNumber then return { done with values := known (← done.values.get v.expr) }
  match v.terminal with
  | some m =>
    let value ← Binding.access l m v.table none
    let code ← match ← Binding.definition l declared m v.table none value with
      | some (.part _ _ body declarations ..) => pure ((declarations ++ body).map Operand.stmt)
      | _ => pure []
    return { done with values := known value, definitions := done.definitions ++ code }
  | none =>
    let operands ← v.expr.operands.mapM done.values.get
    let value ← Kernel.lower v.expr.head (.int 0) operands
    let dtype : DType := if v.expr.isCondition then .bool else .scalar
    let symbol ← Symbol.of s!"{name}_{done.intermediates.length}" (some dtype)
    return { done with
      values := known (.expr (.symbol symbol))
      intermediates := done.intermediates ++ [.stmt (← Stmt.ofVariable symbol (some value))] }

/-- The computation of all factors of a status. -/
def pointPartition (l : Layout) (declared : List String) (name : String) (status : Status)
    (g : Graph Nat FactorVertex) (values : Variables) : Outcome (Variables × List Operand) := do
  let vertices := (g.nodes.map (·.2)).filter fun v => v.status == some status
  let done ← vertices.foldlM (addPointFactor l declared name) { values }
  return (done.values, done.definitions ++ done.intermediates)

def pointArguments (l : Layout) (i : Integrand) (b : Block) (indices : List Symbol) :
    Outcome (List Operand) :=
  indices.zipIdx.mapM fun (index, k) => do
    let some a := b.arguments[k]? | misfit .outOfRange
    match i.argument? a.place with
    | none => misfit .outOfRange
    | some m =>
      let table ← Binding.tableAtPoint a.table l.entity m.restriction
      require (a.table.kind != .zeros)
      if a.table.kind == .ones then return .expr (.float 1.0)
      return .expr (← Expr.ofItem (.expr table) [.expr (.symbol index)])

/-- Whether numbers are equally far apart, the first step aside. -/
def isEvenlySpaced (dofs : List Int) : Bool :=
  match dofs with
  | a :: b :: rest => ((b :: rest).zip rest).all fun (x, y) => y - x == b - a
  | _ => true

/-- The place of a degree of freedom of an argument in the result. -/
def pointTensorIndex (dofs : List Int) (index : Symbol) : Outcome Operand := do
  let i : Operand := .expr (.symbol index)
  match dofs with
  | [] => misfit .outOfRange
  | [offset] => Binding.plus i (.int offset)
  | offset :: next :: _ => Binding.plus (← Binding.times (.int (next - offset)) i) (.int offset)

/-- The loop over the degrees of freedom of the argument, if there is one.  Kernels of expressions
    with more than one argument are not supported. -/
def dofLoop (dofs : List (Symbol × Nat)) (body : List Operand) : Outcome (List Operand) := do
  match dofs with
  | [] => return body
  | [(index, n)] => return [.stmt (← Stmt.ofLoop (.symbol index) (.int 0) (.int n) body)]
  | _ => misfit .unmet

def pointBlock (task : PointTask) (i : Integrand) (v : Variables) (map : BlockMap) (b : Block) :
    Outcome (List Operand) := do
  if b.kinds.contains .zeros then throw .zeroArgument
  let indices ← (List.range map.length).mapM fun (k : Nat) => Binding.argumentIndex k
  if b.transposed then throw (.unmetBecause "Not handled yet")
  let shape : List Int := [(i.rule.numPoints : Int), (volume task.valueShape : Int)] ++ task.shape
  if !map.all isEvenlySpaced then
    if map.any (·.isEmpty) then return [] else misfit .wrongKind
  let factors ← pointArguments task.layout i b indices
  let places ← (map.zip indices).mapM fun (dofs, index) => pointTensorIndex dofs index
  let body ← b.factors.mapM fun (factor, component) => do
    let some vertex := i.factors.data? factor | misfit .noEntry
    let value ← Operand.product ((← v.get vertex.expr) :: factors)
    let index ← MultiIndex.of (.expr (.symbol Binding.pointIndex) :: .int component :: places) shape
    let entry ← Binding.item Binding.elementTensor [.expr index.toExpr]
    return .expr (.assign .add entry (← value.toExpr))
  let loops ← dofLoop (indices.zip (map.map List.length)) body
  return [.list loops]

/-- The body of the kernel that evaluates an expression. -/
def pointKernel (task : PointTask) (r : Representation) : Outcome (List Stmt) := do
  let [i] := r.integrands | throw .severalPointSets
  let names := tableNames r.tables
  let tables := Stmt.commented (← declareTables r names) [
    "Precomputed values of basis functions", "FE* dimensions: [entities][points][dofs]"]
  let geometry ← pointGeometry task r
  let (v, before) ← pointPartition task.layout names "sp" .piecewise i.factors {}
  let before := Stmt.commented before ["Unstructured piecewise computations"]
  let rule ← i.rule.name
  let (v, varying) ← pointPartition task.layout names s!"sv_{rule}" .varying i.factors v
  let varying := Stmt.commented (Stmt.commented varying
    [s!"Unstructured varying computations for quadrature rule {rule}"])
    [s!"Points loop body setup quadrature loop {rule}"]
  let sorted := i.blocks.mergeSort fun a b => (compare a.1 b.1).isLE
  let blocks ← (sorted.flatMap fun (map, bs) => bs.map fun b => (map, b)).flatMapM fun (map, b) =>
    pointBlock task i v map b
  let body := varying ++ blocks
  let loop ← if body.isEmpty then pure [] else do
    pure [Operand.stmt (← Stmt.ofLoop (.symbol Binding.pointIndex) (.int 0) (.int i.rule.numPoints)
      body)]
  Operand.toStmts (tables ++ geometry ++ before ++ loop)

end FormKernel.Integral
