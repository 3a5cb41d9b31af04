import FormKernel.Binding.Definition
import FormKernel.Integral.Representation
import FormKernel.Kernel.Hoist
import FormKernel.Kernel.Lower
import FormKernel.Reference.GeometryTable

/-! # Tables and variables of a kernel

The factors of an integrand are computed in variables: once before the loop over points if they
are the same at all points, and inside the loop if they vary.  Each factor is computed after its
operands and only once. -/

namespace FormKernel.Integral

open Binding (Layout)
open Reference (CellData GeometryTable)
open Factor (FactorVertex Status)
open Form (Expr Quantity)
open Kernel (Operand Stmt Symbol)
open Quadrature (Rule)

/-! ## Tables

The constant arrays that a kernel starts with: weights of rules, values of basis functions and
geometry of the reference cell. -/

def geometryTables : List (Quantity × GeometryTable) := [
  (.facetEdgeVectors, .facetEdgeVertices), (.cellFacetJacobian, .referenceFacetJacobian),
  (.referenceCellVolume, .referenceCellVolume), (.referenceFacetVolume, .referenceFacetVolume),
  (.referenceCellEdgeVectors, .referenceEdgeVectors),
  (.referenceFacetEdgeVectors, .facetReferenceEdgeVectors),
  (.referenceNormal, .referenceFacetNormals), (.facetOrientation, .facetOrientation)]

/-- The quantities among the terminals of all rules, each with its cell. -/
def quantities (r : Representation) : List (Quantity × Outcome String) :=
  r.integrands.flatMap fun i => i.factors.nodes.filterMap fun (_, v) => do
    match (← v.terminal).terminal with
    | .quantity q (some d) _ => some (q, .ok d.cell.name)
    | .quantity q none _ => some (q, misfit .noMember)
    | _ => none

/-- The declarations of the tables of reference geometry that are needed. -/
def declareGeometry (data : CellData) (known : List (Quantity × GeometryTable))
    (r : Representation) : Outcome (List Operand) := do
  let used ← (quantities r).filterMapM fun (q, cell) => do
    if (known.lookup q).isSome then return some (q, ← cell) else return none
  let used := Form.distinct used
  known.flatMapM fun (q, table) =>
    (used.filter fun u => u.1 == q).mapM fun (_, cell) => do
      return .stmt (← table.declaration data cell)

def tableNames (tables : List (String × Dense Float)) : List String :=
  (tables.map (·.1)).mergeSort fun a b => decide (a ≤ b)

def declareTable (name : String) (values : Dense Float) : Outcome Stmt := do
  Stmt.ofArray (← Symbol.of name (some .real)) none (.values (Values.ofFloats values)) true

def declareTables (r : Representation) (names : List String) : Outcome (List Operand) :=
  names.filterMapM fun name =>
    match r.tables.lookup name with
    | some values => do return some (.stmt (← declareTable name values))
    | none => pure none

/-- Whether a table is declared in a kernel whose points are given as an argument: only tables that
    are the same at all points are. -/
def isPiecewiseTable (r : Representation) (name : String) : Bool :=
  match r.kinds.lookup name with
  | some (some kind) => kind.isPiecewise
  | _ => false

/-- The declarations of the weights of all rules, unless they are given as an argument. -/
def declareWeights (l : Layout) (r : Representation) : Outcome (List Operand) := do
  if l.kind.isCustom || l.kind == .vertex then return []
  let parts ← r.integrands.mapM fun i => do
    let symbol ← Binding.weightsTable (some i.rule)
    return .stmt (← Stmt.ofArray symbol none (.values (Values.ofFloats i.rule.weights)) true)
  return Stmt.commented parts ["Quadrature rules"]

/-! ## Variables -/

/-- The kernel expressions of form expressions. -/
structure Variables where
  /-- Those that are computed before all loops over points. -/
  common : List (Expr × Operand) := []
  /-- Those that are computed for each point of the rule at hand. -/
  own : List (Expr × Operand) := []

namespace Variables

/-- The kernel expression of a form expression; numbers stand for themselves. -/
def find? (v : Variables) (e : Expr) : Outcome (Option Operand) :=
  match e with
  | .terminal (.number n) => do return some (← Kernel.lower n.head n [])
  | .terminal .zero => do return some (← Kernel.lower .zero (.int 0) [])
  | e => .ok ((v.own.lookup e).or (v.common.lookup e))

/-- The kernel expression of a form expression, or nothing. -/
def get (v : Variables) (e : Expr) : Outcome Operand := do
  return (← v.find? e).getD .none

/-- Sets the kernel expression of a form expression. -/
def put (v : Variables) (perPoint : Bool) (e : Expr) (o : Operand) : Variables :=
  if perPoint then { v with own := assign e o v.own } else { v with common := assign e o v.common }

end Variables

/-- Code that computes factors. -/
structure Partition where
  values : Variables
  /-- Definitions of terminals. -/
  definitions : List Stmt := []
  intermediates : List Stmt := []

def isDefined (definitions : List Stmt) (s : Stmt) : Outcome Bool :=
  match definitions with
  | [] => .ok false
  | d :: rest => do
    if ← d.equal false s then return true
    isDefined rest s

def addFactor (l : Layout) (declared : List String) (name : String) (rule : Option Rule)
    (done : Partition) (v : FactorVertex) : Outcome Partition := do
  if (← done.values.find? v.expr).isSome then return done
  let perPoint := rule.isSome
  match v.terminal with
  | some m =>
    let value ← Binding.access l m v.table rule
    let definition := (← Binding.definition l declared m v.table rule value).getD (.list [])
    let known ← isDefined done.definitions definition
    return { done with
      values := done.values.put perPoint v.expr value
      definitions := if known then done.definitions else done.definitions ++ [definition] }
  | none =>
    let operands ← v.expr.operands.mapM done.values.get
    let dtype ← Kernel.resultType v.expr.head operands
    let value ← Kernel.lower v.expr.head (.int 0) operands
    let symbol ← Symbol.of s!"{name}_{done.intermediates.length}" (some dtype)
    return { done with
      values := done.values.put perPoint v.expr (.expr (.symbol symbol))
      intermediates := done.intermediates ++ [← Stmt.ofVariable symbol (some value)] }

/-- The computation of all factors of a status. -/
def partition (l : Layout) (declared : List String) (name : String) (status : Status)
    (rule : Option Rule) (g : Graph Nat FactorVertex) (values : Variables) :
    Outcome Partition := do
  let vertices := (g.nodes.map (·.2)).filter fun v => v.status == some status
  let done ← vertices.foldlM (addFactor l declared name rule) { values }
  return { done with definitions := ← Kernel.optimize done.definitions }

end FormKernel.Integral
