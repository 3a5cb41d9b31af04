import FormKernel.Factor.Basic
import FormKernel.Graph.Vertices
import FormKernel.Sorting
import FormKernel.Table.Kind

/-! # Factorisation of a scalar graph

The graph of the factors of the arguments of an expression.  The modified arguments come first,
then the number one, then all factors in the order in which they are found. -/

namespace FormKernel.Factor

open Form (Builder Expr ModifiedTerminal)
open FormKernel.Graph (Vertex)
open Table (TableRef)

/-- How the value of a factor depends on the point: it is not needed, or the same at all points,
    or different. -/
inductive Status where
  | inactive | piecewise | varying
  deriving DecidableEq

def Status.name : Status → String
  | .inactive => "inactive"
  | .piecewise => "piecewise"
  | .varying => "varying"

structure FactorVertex where
  expr : Expr
  /-- The products of arguments that it is the factor of, by places among the arguments. -/
  targets : List (List Nat) := []
  /-- The component for each of the products. -/
  components : List Nat := []
  terminal : Option ModifiedTerminal := none
  table : Option TableRef := none
  status : Option Status := none
  deriving Inhabited

/-- The nodes that are modified arguments, in the order of their keys. -/
def argumentNodes (g : Graph Nat Vertex) : Outcome (List Nat) := do
  let arguments ← g.nodes.filterM fun n => do
    match ← n.2.expr.modified? with
    | some (.argument ..) => return true
    | _ => return false
  let keyed ← arguments.mapM fun (i, v) => do
    return (i, ← (← ModifiedTerminal.of v.expr).key)
  return (← sortWith (fun a b => ModifiedTerminal.Key.before a.2 b.2) keyed).map (·.1)

/-- The factors of one node, given those of the nodes before it. -/
def nodeFactors [Builder] (g : Graph Nat Vertex) (arguments : List Nat) (one : Nat)
    (done : List Factors) (node : Nat × Vertex) : Building Factors := do
  let (i, v) := node
  let deps := g.out i
  if arguments.contains i then
    expect deps.isEmpty
    return [([i], one)]
  let fac ← deps.mapM fun d =>
    match done[d]? with
    | some f => pure f
    | none => throw (.misfit .noEntry)
  if fac.all (·.isEmpty) then
    let _ ← insert v.expr
    return []
  let scalars := (deps.zip fac).map fun (d, f) =>
    if f.isEmpty then (g.data? d).map (·.expr) else none
  combine v.expr fac scalars

/-- The factors of all nodes, up to the first that fails, and the list of factors. -/
def factorNodes (step : List Factors → Nat × Vertex → Building Factors) :
    List (Nat × Vertex) → List Factors → List Expr → List Factors × Outcome (List Expr)
  | [], done, factors => (done, .ok factors)
  | n :: ns, done, factors =>
    match (step done n).run factors with
    | (.ok f, factors) => factorNodes step ns (done ++ [f]) factors
    | (.error e, _) => (done, .error e)

/-- Inserts expressions into a list without repetitions. -/
def insertAll (es : List Expr) (factors : List Expr) : List Expr :=
  es.foldl (fun out e => if out.contains e then out else out ++ [e]) factors

def one : Expr := .terminal (.number (.float 1.0))

def argumentPlace (arguments : List Nat) (i : Nat) : Outcome Nat :=
  orMisfit (arguments.findIdx? (· == i)) .wrongValue

def targetFactors (arguments : List Nat) (rank : Nat) (factors : List Expr) (v : Vertex)
    (f : Factors) (out : List (Nat × Factors)) : Outcome (List (Nat × Factors)) := do
  if f.isEmpty then
    if rank == 0 then
      match factors.findIdx? (· == v.expr) with
      | none => misfit .noEntry
      | some i => return v.components.foldl (fun out c => assign c [([], i)] out) out
    else return out
  else
    let placed ← f.mapM fun (k, i) => do
      return ((← k.mapM (argumentPlace arguments)).mergeSort, i)
    return placed.foldl (fun out (k, i) =>
      v.components.foldl (fun out c =>
        assign c (assign k i ((out.lookup c).getD [])) out) out) out

def markTargets (vertices : List FactorVertex) (byComponent : List (Nat × Factors)) :
    List FactorVertex :=
  byComponent.foldl (fun vertices (c, f) =>
    f.foldl (fun vertices (k, i) =>
      vertices.modify i fun v =>
        { v with targets := v.targets ++ [k], components := v.components ++ [c] })
      vertices) vertices

/-- Adds the edges from each factor to its operands. -/
def connect (vertices : List FactorVertex) : Outcome (Graph Nat FactorVertex) := do
  let exprs := vertices.map (·.expr)
  let edges ← ((List.range exprs.length).zip exprs).flatMapM fun (i, e) =>
    if e.isTerminal || e.isModifier then pure []
    else e.operands.mapM fun o =>
      match exprs.findIdx? (· == o) with
      | some k => pure (i, k)
      | none => misfit .noEntry
  edges.foldlM (fun g (i, k) => g.addEdge i k) (Graph.ofVertices vertices)

/-- A factorisation: the factors of the nodes of the scalar graph, as far as they were found, and
    the graph of factors. -/
structure Factorization where
  nodes : List Factors
  graph : Outcome (Graph Nat FactorVertex)

/-- Factorises a scalar graph for a form with a number of arguments. -/
def factorize [Builder] (g : Graph Nat Vertex) (rank : Nat) : Factorization :=
  match argumentNodes g with
  | .error e => ⟨[], .error e⟩
  | .ok arguments =>
    let start := insertAll [one] (insertAll (arguments.filterMap fun i =>
      (g.data? i).map (·.expr)) [])
    let oneNumber := (start.findIdx? (· == one)).getD 0
    let (nodes, factors) := factorNodes (nodeFactors g arguments oneNumber) g.nodes [] start
    ⟨nodes, do
      let factors ← factors
      let targets := (g.nodes.zip nodes).filter fun n => !n.1.2.components.isEmpty
      let byComponent ← targets.foldlM (fun out ((_, v), f) =>
        targetFactors arguments rank factors v f out) []
      connect (markTargets (factors.map fun e => { expr := e }) byComponent)⟩

end FormKernel.Factor
