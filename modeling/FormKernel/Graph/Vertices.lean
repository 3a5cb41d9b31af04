import FormKernel.Form.Modified
import FormKernel.Graph.Basic

/-! # Graphs of expressions

The different subexpressions of expressions, each numbered after its operands. -/

namespace FormKernel.Graph

open Form (Expr)

/-- The operands that are numbered before an expression.  With `whole`, a terminal under modifiers
    is not taken apart. -/
def visited (whole : Bool) (e : Expr) : List Expr :=
  if whole && e.isModified then [] else e.operands

/-- An expression on the stack of a traversal, and its operands without those that have been put on
    the stack. -/
structure Frame where
  expr : Expr
  operands : List (Option Expr)

/-- The frame of an expression that is put on the stack. -/
def Frame.of (whole : Bool) (e : Expr) : Frame := ⟨e, (visited whole e).map some⟩

/-- Takes out the first operand without a number. -/
def takeNext (seen : List Expr) : List (Option Expr) → Option (Expr × List (Option Expr))
  | [] => none
  | some o :: ops =>
    if seen.contains o then (takeNext seen ops).map fun (e, ops) => (e, some o :: ops)
    else some (o, none :: ops)
  | none :: ops => (takeNext seen ops).map fun (e, ops) => (e, none :: ops)

/-- A bound for the steps that operands take: two for each of their nodes. -/
def pendingSteps : List (Option Expr) → Nat
  | [] => 0
  | some o :: ops => 2 * o.nodes.length + pendingSteps ops
  | none :: ops => pendingSteps ops

theorem pendingSteps_takeNext {seen : List Expr} {ops ops' : List (Option Expr)} {o : Expr}
    (h : takeNext seen ops = some (o, ops')) :
    pendingSteps ops = 2 * o.nodes.length + pendingSteps ops' := by
  fun_induction takeNext seen ops generalizing ops' with
  | case1 => cases h
  | case2 x ops _ ih =>
    obtain ⟨⟨_, rest⟩, hrest, h⟩ := Option.map_eq_some_iff.1 h
    cases h
    have hsteps := ih hrest
    simp only [pendingSteps]
    omega
  | case3 => cases h; rfl
  | case4 ops ih =>
    obtain ⟨⟨_, rest⟩, hrest, h⟩ := Option.map_eq_some_iff.1 h
    cases h
    simpa only [pendingSteps] using ih hrest

theorem pendingSteps_map_some (es : List Expr) :
    pendingSteps (es.map some) = 2 * (Expr.nodesOf es).length := by
  induction es with
  | nil => rfl
  | cons e es ih =>
    rw [List.map_cons, pendingSteps, ih, Expr.nodesOf, List.length_append]
    omega

theorem pendingSteps_of (whole : Bool) (e : Expr) :
    pendingSteps (Frame.of whole e).operands + 2 ≤ 2 * e.nodes.length := by
  rw [Frame.of, pendingSteps_map_some, visited]
  split <;> cases e <;> simp [Expr.operands, Expr.nodes, Expr.nodesOf] <;> omega

/-- Numbers expressions by a stack: an expression gets its number when all its operands have theirs.
    Multi-indices and labels get none. -/
def traverseFrom (whole : Bool) (seen : List Expr) : List Frame → List Expr
  | [] => seen
  | ⟨e, ops⟩ :: stack =>
    if seen.contains e then traverseFrom whole seen stack
    else match _h : takeNext seen ops with
      | some (o, ops') => traverseFrom whole seen (.of whole o :: ⟨e, ops'⟩ :: stack)
      | none => traverseFrom whole (if e.isMark then seen else seen ++ [e]) stack
termination_by stack => stack.foldr (fun f n => pendingSteps f.operands + 1 + n) 0
decreasing_by
  · simp
  · have hpushed := pendingSteps_of whole o
    have hleft := pendingSteps_takeNext _h
    simp only [List.foldr_cons]
    omega
  · simp

/-- The different subexpressions of expressions in the order of their numbers. -/
def traverse (whole : Bool) (es : List Expr) : List Expr :=
  traverseFrom whole [] (es.map (.of whole))

/-- A node of a graph of expressions. -/
structure Vertex where
  expr : Expr
  /-- The places of the expression among those that the graph was made for. -/
  components : List Nat := []

/-- The number of an expression among the nodes. -/
def numberOf (exprs : List Expr) (e : Expr) : Option Nat := exprs.findIdx? (· == e)

/-- A graph of numbered expressions without edges. -/
def ofVertices {α : Type} (vertices : List α) : Graph Nat α where
  nodes := (List.range vertices.length).zip vertices
  outEdges := (List.range vertices.length).map fun i => (i, [])
  inEdges := (List.range vertices.length).map fun i => (i, [])

/-- The places at which an expression stands in a list. -/
def placesOf (exprs : List Expr) (e : Expr) : List Nat :=
  (List.range exprs.length).filter fun i => exprs[i]?.any (· == e)

def ofExprs (whole : Bool) (exprs : List Expr) : Outcome (Graph Nat Vertex) := do
  let collected := traverse whole exprs
  if exprs.any fun e => (numberOf collected e).isNone then misfit .noEntry
  return ofVertices (collected.map fun e => { expr := e, components := placesOf exprs e })

def exprs (g : Graph Nat Vertex) : List Expr := g.nodes.map fun n => n.2.expr

end FormKernel.Graph
