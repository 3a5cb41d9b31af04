import FormKernel.Factor.Graph

/-! # Dependencies of factors

Every factor is inactive, piecewise or varying.  A factor is active when a target can be reached
against the edges, and an active factor varies when it leads to an active terminal whose table
varies over the points.

Both sets are found by a search that takes the last waiting node, marks it and lets its neighbours
wait.  Neither search asks whether a node is waiting already, so a node may wait several times. -/

namespace FormKernel.Factor

open Table (TableKind)

/-- Whether a table of this kind has different values at different points. -/
def variesOverPoints : TableKind → Bool
  | .varying | .quadrature | .uniform => true
  | _ => false

/-- The state of a search: the nodes that wait, the last one first, and those that are marked. -/
structure Search where
  waiting : List Nat
  marked : List Nat := []
  deriving DecidableEq

/-- Repeats a step while there is one, at most a number of times. -/
def Search.run (step : Search → Option Search) : Nat → Search → Search
  | 0, s => s
  | n + 1, s =>
    match step s with
    | none => s
    | some t => Search.run step n t

/-- Adds a node to those that are marked. -/
def Search.mark (s : Nat) (marked : List Nat) : List Nat :=
  if marked.contains s then marked else s :: marked

section Steps

variable {α : Type} (g : Graph Nat α)

/-- A step of the search along edges: the node is marked, and the ends of its edges that are not
    marked have to wait.  A node that was marked before is no exception. -/
def activateStep : Search → Option Search
  | ⟨[], _⟩ => none
  | ⟨s :: waiting, marked⟩ =>
    let marked := Search.mark s marked
    some ⟨((g.out s).filter fun j => !marked.contains j).reverse ++ waiting, marked⟩

/-- A step of the search against edges among active nodes: a node that is not marked yet is marked,
    and all nodes with edges to it have to wait. -/
def spreadStep (active : List Nat) : Search → Option Search
  | ⟨[], _⟩ => none
  | ⟨s :: waiting, marked⟩ =>
    if active.contains s && !marked.contains s then
      some ⟨(g.into s).reverse ++ waiting, s :: marked⟩
    else some ⟨waiting, marked⟩

end Steps

/-- How many edges there are in a list of the edges of each node. -/
def edgeCount (edges : List (Nat × List Nat)) : Nat := edges.foldr (fun e n => e.2.length + n) 0

def targetNodes (g : Graph Nat FactorVertex) : List Nat :=
  (g.nodes.filter fun n => !n.2.targets.isEmpty).map (·.1)

/-- The search for active nodes.  Every edge lets one node wait at most once. -/
def activeSearch (g : Graph Nat FactorVertex) : Search :=
  Search.run (activateStep g) ((targetNodes g).length + edgeCount g.outEdges)
    { waiting := (targetNodes g).reverse }

/-- Adds a node whose own table varies over the points.  A terminal without a table has to be the
    same at all points. -/
def addVarying (out : List Nat) (n : Nat × FactorVertex) : Outcome (List Nat) :=
  match n.2.terminal, n.2.table with
  | none, _ => .ok out
  | some _, some t => .ok (if variesOverPoints t.kind then out ++ [n.1] else out)
  | some _, none => if n.2.expr.isCellwiseConstant then .ok out else .error .notCellwiseConstant

/-- The nodes whose own tables vary over the points. -/
def varyingTerminals (g : Graph Nat FactorVertex) : Outcome (List Nat) :=
  g.nodes.foldlM addVarying []

/-- The search for active nodes that lead to one of the given nodes. -/
def varyingSearch (g : Graph Nat FactorVertex) (active start : List Nat) : Search :=
  Search.run (spreadStep g active) (start.length + edgeCount g.inEdges) { waiting := start.reverse }

/-- The status of a node, given the nodes that are active and those that vary. -/
def statusOf (active varying : List Nat) (i : Nat) : Status :=
  if varying.contains i then .varying
  else if active.contains i then .piecewise
  else .inactive

/-- Sets the status of all factors. -/
def analyse (g : Graph Nat FactorVertex) : Outcome (Graph Nat FactorVertex) := do
  let active := (activeSearch g).marked
  let start ← varyingTerminals g
  let varying := (varyingSearch g active start).marked
  return g.mapData fun i v => { v with status := some (statusOf active varying i) }

end FormKernel.Factor
