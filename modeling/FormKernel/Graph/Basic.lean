import FormKernel.Fault

/-! # Directed graphs

A graph with named nodes that carry data.  Edges may be repeated; nodes and edges keep the
order in which they were added. -/

namespace FormKernel

/-- Sets the value of a key, which keeps its place if it is known already. -/
def assign {κ α : Type} [BEq κ] (key : κ) (value : α) : List (κ × α) → List (κ × α)
  | [] => [(key, value)]
  | (k, v) :: rest => if k == key then (k, value) :: rest else (k, v) :: assign key value rest

/-- Changes the value of a known key. -/
def alter {κ α : Type} [BEq κ] (key : κ) (f : α → α) (entries : List (κ × α)) : List (κ × α) :=
  entries.map fun (k, v) => if k == key then (k, f v) else (k, v)

structure Graph (κ α : Type) where
  nodes : List (κ × α) := []
  outEdges : List (κ × List κ) := []
  inEdges : List (κ × List κ) := []
  deriving Inhabited

namespace Graph

variable {κ α : Type} [BEq κ]

def size (g : Graph κ α) : Nat := g.nodes.length

def addNode (g : Graph κ α) (key : κ) (data : α) : Graph κ α where
  nodes := assign key data g.nodes
  outEdges := assign key [] g.outEdges
  inEdges := assign key [] g.inEdges

def has (g : Graph κ α) (key : κ) : Bool := (g.nodes.lookup key).isSome

/-- Adds an edge between known nodes. -/
def addEdge (g : Graph κ α) (a b : κ) : Outcome (Graph κ α) :=
  if g.has a && g.has b then
    .ok { g with
      outEdges := alter a (· ++ [b]) g.outEdges
      inEdges := alter b (· ++ [a]) g.inEdges }
  else .error .unknownNode

/-- The nodes that a node has edges to. -/
def out (g : Graph κ α) (key : κ) : List κ := (g.outEdges.lookup key).getD []

/-- The nodes that have edges to a node. -/
def into (g : Graph κ α) (key : κ) : List κ := (g.inEdges.lookup key).getD []

def data? (g : Graph κ α) (key : κ) : Option α := g.nodes.lookup key

/-- Changes the data of all nodes. -/
def mapData {β : Type} (g : Graph κ α) (f : κ → α → β) : Graph κ β where
  nodes := g.nodes.map fun (k, v) => (k, f k v)
  outEdges := g.outEdges
  inEdges := g.inEdges

end Graph

end FormKernel
