import FormKernel.Integral.Representation
import FormKernel.Json.Access

/-! # Representations as JSON

A view of graphs and of representations of integrals for inspection. -/

namespace FormKernel.Integral

open Factor (FactorVertex)
open Form (Expr)
open FormKernel.Graph (Vertex)
open Json (ofDense ofInts ofNats ofText? ofTexts)

def dumpVertex {α : Type} (g : Graph Nat α) (i : Nat) (e : Expr) (fields : List (String × Json)) :
    Json :=
  .map ([("i", .int i), ("expr", .text e.text)] ++ fields ++
    [("out", ofNats (g.out i)), ("in", ofNats (g.into i))])

def dumpGraph (g : Graph Nat Vertex) : Json :=
  .list (g.nodes.map fun (i, v) => dumpVertex g i v.expr (
    if v.components.isEmpty then []
    else [("target", .bool true), ("component", ofNats v.components)]))

def dumpFactors (g : Graph Nat FactorVertex) : Json :=
  .list (g.nodes.map fun (i, v) => dumpVertex g i v.expr (
    (if v.targets.isEmpty then []
      else [("target", .list (v.targets.map ofNats)), ("component", ofNats v.components)]) ++
    (match v.status with
      | some s => [("status", .text s.name)]
      | none => []) ++
    (match v.table with
      | some t => [("table", .text t.name)]
      | none => [])))

def Block.dump (b : Block) (map : BlockMap) : Json := .list [
  .list (map.map ofInts), ofTexts (b.kinds.map (·.name)),
  .list (b.factors.map fun (f, c) => ofNats [f, c]), .bool b.piecewise, ofTexts b.names,
  .list (b.sides.map fun s => ofText? (s.map (·.sign))), .bool b.uniform, .bool b.permuted,
  ofNats (b.arguments.map (·.place))]

/-- The integrand for a rule, the blocks in the order of their degrees of freedom. -/
def Integrand.dump (i : Integrand) : Outcome Json := do
  let arguments := i.arguments.filterMap fun n => (i.factors.data? n).map (·.expr.text)
  let blocks := i.blocks.mergeSort fun a b => (compare a.1 b.1).isLE
  return .map [("id", .text (← i.rule.name)), ("graph", dumpFactors i.factors),
    ("arguments", ofTexts arguments),
    ("blocks", .list (blocks.flatMap fun (map, bs) => bs.map (Block.dump · map)))]

/-- A representation, the tables in the order of their names. -/
def Representation.dump (r : Representation) : Outcome Json := do
  let sorted {α : Type} (xs : List (String × α)) := xs.mergeSort fun a b => decide (a.1 ≤ b.1)
  return .map [
    ("tables", .list ((sorted r.tables).map fun (n, v) => .list [.text n, ofDense v])),
    ("types", .list ((sorted r.kinds).map fun (n, k) => .list [.text n, ofText? (k.map (·.name))])),
    ("needs_facet_permutations", .bool r.facetPermutations),
    ("rules", .list (← r.integrands.mapM Integrand.dump))]

end FormKernel.Integral
