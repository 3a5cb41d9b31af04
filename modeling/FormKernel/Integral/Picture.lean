import FormKernel.Integral.Representation
import FormKernel.Json.Pretty

/-! # Pictures of graphs

How a graph of subexpressions or factors is to be drawn: boxes for arguments, hexagons for
targets, colours for how often a factor is computed. -/

namespace FormKernel.Integral

open Factor (FactorVertex)
open Form (Expr)
open FormKernel.Graph (Vertex)

structure Sketch where
  number : Int
  expr : Expr
  status : String := ""
  target : Option String := none
  component : Option String := none

def componentText (components : List Nat) : Option String :=
  if components.isEmpty then none else some (Text.inSquares (components.map toString))

def sketchVertex (i : Nat) (v : Vertex) : Sketch where
  number := i
  expr := v.expr
  target := if v.components.isEmpty then none else some "True"
  component := componentText v.components

def sketchFactor (i : Nat) (v : FactorVertex) : Sketch where
  number := i
  expr := v.expr
  status := (v.status.map (·.name)).getD ""
  target := if v.targets.isEmpty then none
    else some (Text.inSquares (v.targets.map fun t => Text.inRounds (t.map toString)))
  component := componentText v.components

def shortText : Expr → String
  | .operator .sum .. => "+"
  | .operator .product .. => "*"
  | .operator .division .. => "/"
  | .terminal (.number (.int n)) => (Form.Number.int n).text
  | .terminal (.number (.float x)) => (Form.Number.float x).text
  | .operator .indexed ops s i d => (Expr.operator .indexed ops s i d).text
  | .operator .referenceValue ops s i d => (Expr.operator .referenceValue ops s i d).text
  | e => e.head.name

def colourOf : String → Option String
  | "piecewise" => some "blue"
  | "varying" => some "red"
  | "inactive" => some "dimgray"
  | _ => none

def Sketch.attributes (s : Sketch) : Outcome (Entries Json) := do
  let shape ← match ← s.expr.modified? with
    | some (.argument ..) => pure [("shape", Json.text "box")]
    | _ => pure []
  let colour : Entries Json := match colourOf s.status with
    | some c => [("color", .text c), ("penwidth", .int 5)]
    | none => []
  let label := s!"[{s.number}] " ++ shortText s.expr ++
    ((s.target.map (":" ++ ·)).getD "") ++ (s.component.map (", comp=" ++ ·)).getD ""
  let start : Entries Json := [("label", .text label)] ++ shape ++ colour
  return if s.target.isSome then start.put "shape" (.text "hexagon") else start

structure Picture where
  file : String
  nodes : List (Json × Entries Json)
  edges : List (Json × Json)

def mostVertices : Nat := 400

/-- The picture of a graph; a graph that is too large has none. -/
def picture (file : String) (nodes : List (Json × Sketch)) (edges : List (Json × List Json)) :
    Outcome (Option Picture) := do
  if nodes.length > mostVertices then return none
  let drawn ← nodes.mapM fun (key, s) => do return (key, ← s.attributes)
  return some { file, nodes := drawn, edges := edges.flatMap fun (a, bs) => bs.map fun b => (a, b) }

/-- The picture of a graph with numbered vertices. -/
def pictureOf {α : Type} (file : String) (sketch : Nat → α → Sketch) (g : Graph Nat α) :
    Outcome (Option Picture) :=
  let number (n : Nat) : Json := .int n
  picture file (g.nodes.map fun (i, v) => (number i, sketch i v))
    (g.outEdges.map fun (a, bs) => (number a, bs.map number))

/-- The pictures of a representation: for each rule the integrand and its factors. -/
def Representation.pictures (r : Representation) : Outcome (List (Option Picture)) := do
  let all ← r.integrands.mapM fun i => do
    return [← pictureOf "S.pdf" sketchVertex i.scalar, ← pictureOf "F.pdf" sketchFactor i.factors]
  return all.flatten

/-- A picture as a list of instructions to a layout program. -/
def Picture.toJson (p : Picture) : Json :=
  let pair (a b : Json) : Json := .list [a, b]
  .map [("file", .text p.file), ("prog", .text "dot"),
    ("options", .list [pair (.text "strict") (.bool false), pair (.text "directed") (.bool true)]),
    ("nodes", .list (p.nodes.map fun (key, attributes) =>
      pair key (.list (attributes.map fun (k, v) => pair (.text k) v)))),
    ("edges", .list (p.edges.map fun (a, b) => pair a b))]

end FormKernel.Integral
