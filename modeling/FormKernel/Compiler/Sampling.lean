import FormKernel.Compiler.Source
import FormKernel.Json.Access
import FormKernel.Quadrature.Rule
import FormKernel.Reference.Points

/-! # Where integrands are sampled

The points of an integral are those of an element of the integrand that is given by points, those
that are asked for, the vertices of the cell, or those of a scheme that is exact up to a degree. -/

namespace FormKernel.Compiler

open Form (Cell Element Expr IntegralKind)
open Quadrature (Rule)
open Reference (CellData)
open Table (arraysClose pointTolerance)

inductive Sampling where
  | given (points weights : Option (Dense Float))
  | vertices
  | scheme (name : String) (degree : Int)

def isNegative : Json → Outcome Bool
  | .int n => .ok (decide (n < 0))
  | .float x => .ok (x < 0.0)
  | .bool _ => .ok false
  | _ => misfit .wrongKind

/-- The greatest of estimated degrees; a degree that is no whole number makes all such. -/
def greatest (j : Json) : Outcome Json :=
  match j.leaves with
  | [] => misfit .wrongValue
  | x :: xs =>
    let most := xs.foldl (fun m y => if m.toFloat < y.toFloat then y else m) x
    .ok (if (x :: xs).any (fun j => j matches .float _) then .float most.toFloat else most)

/-- A degree that a scheme can be exact for. -/
def degreeOf : Json → Outcome Int
  | .int n => .ok n
  | _ => misfit .noEntry

/-- The points and weights of the elements that are given by points; all have to agree. -/
def pointsOf (elements : List Element) : Outcome (Option (Dense Float × Dense Float)) :=
  match elements.filterMap (·.quadrature) with
  | [] => .ok none
  | first :: rest => do
    for (points, weights) in rest do
      require (← arraysClose pointTolerance points first.1)
      require (← arraysClose pointTolerance weights first.2)
    return some first

def Term.sampling (t : Term) : Outcome Sampling := do
  if let some (points, weights) ← pointsOf t.elements then
    return .given (some points) (some weights)
  let asked := t.metadata.degree.getD (.int (-1))
  let degree ← if ← isNegative asked then
      match t.metadata.estimate with
      | some e => greatest e
      | none => misfit .noEntry
    else pure asked
  match t.metadata.scheme.getD (.text "default") with
  | .text "custom" => return .given t.metadata.points t.metadata.weights
  | .text "vertex" => return .vertices
  | .text name => return .scheme name (← degreeOf degree)
  | other => return .scheme other.literal (← degreeOf degree)

/-- The vertices of a reference cell that have equal weights. -/
def vertexPoints : Cell → Outcome (Nat × List (List Float))
  | .interval => .ok (1, [[0.0], [1.0]])
  | .triangle => .ok (2, [[0.0, 0.0], [1.0, 0.0], [0.0, 1.0]])
  | .quadrilateral => .ok (2, [[0.0, 0.0], [1.0, 0.0], [0.0, 1.0], [1.0, 1.0]])
  | .tetrahedron =>
    .ok (3, [[0.0, 0.0, 0.0], [1.0, 0.0, 0.0], [0.0, 1.0, 0.0], [0.0, 0.0, 1.0]])
  | .hexahedron => .ok (3, [[0.0, 0.0, 0.0], [1.0, 0.0, 0.0], [0.0, 1.0, 0.0], [1.0, 1.0, 0.0],
      [0.0, 0.0, 1.0], [1.0, 0.0, 1.0], [0.0, 1.0, 1.0], [1.0, 1.0, 1.0]])
  | cell => .error (.vertexScheme cell.name)

/-- The weight of a vertex: the volume of the cell over the number of its vertices. -/
def vertexWeight : Cell → Float
  | .tetrahedron => 1.0 / 24.0
  | .triangle => 1.0 / 6.0
  | .quadrilateral => 1.0 / 4.0
  | .hexahedron => 1.0 / 8.0
  | _ => 1.0 / 2.0

/-- The rule that samples the vertices of a cell. -/
def vertexRule (cell : Cell) : Outcome Rule := do
  let (dim, points) ← vertexPoints cell
  return { points := Reference.ofRows dim points
           weights := Dense.vector (points.map fun _ => vertexWeight cell) }

def Sampling.rule (s : Sampling) (data : CellData) (kind : IntegralKind) (cell : Cell)
    (elements : List Element) (product : Bool) : Outcome Rule := do
  match s with
  | .given points weights =>
    let some points := points | misfit .noEntry
    let some weights := weights | misfit .noEntry
    return { points, weights }
  | .vertices =>
    if kind == .cell then vertexRule cell
    else match cell.facetTypes with
      | [facet] => vertexRule facet
      | _ => misfit .unmet
  | .scheme name degree =>
    let scheme ← Reference.schemeFor data kind cell degree name elements product
    match scheme.points, scheme.weights with
    | some points, some weights => return { points, weights, factors := scheme.factors }
    | _, _ => misfit .wrongKind

/-- Adds an integrand to those that are sampled by the same rule. -/
def addIntegrand (groups : List (Rule × List Expr)) (rule : Rule) (e : Expr) :
    Outcome (List (Rule × List Expr)) :=
  match groups with
  | [] => .ok [(rule, [e])]
  | (r, es) :: rest => do
    if r.bytes == rule.bytes then
      if ← r.equal rule then return (r, es ++ [e]) :: rest
    return (r, es) :: (← addIntegrand rest rule e)

def sumOf : List Expr → Expr
  | [] => .terminal .zero
  | e :: es => es.foldl Expr.sum e

/-- The integrands of a group by rule, those of one rule summed. -/
def integrandsByRule (terms : List (Rule × Expr)) : Outcome (List (Rule × Expr)) := do
  let groups ← terms.foldlM (fun groups (rule, e) => addIntegrand groups rule e) []
  return groups.map fun (rule, es) => (rule, sumOf es)

end FormKernel.Compiler
