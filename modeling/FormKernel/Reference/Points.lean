import FormKernel.Form.Element
import FormKernel.Form.Measure
import FormKernel.Reference.Basic
import FormKernel.Table.Closeness

/-! # Quadrature points on reference cells

Rules for each kind of integral, the map from facet coordinates to cell coordinates, and the
permutations of points on a facet that is seen from two sides. -/

namespace FormKernel.Reference

open Form (Cell Element IntegralKind)
open Table (isClose pointTolerance)

/-- The points and weights of a scheme on a cell for elements. -/
def quadratureOn (data : CellData) (cell : Cell) (degree : Int) (scheme : String)
    (elements : List Element) : Outcome (Dense Float × Dense Float) :=
  if cell == .vertex then .ok (⟨[1, 0], #[]⟩, ⟨[1], #[1.0]⟩)
  else
    let polyset := elements.foldl (fun p e => max p e.polysetType) 0
    entry data.quadrature s!"{cell.name}:{degree}:{scheme}:{polyset}"

/-- Points and weights of an integral, with the factors of a product rule. -/
structure Scheme where
  points : Option (Dense Float) := none
  weights : Option (Dense Float) := none
  factors : Option (List (Dense Float × Dense Float)) := none

/-- All combinations of one item of each list, the last changing fastest. -/
def combinations {α : Type} : List (List α) → List (List α)
  | [] => [[]]
  | xs :: rest => xs.flatMap fun x => (combinations rest).map (x :: ·)

def productOf : List Float → Float
  | [] => 1.0
  | x :: xs => xs.foldl (· * ·) x

def productScheme (factors : List (Dense Float × Dense Float)) : Scheme :=
  let points := combinations (factors.map fun f => (rowLists f.1).map fun row => row.headD 0.0)
  let weights := combinations (factors.map fun f => f.2.data.toList)
  { points := some (if points.isEmpty then ⟨[0], #[]⟩ else ofRows factors.length points)
    weights := some (Dense.vector (weights.map productOf))
    factors := some factors }

/-- The points and weights for a kind of integral on a cell. -/
def schemeFor (data : CellData) (kind : IntegralKind) (cell : Cell) (degree : Int)
    (scheme : String) (elements : List Element) (product : Bool) : Outcome Scheme := do
  match kind with
  | .cell =>
    if product && (cell == .quadrilateral || cell == .hexahedron) then
      let factors ← (List.range cell.dim).mapM fun _ =>
        quadratureOn data .interval degree scheme elements
      return productScheme factors
    let (points, weights) ← quadratureOn data cell degree scheme elements
    return { points, weights }
  | .exteriorFacet | .interiorFacet =>
    match cell.facetTypes with
    | [facet] =>
      let (points, weights) ← quadratureOn data facet degree scheme elements
      return { points, weights }
    | [] => misfit .outOfRange
    | _ => throw (.mixedFacets cell.name kind.name)
  | .vertex =>
    let (points, weights) ← quadratureOn data .vertex degree scheme elements
    return { points, weights }
  | _ => return {}

/-- `a + b` entry by entry. -/
def addRows (a b : List Float) : List Float := List.zipWith (· + ·) a b

/-- `a - b` entry by entry. -/
def subRows (a b : List Float) : List Float := List.zipWith (· - ·) a b

/-- The point of a facet with the given vertices: the first vertex plus a combination of the
    edges that leave it. -/
def facetPoint (vertices : List (List Float)) (p : List Float) : List Float :=
  match vertices with
  | [] => []
  | v :: rest =>
    let zero := v.map fun _ => (0.0 : Float)
    addRows v ((rest.zip p).foldl (fun acc (w, x) => addRows acc ((subRows w v).map (· * x))) zero)

def mapFacetPoints (data : CellData) (points : Dense Float) (facet : Int) (cell : Cell) :
    Outcome (Dense Float) := do
  let geometry ← entry data.geometry cell.name
  let topology ← entry data.topology cell.name
  let facets ← item topology (-2)
  let numbers ← item facets facet
  let rows := rowLists geometry
  let vertices ← numbers.mapM fun (i : Nat) => item rows i
  let mapped := (rowLists points).map (facetPoint vertices)
  if mapped.isEmpty then return ⟨[0], #[]⟩
  return ofRows cell.dim mapped

/-- Maps the points of an integral to the cell that its entity belongs to. -/
def mapPoints (data : CellData) (points : Dense Float) (kind : IntegralKind) (cell : Cell)
    (entity : Int) : Outcome (Dense Float) := do
  let tdim : Int := cell.dim
  let dim ← kind.entityDim tdim
  let width : Outcome Nat := match points.shape with
    | _ :: w :: _ => .ok w
    | _ => misfit .outOfRange
  if dim == tdim then
    require ((← width) == cell.dim)
    require (entity == 0)
    return points
  else if dim == tdim - 1 then
    require ((← width : Int) == tdim - 1)
    mapFacetPoints data points entity cell
  else if dim == 0 then
    let geometry ← entry data.geometry cell.name
    let row ← item (rowLists geometry) entity
    return ofRows row.length [row]
  else throw (.unmappedEntity dim)

/-- Fails unless the coordinate at a place is missing or close to zero. -/
def requireFlat (place : Nat) (p : List Float) : Outcome Unit :=
  match p[place]? with
  | some x => require (isClose pointTolerance x 0.0)
  | none => .ok ()

/-- Applies a map of points a number of times. -/
def repeated (times : Nat) (f : List Float → Outcome (List Float)) (rows : List (List Float)) :
    Outcome (List (List Float)) :=
  (List.range times).foldlM (fun rows _ => rows.mapM f) rows

/-- Writes coordinates into a row: a single one fills the row. -/
def fillRow (width : Nat) (values : List Float) : Outcome (List Float) :=
  if values.length == width then .ok values
  else match values with
    | [x] => .ok (List.replicate width x)
    | _ => misfit .wrongValue

def pointRows (points : Dense Float) : Outcome (List (List Float)) :=
  match points.shape with
  | [] => misfit .wrongKind
  | [n] => if n == 0 then .ok [] else misfit .wrongKind
  | _ => .ok (rowLists points)

def permuteInterval (points : Dense Float) (reflections : Nat) : Outcome (Dense Float) := do
  let rows ← pointRows points
  for p in rows do
    requireFlat 1 p
    requireFlat 2 p
  let rows ← repeated reflections (fun p => do fillRow p.length [1 - (← item p 0)]) rows
  return ⟨points.shape, rows.flatten.toArray⟩

/-- Turns and mirrors points of a facet of two dimensions. -/
def permuteFace (turned : Float → Float → List Float) (points : Dense Float)
    (reflections rotations : Nat) : Outcome (Dense Float) := do
  let rows ← pointRows points
  for p in rows do requireFlat 2 p
  let rows ← repeated rotations (fun p => do
    let y ← item p 1
    let x ← item p 0
    fillRow p.length (turned x y)) rows
  let rows ← repeated reflections (fun p => do
    fillRow p.length [← item p 1, ← item p 0]) rows
  return ⟨points.shape, rows.flatten.toArray⟩

def permuteTriangle := permuteFace fun x y => [y, 1 - x - y]

def permuteQuadrilateral := permuteFace fun x y => [y, 1 - x]

end FormKernel.Reference
