import FormKernel.Kernel.Construct
import FormKernel.Reference.Points

/-! # Tables of reference geometry

Constants of a reference cell that a kernel may need, as declarations. -/

namespace FormKernel.Reference

open Form (Cell)
open Kernel (Stmt Symbol DType)
open Table (isClose pointTolerance)

inductive GeometryTable where
  | facetEdgeVertices | referenceFacetJacobian | referenceCellVolume | referenceFacetVolume
  | referenceEdgeVectors | facetReferenceEdgeVectors | referenceFacetNormals | facetOrientation
  deriving DecidableEq

namespace GeometryTable

def all : List GeometryTable := [.facetEdgeVertices, .referenceFacetJacobian,
  .referenceCellVolume, .referenceFacetVolume, .referenceEdgeVectors,
  .facetReferenceEdgeVectors, .referenceFacetNormals, .facetOrientation]

def name : GeometryTable → String
  | .facetEdgeVertices => "facet_edge_vertices"
  | .referenceFacetJacobian => "reference_facet_jacobian"
  | .referenceCellVolume => "reference_cell_volume"
  | .referenceFacetVolume => "reference_facet_volume"
  | .referenceEdgeVectors => "reference_edge_vectors"
  | .facetReferenceEdgeVectors => "facet_reference_edge_vectors"
  | .referenceFacetNormals => "reference_facet_normals"
  | .facetOrientation => "facet_orientation"

def ofName (name : String) : Outcome GeometryTable :=
  match all.find? (fun t => t.name == name) with
  | some t => .ok t
  | none => .error (.unknownGeometryTable name)

end GeometryTable

/-- The edges of a face as pairs of places among its vertices. -/
def faceEdges (triangle quadrilateral : List (List Nat)) (face : List Nat) :
    Outcome (List (List Nat)) :=
  if face.length == 3 then .ok triangle
  else if face.length == 4 then .ok quadrilateral
  else .error .oddFaces

def facesWithEdges (data : CellData) (cell : String) :
    Outcome (List (List Nat × List (List Nat))) := do
  let topology ← entry data.topology cell
  let triangle ← item (← entry data.topology "triangle") 1
  let quadrilateral ← item (← entry data.topology "quadrilateral") 1
  if topology.length != 4 then throw .edgesNeedVolume
  let faces ← item topology (-2)
  faces.mapM fun face => return (face, ← faceEdges triangle quadrilateral face)

def edgeEnds : List Nat → Outcome (Nat × Nat)
  | [i, j] => .ok (i, j)
  | _ => misfit .wrongValue

/-- The vector along an edge between two places. -/
def edgeVector (geometry : List (List Float)) (i j : Nat) : Outcome (List Float) := do
  return subRows (← item geometry j) (← item geometry i)

/-- An array of rows of equal length. -/
def stackRows (rows : List (List Float)) : Dense Float :=
  match rows with
  | [] => ⟨[0], #[]⟩
  | r :: _ => ofRows r.length rows

/-- The declaration of a table for a cell, given by name. -/
def GeometryTable.declaration (data : CellData) (table : GeometryTable) (cell : String) :
    Outcome Stmt := do
  match Cell.ofName? cell with
  | none | some .vertex => if cell != "point" then misfit .noMember
  | _ => pure ()
  let symbol (t : DType) : Symbol := ⟨cell ++ "_" ++ table.name, some t⟩
  let array (t : DType) (values : Values) : Outcome Stmt :=
    Stmt.ofArray (symbol t) none (.values values) true
  let reals (values : Dense Float) : Outcome Stmt := array .real (Values.ofFloats values)
  match table with
  | .facetEdgeVertices =>
    let faces ← facesWithEdges data cell
    let vertices ← faces.mapM fun (face, edges) => edges.mapM fun edge =>
      edge.mapM fun (i : Nat) => item face i
    match vertices with
    | [] => array .int ⟨[0], #[]⟩
    | first :: rest =>
      if rest.any (fun v => v.map List.length != first.map List.length) then misfit .wrongValue
      let width := (first.headD []).length
      array .int ⟨[vertices.length, first.length, width],
        (vertices.flatten.flatten.map fun (n : Nat) => Entry.int n).toArray⟩
  | .referenceFacetJacobian => reals (← entry data.facetJacobians cell)
  | .referenceCellVolume =>
    Stmt.ofVariable (symbol .real) (some (.float (← entry data.volume cell)))
  | .referenceFacetVolume =>
    match (← entry data.facetVolumes cell).data.toList with
    | [] => misfit .outOfRange
    | v :: rest =>
      if rest.any (fun w => !isClose pointTolerance w v) then throw .unequalFacets
      Stmt.ofVariable (symbol .real) (some (.float v))
  | .referenceEdgeVectors =>
    let topology ← entry data.topology cell
    let geometry := rowLists (← entry data.geometry cell)
    let vectors ← (← item topology 1).mapM fun edge => do
      let (i, j) ← edgeEnds edge
      edgeVector geometry i j
    reals (stackRows vectors)
  | .facetReferenceEdgeVectors =>
    let _ ← entry data.topology cell
    let geometry := rowLists (← entry data.geometry cell)
    let faces ← facesWithEdges data cell
    let vectors ← faces.mapM fun (face, edges) => edges.mapM fun edge => do
      let (i, j) ← edgeEnds edge
      edgeVector geometry (← item face i) (← item face j)
    reals (stackRows vectors.flatten)
  | .referenceFacetNormals => reals (← entry data.facetNormals cell)
  | .facetOrientation => reals (← entry data.facetOrientations cell)

end FormKernel.Reference
