import FormKernel.Proofs.List
import FormKernel.Reference.GeometryTable

/-!
# Tables of reference geometry

A table is declared under the name of its cell and its own: a volume as a variable, and all else as
an array, which has the dimensions of the data that it is taken from.
-/

namespace FormKernel.Reference

open Kernel (DType Stmt)

/-! ## Data of reference cells -/

def GeometryTable.rank : GeometryTable → Nat
  | .facetEdgeVertices | .referenceFacetJacobian => 3
  | .referenceEdgeVectors | .facetReferenceEdgeVectors | .referenceFacetNormals => 2
  | .facetOrientation => 1
  | .referenceCellVolume | .referenceFacetVolume => 0

/-- Data of which every array has the dimensions that it stands for, on cells that have entities of
    every dimension up to their own. -/
structure CellData.Shaped (data : CellData) : Prop where
  topology : ∀ p ∈ data.topology, ∀ entities ∈ p.2, entities ≠ []
  jacobians : ∀ p ∈ data.facetJacobians, p.2.shape.length = 3
  normals : ∀ p ∈ data.facetNormals, p.2.shape.length = 2
  orientations : ∀ p ∈ data.facetOrientations, p.2.shape.length = 1

lemma exists_of_entry {α : Type} {table : List (String × α)} {name : String} {x : α}
    (h : entry table name = .ok x) : ∃ p ∈ table, p.2 = x :=
  exists_mem_of_lookup_eq_some (orMisfit_eq_ok.1 h)

lemma mem_of_item {α : Type} {xs : List α} {i : Int} {x : α} (h : item xs i = .ok x) : x ∈ xs := by
  rw [item] at h
  generalize (if i < 0 then i + (xs.length : Int) else i) = place at h
  split at h
  · cases h
  · exact List.mem_of_getElem? (orMisfit_eq_ok.1 h)

lemma ne_nil_of_mapM {α β : Type} {f : α → Outcome β} {xs : List α} {ys : List β}
    (h : xs.mapM f = .ok ys) (hxs : xs ≠ []) : ys ≠ [] := by
  have hlength := (mapM_eq_ok.1 h).length_eq
  exact List.length_pos_iff.1 (hlength ▸ List.length_pos_iff.2 hxs)

/-- A cell that is known has entities of each dimension. -/
lemma CellData.Shaped.entities {data : CellData} {cell : String} {topology : List (List (List Nat))}
    {i : Int} {entities : List (List Nat)} (hdata : data.Shaped)
    (htopology : entry data.topology cell = .ok topology) (h : item topology i = .ok entities) :
    entities ≠ [] := by
  obtain ⟨p, hp, rfl⟩ := exists_of_entry htopology
  exact hdata.topology p hp entities (mem_of_item h)

/-- A cell that is known has faces, and these have edges. -/
lemma CellData.Shaped.faces {data : CellData} {cell : String}
    {faces : List (List Nat × List (List Nat))}
    (hdata : data.Shaped) (h : facesWithEdges data cell = .ok faces) :
    faces ≠ [] ∧ ∀ face ∈ faces, face.2 ≠ [] := by
  obtain ⟨topology, htopology, t, ht, triangle, htriangle, q, hq, quadrilateral, hquadrilateral,
      h⟩ := bind₅_eq_ok.1 h
  obtain ⟨-, h⟩ := ite_throw_eq_ok h
  obtain ⟨found, hfound, h⟩ := bind_eq_ok.1 h
  refine ⟨ne_nil_of_mapM h (hdata.entities htopology hfound), fun face hface => ?_⟩
  obtain ⟨x, -, hx⟩ := exists_of_mapM h hface
  obtain ⟨edges, hedges, hx⟩ := bind_eq_ok.1 hx
  cases hx
  rw [faceEdges] at hedges
  split at hedges
  · cases hedges
    exact hdata.entities ht htriangle
  · split at hedges
    · cases hedges
      exact hdata.entities hq hquadrilateral
    · cases hedges

lemma length_shape_stackRows {rows : List (List Float)} (h : rows ≠ []) :
    (stackRows rows).shape.length = 2 := by
  cases rows with
  | nil => exact absurd rfl h
  | cons r rows => rfl

/-! ## Declarations -/

/-- The table of a quantity on a cell is a variable or an array of its dimensions. -/
lemma declaration_cases {data : CellData} {table : GeometryTable} {cell : String} {s : Stmt}
    (h : table.declaration data cell = .ok s) :
    (∃ (t : DType) (x : Float), table.rank = 0 ∧
      Stmt.ofVariable ⟨cell ++ "_" ++ table.name, some t⟩ (some (.float x)) = .ok s) ∨
    ∃ (t : DType) (values : Values), (data.Shaped → values.shape.length = table.rank) ∧
      Stmt.ofArray ⟨cell ++ "_" ++ table.name, some t⟩ none (.values values) true = .ok s := by
  rw [GeometryTable.declaration] at h
  dsimp only at h
  split at h
  case' h_1 | h_2 =>
    split at h
    · cases h
  all_goals
    cases table with
    | facetEdgeVertices =>
      obtain ⟨faces, hfaces, vertices, hvertices, h⟩ := bind₂_eq_ok.1 h
      split at h
      · exact .inr ⟨_, _, fun hdata =>
          absurd rfl (ne_nil_of_mapM hvertices (hdata.faces hfaces).1), h⟩
      · split at h
        · cases h
        · exact .inr ⟨_, _, fun _ => rfl, h⟩
    | referenceFacetVolume =>
      obtain ⟨_, -, h⟩ := bind_eq_ok.1 h
      split at h
      · cases h
      · exact .inl ⟨_, _, rfl, (ite_throw_eq_ok h).2⟩
    | referenceCellVolume =>
      obtain ⟨_, -, h⟩ := bind_eq_ok.1 h
      exact .inl ⟨_, _, rfl, h⟩
    | referenceEdgeVectors =>
      obtain ⟨topology, htopology, geometry, -, edges, hedges, vectors, hvectors, h⟩ :=
        bind₄_eq_ok.1 h
      refine .inr ⟨_, _, fun hdata => ?_, h⟩
      exact length_shape_stackRows (ne_nil_of_mapM hvectors (hdata.entities htopology hedges))
    | facetReferenceEdgeVectors =>
      obtain ⟨_, -, _, -, faces, hfaces, vectors, hvectors, h⟩ := bind₄_eq_ok.1 h
      refine .inr ⟨_, _, fun hdata => length_shape_stackRows ?_, h⟩
      -- the edges of all faces stand in one list, so some face has to have an edge
      obtain ⟨hfaces, hedges⟩ := hdata.faces hfaces
      obtain ⟨row, hrow⟩ := List.exists_mem_of_ne_nil _ (ne_nil_of_mapM hvectors hfaces)
      obtain ⟨face, hface, hstep⟩ := exists_of_mapM hvectors hrow
      exact List.flatten_ne_nil_iff.2 ⟨row, hrow, ne_nil_of_mapM hstep (hedges face hface)⟩
    | referenceFacetJacobian =>
      obtain ⟨values, hvalues, h⟩ := bind_eq_ok.1 h
      obtain ⟨p, hp, rfl⟩ := exists_of_entry hvalues
      exact .inr ⟨_, _, fun hdata => hdata.jacobians p hp, h⟩
    | referenceFacetNormals =>
      obtain ⟨values, hvalues, h⟩ := bind_eq_ok.1 h
      obtain ⟨p, hp, rfl⟩ := exists_of_entry hvalues
      exact .inr ⟨_, _, fun hdata => hdata.normals p hp, h⟩
    | facetOrientation =>
      obtain ⟨values, hvalues, h⟩ := bind_eq_ok.1 h
      obtain ⟨p, hp, rfl⟩ := exists_of_entry hvalues
      exact .inr ⟨_, _, fun hdata => hdata.orientations p hp, h⟩

end FormKernel.Reference
