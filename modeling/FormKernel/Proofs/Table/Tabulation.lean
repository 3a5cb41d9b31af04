import FormKernel.Proofs.List
import FormKernel.Proofs.Table.Entries

/-!
# Shapes of tables

Every table that is made for a terminal has an entry for each permutation, entity, point and degree
of freedom: all entities are evaluated at the same number of points, and the parts of a table for
interior facets, one for each way of seeing the points, have one shape.
-/

namespace FormKernel.Table

open Form (Average Cell Element EntityKind IntegralKind)
open Reference (CellData item mapFacetPoints mapPoints ofRows permuteInterval
  permuteFace rowLists)
open List

/-! ## Numbers of points -/

@[simp] lemma length_rowLists (a : Dense Float) : (rowLists a).length = a.shape.headD 0 := by
  rw [rowLists, length_map, Dense.rows]
  split
  · next h => simp [h]
  · next h => simp [h]

/-- The number of points at which an entity is evaluated, for points given by an array of some
    shape: entities that are neither cells nor facets are vertices. -/
def pointCount (shape : List Nat) (dim tdim : Int) : Nat :=
  if dim = tdim ∨ dim = tdim - 1 then shape.headD 0 else 1

variable {cell : Cell} {data : CellData} {points : Dense Float} {kind : IntegralKind} {D P E : Nat}
  {averaged : Option Average} {element : Element} {mapped : Dense Float}
  {tables : List (Dense Float)}
  {weights : Option (List Float)} {component : Int} {entity : EntityKind} {derivatives : List Nat}

lemma length_mapFacetPoints {facet : Int} (h : mapFacetPoints data points facet cell = .ok mapped) :
    (rowLists mapped).length = points.shape.headD 0 := by
  obtain ⟨geometry, -, topology, -, facets, -, numbers, -, vertices, -, h⟩ := bind₅_eq_ok.1 h
  dsimp only at h
  split at h
  · next hempty =>
    rw [← pure_eq_ok.1 h, length_rowLists, ← length_rowLists points]
    simpa using (congrArg length (isEmpty_iff.1 hempty)).symm
  · rw [← pure_eq_ok.1 h, length_rowLists, ofRows]
    simp

lemma length_mapPoints {entity dim : Int} (hdim : kind.entityDim cell.dim = .ok dim)
    (h : mapPoints data points kind cell entity = .ok mapped) :
    (rowLists mapped).length = pointCount points.shape dim cell.dim := by
  obtain ⟨dim', hdim', h⟩ := bind_eq_ok.1 h
  obtain rfl : dim = dim' := Except.ok.inj (hdim.symm.trans hdim')
  dsimp only at h
  rw [pointCount]
  split at h
  · next hcell =>
    obtain ⟨_, -, _, -, _, -, h⟩ := bind₃_eq_ok.1 h
    rw [if_pos (.inl (eq_of_beq hcell)), ← pure_eq_ok.1 h, length_rowLists]
  split at h
  · next hfacet =>
    obtain ⟨_, -, _, -, h⟩ := bind₂_eq_ok.1 h
    rw [if_pos (.inr (eq_of_beq hfacet)), length_mapFacetPoints h]
  split at h
  · next hcell hfacet _ =>
    obtain ⟨_, -, _, -, h⟩ := bind₂_eq_ok.1 h
    have hother : ¬(dim = cell.dim ∨ dim = cell.dim - 1) := by
      rintro (heq | heq)
      · exact hcell (by simp [heq])
      · exact hfacet (by simp [heq])
    rw [if_neg hother, ← pure_eq_ok.1 h, length_rowLists, ofRows]
    rfl
  · cases h

/-! ## The table of a component -/

lemma size_foldl_append {n : Nat} (h : ∀ t ∈ tables, t.data.size = n) (start : Array Float) :
    (tables.foldl (fun out t => out ++ t.data) start).size = start.size + tables.length * n := by
  induction tables generalizing start with
  | nil => simp
  | cons t tables ih =>
    rw [forall_mem_cons] at h
    rw [foldl_cons, ih h.2, Array.size_append, h.1, length_cons, Nat.add_mul, Nat.one_mul,
      Nat.add_assoc, Nat.add_comm n]

/-- An array with a row for each point and a column for each degree of freedom. -/
structure IsMatrix (t : Dense Float) (P D : Nat) : Prop where
  shape : t.shape = [P, D]
  filled : t.data.size = P * D

lemma isMatrix_tabulate (e : Element) (derivatives : List Nat) (points : List (List Float)) :
    IsMatrix (e.tabulate derivatives points) points.length e.basis.length where
  shape := rfl
  filled := by simp [Element.tabulate, length_flatMap]

lemma isMatrix_weightedMean {weights : List Float} {t mean : Dense Float} (ht : IsMatrix t P D)
    (h : weightedMean weights t = .ok mean) : IsMatrix mean 1 D := by
  obtain ⟨means, -, h⟩ := bind_eq_ok.1 h
  dsimp only at h
  obtain ⟨hlength, h⟩ := ite_throw_eq_ok h
  cases h
  have hdofs : t.shape.getLastD 0 = D := by rw [ht.shape]; rfl
  have hmeans : means.length = D := by
    rw [hdofs] at hlength
    simpa using hlength
  exact ⟨by rw [hdofs], by simp [hmeans]⟩

lemma isMatrix_meansOf {means : List (Dense Float)} (htables : ∀ t ∈ tables, IsMatrix t P D)
    (h : meansOf weights tables = .ok means) :
    means.length = tables.length ∧ ∀ t ∈ means, IsMatrix t (if weights.isSome then 1 else P) D := by
  cases weights with
  | none =>
    cases h
    exact ⟨rfl, htables⟩
  | some ws =>
    have hmeans := mapM_eq_ok.1 h
    refine ⟨hmeans.length_eq.symm, fun mean hmem => ?_⟩
    obtain ⟨t, ht, hmean⟩ := exists_of_forall₂_right hmeans hmem
    exact isMatrix_weightedMean (htables t ht) hmean

/-- The extents of the table of a component do not depend on where the points lie. -/
structure Extents (cell : Cell) (kind : IntegralKind) (element : Element)
    (averaged : Option Average) (entity : EntityKind) (component : Int) (shape : List Nat)
    (E P D : Nat) : Prop where
  exists_kind : ∃ kind' dim, pointKind kind averaged entity = .ok kind' ∧
    ((knownAverage averaged).getD kind').entityDim cell.dim = .ok dim ∧
    item cell.entityCounts dim = .ok E ∧
    P = if (knownAverage averaged).isSome then 1 else pointCount shape dim cell.dim
  exists_sub : ∃ sub offset stride, element.component component = .ok (sub, offset, stride) ∧
    D = sub.basis.length

lemma Extents.unique {shape : List Nat} {E' P' D' : Nat}
    (h : Extents cell kind element averaged entity component shape E P D)
    (h' : Extents cell kind element averaged entity component shape E' P' D') : E = E' ∧ P = P' ∧
      D = D' := by
  obtain ⟨⟨kind₁, dim, hkind, hdim, hE, rfl⟩, sub, _, _, hsub, rfl⟩ := h
  obtain ⟨⟨kind₂, dim', hkind', hdim', hE', rfl⟩, sub', _, _, hsub', rfl⟩ := h'
  obtain rfl := Except.ok.inj (hkind.symm.trans hkind')
  obtain rfl := Except.ok.inj (hdim.symm.trans hdim')
  have hsame := Except.ok.inj (hsub.symm.trans hsub')
  rw [Prod.mk.injEq] at hsame
  exact ⟨Except.ok.inj (hE.symm.trans hE'), rfl, by rw [hsame.1]⟩

lemma evaluationPoints_eq_ok {extent : IntegralKind} {sample : Dense Float}
    (h : evaluationPoints kind points element averaged derivatives =
      .ok (extent, sample, weights)) :
    extent = (knownAverage averaged).getD kind ∧
      weights.isSome = (knownAverage averaged).isSome ∧
      (weights.isSome = false → sample = points) := by
  rw [evaluationPoints] at h
  split at h
  · next hknown =>
    obtain ⟨_, -, _, -, h⟩ := bind₂_eq_ok.1 h
    obtain ⟨rfl, rfl, rfl⟩ : _ ∧ _ ∧ _ := by simpa using pure_eq_ok.1 h
    simp [hknown]
  · next hknown =>
    obtain ⟨rfl, rfl, rfl⟩ : _ ∧ _ ∧ _ := by simpa using h
    simp [hknown]

lemma isTable_componentTable {t : ComponentTable}
    (h : componentTable data points (some cell) kind element averaged entity derivatives component =
      .ok t) :
    ∃ E P D, Extents cell kind element averaged entity component points.shape E P D ∧
      IsTable t.values 1 E P D := by
  obtain ⟨kind', hkind, ⟨extent, sample, weights⟩, hpoints, h⟩ := bind₂_eq_ok.1 h
  dsimp only at h
  obtain ⟨dim, hdim, E, hE, ⟨sub, offset, stride⟩, hsub, tables, htables, means, hmeans, h⟩ :=
    bind₅_eq_ok.1 h
  obtain ⟨rfl, hweights, hsample⟩ := evaluationPoints_eq_ok hpoints
  have hall := mapM_eq_ok.1 htables
  have hmatrix : ∀ t ∈ tables, IsMatrix t (pointCount sample.shape dim cell.dim)
      sub.basis.length := by
    intro t ht
    obtain ⟨e, -, he⟩ := exists_of_forall₂_right hall ht
    obtain ⟨mapped, hmapped, he⟩ := bind_eq_ok.1 he
    rw [← pure_eq_ok.1 he, ← length_mapPoints hdim hmapped]
    exact isMatrix_tabulate sub derivatives _
  obtain ⟨hlength, hmatrices⟩ := isMatrix_meansOf hmatrix hmeans
  have hentities : means.length = E := by
    rw [hlength, ← hall.length_eq, length_range]
  -- the points of the integral count only if there is no average
  have hcount : (if weights.isSome then 1 else pointCount sample.shape dim cell.dim) =
      if (knownAverage averaged).isSome then 1 else pointCount points.shape dim cell.dim := by
    rw [← hweights]
    split
    · rfl
    · next hnone => rw [hsample (by simpa using hnone)]
  rw [hcount] at hmatrices
  refine ⟨E, _, sub.basis.length,
    ⟨⟨kind', dim, hkind, hdim, hE, rfl⟩, sub, offset, stride, hsub, rfl⟩, ?_⟩
  cases means with
  | nil => cases h
  | cons first rest =>
    cases h
    have hfirst := hmatrices first mem_cons_self
    refine ⟨by simp only [hfirst.shape], ?_⟩
    rw [size_foldl_append fun t ht => (hmatrices t ht).filled]
    simp [hfirst.shape, hentities]

/-! ## The table of a terminal -/

/-- Tables of one shape, stacked along their permutations. -/
lemma isTable_stack {parts : List ComponentTable} (h : ∀ t ∈ parts, IsTable t.values 1 E P D) :
    IsTable ⟨[parts.foldl (fun n p => n + p.values.shape.headD 0) 0, E, P, D],
      parts.foldl (fun out p => out ++ p.values.data) #[]⟩ parts.length E P D := by
  have hcount : ∀ (ps : List ComponentTable) (n : Nat), (∀ t ∈ ps, IsTable t.values 1 E P D) →
      ps.foldl (fun n p => n + p.values.shape.headD 0) n = n + ps.length := by
    intro ps
    induction ps with
    | nil => exact fun n _ => rfl
    | cons p ps ih =>
      intro n hps
      rw [forall_mem_cons] at hps
      rw [foldl_cons, ih _ hps.2, hps.1.shape, length_cons]
      simp only [headD_cons]
      omega
  have hdata : parts.foldl (fun out p => out ++ p.values.data) #[] =
      (parts.map (·.values)).foldl (fun out t => out ++ t.data) #[] := by
    rw [foldl_map]
  have hsize : ∀ t ∈ parts.map (·.values), t.data.size = E * (P * D) := by
    intro t ht
    obtain ⟨p, hp, rfl⟩ := mem_map.1 ht
    rw [(h p hp).filled, (h p hp).shape]
    simp
  refine ⟨by rw [hcount parts 0 h, Nat.zero_add], ?_⟩
  rw [hdata, size_foldl_append hsize, hcount parts 0 h]
  simp

/-- Seen another way, points are as many as before. -/
lemma shape_of_view {view : Dense Float → Outcome (Dense Float)} {seen : Dense Float}
    (hview : view ∈ facetViews cell) (h : view points = .ok seen) : seen.shape = points.shape := by
  have hinterval : ∀ {n}, permuteInterval points n = .ok seen → seen.shape = points.shape := by
    intro n h
    obtain ⟨_, -, _, -, _, -, h⟩ := bind₃_eq_ok.1 h
    rw [← pure_eq_ok.1 h]
  have hface : ∀ {turned m n}, permuteFace turned points m n = .ok seen →
      seen.shape = points.shape := by
    intro turned m n h
    obtain ⟨_, -, _, -, _, -, _, -, h⟩ := bind₄_eq_ok.1 h
    rw [← pure_eq_ok.1 h]
  cases cell with
  | interval =>
    obtain rfl := mem_singleton.1 hview
    rw [← pure_eq_ok.1 h]
  | triangle | quadrilateral =>
    obtain ⟨n, -, rfl⟩ := mem_map.1 hview
    exact hinterval h
  | tetrahedron | hexahedron =>
    obtain ⟨m, -, hview⟩ := mem_flatMap.1 hview
    obtain ⟨n, -, rfl⟩ := mem_map.1 hview
    exact hface h
  | vertex | prism | pyramid => exact absurd hview not_mem_nil

/-- The table of a terminal.  Only interior facets are seen in several ways. -/
lemma isTable_rawTable {s : Setting} {e : TerminalElement} {raw : ComponentTable}
    (h : rawTable s e = .ok raw) : ∃ N E P D, 0 < N ∧ IsTable raw.values N E P D ∧
      (s.kind ≠ .interiorFacet → N = 1) := by
  rw [rawTable] at h
  cases hcell : s.cell with
  | none => simp [hcell] at h
  | some cell =>
    simp only [hcell] at h
    split at h
    · obtain ⟨E, P, D, -, ht⟩ := isTable_componentTable h
      exact ⟨1, E, P, D, Nat.one_pos, ht, fun _ => rfl⟩
    · next hkind =>
      obtain ⟨parts, hparts, h⟩ := bind_eq_ok.1 h
      have hall := mapM_eq_ok.1 hparts
      have hpart : ∀ t ∈ parts, ∃ E P D, Extents cell s.kind e.element e.averaged s.entity
          e.component s.rule.points.shape E P D ∧ IsTable t.values 1 E P D := by
        intro t ht
        obtain ⟨view, hview, ht⟩ := exists_of_forall₂_right hall ht
        obtain ⟨seen, hseen, ht⟩ := bind_eq_ok.1 ht
        rw [← shape_of_view hview hseen]
        exact isTable_componentTable ht
      cases parts with
      | nil => cases h
      | cons first rest =>
        cases h
        obtain ⟨E, P, D, hextents, hfirst⟩ := hpart first mem_cons_self
        have hsame : ∀ t ∈ first :: rest, IsTable t.values 1 E P D := by
          intro t ht
          obtain ⟨E', P', D', hextents', ht'⟩ := hpart t ht
          obtain ⟨rfl, rfl, rfl⟩ := hextents.unique hextents'
          exact ht'
        have hinterior : s.kind = .interiorFacet := by
          cases hk : s.kind <;> first | rfl | exact absurd (by rw [hk]; rfl) hkind
        refine ⟨(first :: rest).length, E, P, D, by simp, ?_, fun hne => absurd hinterior hne⟩
        have hstack := isTable_stack hsame
        rwa [hfirst.shape]

lemma isTable_clamp {t : Tolerance} {numbers : List Float} {a : Dense Float} {N : Nat}
    (h : IsTable a N E P D) : IsTable (clamp t numbers a) N E P D := by
  rw [clamp]
  induction numbers generalizing a with
  | nil => exact h
  | cons n numbers ih =>
    rw [foldl_cons]
    refine ih ⟨h.shape, ?_⟩
    rw [Dense.map, Array.size_map]
    exact h.filled

end FormKernel.Table
