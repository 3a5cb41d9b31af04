import FormKernel.Proofs.Outcome
import FormKernel.Proofs.RowMajor
import FormKernel.Table.Build
import Mathlib.Data.List.ProdSigma

/-!
# Entries of tables

A table has one entry for each permutation of the points, entity, point and degree of freedom.
Slices of a table, the tests on whole tables and the reduction of an axis are described here by
the entries they read, so that nothing else has to look at positions in memory.
-/

namespace FormKernel.Table

open List

/-- A table with the given numbers of permutations, entities, points and degrees of freedom and
    an entry for each of them. -/
structure IsTable (a : Dense Float) (N E P D : Nat) : Prop where
  shape : a.shape = [N, E, P, D]
  filled : a.data.size = volume a.shape

/-- The entry of a table for a permutation, an entity, a point and a degree of freedom. -/
def entry (a : Dense Float) (p e q d : Nat) : Float := (a.get? [p, e, q, d]).getD 0.0

variable {a : Dense Float} {N E P D : Nat} {i : List Nat} {n axis : Nat} {reduced : Bool}

lemma within_four : Within [N, E, P, D] i ↔
    ∃ p e q d, i = [p, e, q, d] ∧ p < N ∧ e < E ∧ q < P ∧ d < D := by
  constructor
  · intro h
    obtain ⟨p, i₁, hp, h₁, rfl⟩ := forall₂_cons_right_iff.1 h
    obtain ⟨e, i₂, he, h₂, rfl⟩ := forall₂_cons_right_iff.1 h₁
    obtain ⟨q, i₃, hq, h₃, rfl⟩ := forall₂_cons_right_iff.1 h₂
    obtain ⟨d, i₄, hd, h₄, rfl⟩ := forall₂_cons_right_iff.1 h₃
    obtain rfl := within_nil.1 h₄
    exact ⟨p, e, q, d, rfl, hp, he, hq, hd⟩
  · rintro ⟨p, e, q, d, rfl, hp, he, hq, hd⟩
    simp [hp, he, hq, hd]

namespace IsTable

/-- Within its shape a table has entries. -/
lemma get?_eq (h : IsTable a N E P D) {p e q d : Nat} (hp : p < N) (he : e < E) (hq : q < P)
    (hd : d < D) : a.get? [p, e, q, d] = some (entry a p e q d) := by
  have hwithin : Within a.shape [p, e, q, d] := by
    rw [h.shape]
    exact within_four.2 ⟨p, e, q, d, rfl, hp, he, hq, hd⟩
  have hlt : Dense.position a.shape [p, e, q, d] < a.data.size := by
    rw [h.filled]
    exact Dense.position_lt hwithin
  rw [entry, Dense.get?, Array.getElem?_eq_getElem hlt, Option.getD_some]

lemma mem_data (h : IsTable a N E P D) {x : Float} : x ∈ a.data ↔
    ∃ p e q d, p < N ∧ e < E ∧ q < P ∧ d < D ∧ entry a p e q d = x := by
  constructor
  · intro hx
    obtain ⟨k, hk, rfl⟩ := Array.mem_iff_getElem.1 hx
    -- the index that stands at position `k`
    have hlt : k < (indicesOf a.shape).length := by
      rwa [length_indicesOf, ← h.filled]
    obtain ⟨hwithin, hpos⟩ := getElem?_indicesOf_iff.1 (getElem?_eq_getElem hlt)
    generalize (indicesOf a.shape)[k] = i at hwithin hpos
    have hwithin' := hwithin
    rw [h.shape] at hwithin'
    obtain ⟨p, e, q, d, rfl, hp, he, hq, hd⟩ := within_four.1 hwithin'
    refine ⟨p, e, q, d, hp, he, hq, hd, ?_⟩
    rw [entry, Dense.get?, hpos, Array.getElem?_eq_getElem hk, Option.getD_some]
  · rintro ⟨p, e, q, d, hp, he, hq, hd, rfl⟩
    exact Array.mem_of_getElem? (h.get?_eq hp he hq hd)

lemma all_data (h : IsTable a N E P D) {f : Float → Bool} : a.data.all f = true ↔
    ∀ p < N, ∀ e < E, ∀ q < P, ∀ d < D, f (entry a p e q d) = true := by
  rw [Array.all_eq_true_iff_forall_mem]
  constructor
  · intro hall p hp e he q hq d hd
    exact hall _ (h.mem_data.2 ⟨p, e, q, d, hp, he, hq, hd, rfl⟩)
  · intro hall x hx
    obtain ⟨p, e, q, d, hp, he, hq, hd, rfl⟩ := h.mem_data.1 hx
    exact hall p hp e he q hq d hd

end IsTable

/-! ## Slices -/

section Slices

variable (hshape : a.shape = [N, E, P, D])

include hshape

variable {p : Nat}

/-- The points and degrees of freedom of an entity. -/
lemma slice_entity {e : Nat} (hp : p < N) (he : e < E) :
    slice a [some p, some e] = .ok ((range P ×ˢ range D).map fun i => entry a p e i.1 i.2) := by
  simp [slice, hshape, hp, he, entry, SProd.sprod, product, bind, Except.bind, pure,
    Except.pure, map_eq_flatMap, flatMap_assoc]

/-- The entities and degrees of freedom of a point. -/
lemma slice_point {q : Nat} (hp : p < N) (hq : q < P) :
    slice a [some p, none, some q] = .ok ((range E ×ˢ range D).map fun i => entry a p i.1 q i.2) :=
  by
  simp [slice, hshape, hp, hq, entry, SProd.sprod, product, bind, Except.bind, pure,
    Except.pure, map_eq_flatMap, flatMap_assoc]

/-- The entities, points and degrees of freedom of a permutation. -/
lemma slice_permutation (hp : p < N) :
    slice a [some p] = .ok ((range E ×ˢ range P ×ˢ range D).map fun i =>
      entry a p i.1 i.2.1 i.2.2) := by
  simp [slice, hshape, hp, entry, SProd.sprod, product, bind, Except.bind, pure,
    Except.pure, map_eq_flatMap, flatMap_assoc]

end Slices

lemma forall_mem_ranges {m : Nat} {p : Nat × Nat → Prop} :
    (∀ i ∈ range m ×ˢ range n, p i) ↔ ∀ x < m, ∀ y < n, p (x, y) := by
  simp only [Prod.forall, mem_product, mem_range]
  exact ⟨fun h x hx y hy => h x y ⟨hx, hy⟩, fun h x y hxy => h x hxy.1 y hxy.2⟩

lemma allClose_map {α : Type} (c : Comparison) (f g : α → Float) (xs : List α) :
    allClose c (xs.map f) (xs.map g) = xs.all fun x => c.close (f x) (g x) := by
  simp [allClose, zip_map', all_map, Function.comp_def]

/-- Slices that can all be taken are compared with the first, entry by entry. -/
lemma sameSlices_eq_ok {α : Type} (c : Comparison) {count : Nat} {part : Nat → Outcome (List Float)}
    {is : List α} {f : Nat → α → Float} (h : ∀ k < count, part k = .ok (is.map (f k))) :
    ∃ b, sameSlices c count part = .ok b ∧
      (b = true ↔ ∀ k < count, 0 < k → ∀ i ∈ is, c.close (f 0 i) (f k i) = true) := by
  let same (k : Nat) : Bool := is.all fun i => c.close (f 0 i) (f (k + 1) i)
  have hgo : ∀ l : List Nat, (∀ k ∈ l, k + 1 < count) →
      sameSlices.go c part l = .ok (l.all same) := by
    intro l
    induction l with
    | nil => exact fun _ => rfl
    | cons k l ih =>
      intro hl
      rw [forall_mem_cons] at hl
      rw [sameSlices.go, h 0 (by omega), h (k + 1) hl.1, all_cons]
      simp only [bind, Except.bind, allClose_map]
      cases hsame : same k with
      | true => simpa [same, hsame] using ih hl.2
      | false =>
        rw [if_neg (by simpa [same] using hsame)]
        rfl
  refine ⟨_, hgo (range (count - 1)) fun k hk => ?_, ?_⟩
  · have := mem_range.1 hk
    omega
  simp only [all_eq_true, mem_range, same]
  constructor
  · intro hall k hk hpos i hi
    have hprev := hall (k - 1) (by omega) i hi
    rwa [Nat.sub_add_cancel hpos] at hprev
  · intro hall k hk i hi
    exact hall (k + 1) (by omega) (by omega) i hi

/-! ## Reduction of an axis -/

/-- The shape that is left when an axis is reduced. -/
def reducedShape (axis : Nat) (shape : List Nat) : List Nat :=
  shape.mapIdx fun i n => if i == axis then min n 1 else n

@[simp] lemma shape_reduceAxis (axis : Nat) (a : Dense Float) :
    (reduceAxis axis a).shape = reducedShape axis a.shape := rfl

lemma size_reduceAxis (axis : Nat) (a : Dense Float) :
    (reduceAxis axis a).data.size = volume (reduceAxis axis a).shape := by
  simp [reduceAxis]

/-- Reducing an axis keeps the entries that are left. -/
lemma get?_reduceAxis {a : Dense Float} (h : Within (reducedShape axis a.shape) i) :
    (reduceAxis axis a).get? i = some ((a.get? i).getD 0.0) := by
  have hindex := getElem?_indicesOf h
  rw [Dense.get?, shape_reduceAxis]
  simp only [reduceAxis, getElem?_toArray, getElem?_map]
  exact (congrArg _ hindex).trans rfl

/-- How many entries are left along an axis. -/
def extentAfter (reduced : Bool) (n : Nat) : Nat := if reduced then min n 1 else n

@[simp] lemma extentAfter_false (n : Nat) : extentAfter false n = n := rfl

lemma extentAfter_le (reduced : Bool) (n : Nat) : extentAfter reduced n ≤ n := by
  unfold extentAfter
  split <;> omega

lemma extentAfter_pos (h : 0 < n) : 0 < extentAfter reduced n := by
  unfold extentAfter
  split <;> omega

/-- The place at which an axis that may be reduced is read lies within what is left. -/
lemma place_lt_extentAfter {i : Nat} (h : i < n) :
    (if reduced then 0 else i) < extentAfter reduced n := by
  unfold extentAfter
  split <;> omega

lemma kept_lt_extentAfter {kept : Bool} {i : Nat} (h : i < n) :
    (if kept then i else 0) < extentAfter (!kept) n := by
  cases kept with
  | true => exact h
  | false => exact extentAfter_pos (by omega)

/-- A table of which some axis may have been reduced. -/
lemma isTable_reduceAxis (axis : Nat) (h : a.shape = [N, E, P, D]) :
    IsTable (reduceAxis axis a) (extentAfter (0 == axis) N) (extentAfter (1 == axis) E)
      (extentAfter (2 == axis) P) (extentAfter (3 == axis) D) where
  shape := by simp [reducedShape, h, extentAfter]
  filled := size_reduceAxis axis a

lemma entry_reduceAxis (h : a.shape = [N, E, P, D]) {p e q d : Nat}
    (hp : p < extentAfter (0 == axis) N)
    (he : e < extentAfter (1 == axis) E) (hq : q < extentAfter (2 == axis) P)
    (hd : d < extentAfter (3 == axis) D) : entry (reduceAxis axis a) p e q d = entry a p e q d := by
  have hwithin : Within (reducedShape axis a.shape) [p, e, q, d] := by
    have hshape := (isTable_reduceAxis axis h).shape
    rw [shape_reduceAxis] at hshape
    rw [hshape]
    exact within_four.2 ⟨p, e, q, d, rfl, hp, he, hq, hd⟩
  rw [entry, get?_reduceAxis hwithin, Option.getD_some, entry]

end FormKernel.Table
