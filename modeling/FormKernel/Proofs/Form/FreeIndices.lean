import FormKernel.Proofs.List
import FormKernel.Proofs.RowMajor
import FormKernel.Form.Modified
import Mathlib.Data.List.Dedup
import Mathlib.Data.List.Sort

/-!
# Free indices

An expression has free indices with ranges, in the order of their numbers.  Once they have values, a
multi-index of free and fixed indices names an entry of a tensor.
-/

namespace FormKernel.Form

open List

/-- Free indices with their ranges. -/
abbrev Free := List (Int × Nat)

namespace Free

/-- Indices in the order of their numbers, if each has only one range. -/
def merge (qs : Free) : Option Free :=
  let free : Free := qs.dedup.insertionSort (Order.Preimage Prod.fst (· ≤ ·))
  if (free.map (·.1)).Nodup then some free else none

/-- Indices in the order of their numbers, each once. -/
def Sorted (free : Free) : Prop := free.Pairwise fun q r => q.1 < r.1

instance : DecidablePred Sorted := fun free => inferInstanceAs (Decidable (free.Pairwise _))

variable {qs free : Free} {q : Int × Nat} {ρ : Int → Nat}

lemma Sorted.nodup_keys (h : Sorted free) : (free.map (·.1)).Nodup :=
  List.Pairwise.map _ (fun _ _ => Int.ne_of_lt) h

lemma sorted_merge (h : merge qs = some free) : Sorted free := by
  obtain ⟨hnodup, h⟩ := Option.ite_none_right_eq_some.1 h
  obtain rfl := Option.some.inj h
  exact (pairwise_insertionSort _ _).imp₂ (fun _ _ => lt_of_le_of_ne) (pairwise_map.1 hnodup)

lemma mem_merge (h : merge qs = some free) : q ∈ free ↔ q ∈ qs := by
  obtain ⟨-, h⟩ := Option.ite_none_right_eq_some.1 h
  rw [← Option.some.inj h, mem_insertionSort, mem_dedup]

/-- Indices that are given in any order and any number of times, each with its one range. -/
lemma merge_eq_some (hfree : Sorted free) (h : ∀ q, q ∈ qs ↔ q ∈ free) : merge qs = some free := by
  have hperm : qs.dedup.Perm free := by
    rw [perm_ext_iff_of_nodup (nodup_dedup qs) hfree.nodup_keys.of_map]
    simpa using h
  have hsort : qs.dedup.insertionSort (Order.Preimage Prod.fst (· ≤ ·)) = free := by
    refine ((perm_insertionSort _ _).trans hperm).eq_of_pairwise (fun q r hq hr hqr hrq => ?_)
      (pairwise_insertionSort _ _) (hfree.imp fun h => h.le)
    exact inj_on_of_nodup_map hfree.nodup_keys (by simpa [h] using hq) hr (le_antisymm hqr hrq)
  unfold merge
  dsimp only
  rw [hsort, if_pos hfree.nodup_keys]

/-- Values of free indices within their ranges. -/
def Bounded (free : Free) (ρ : Int → Nat) : Prop := ∀ q ∈ free, ρ q.1 < q.2

lemma bounded_iff : Bounded free ρ ↔ Within (free.map (·.2)) (free.map fun q => ρ q.1) := by
  rw [Within, forall₂_map_left_iff, forall₂_map_right_iff, forall₂_same]
  rfl

end Free

/-- The number that a fixed index has and that a free index is given. -/
def Index.resolve (ρ : Int → Nat) : Index → Nat
  | .fixed n => n.toNat
  | .free i => ρ i

/-- Gives values to free indices. -/
def bindIndices (is : List Int) (c : List Nat) (ρ : Int → Nat) : Int → Nat :=
  fun i => ((is.zip c).lookup i).getD (ρ i)

namespace Expr

/-- The free indices with their ranges. -/
def free (e : Expr) : Free := e.freeIndices.zip e.indexDims

/-- The range of a free index. -/
def extent (e : Expr) (i : Int) : Nat := (e.free.lookup i).getD 0

/-- The indices of a multi-index that are free, with the extents of their axes. -/
def axes (shape : List Nat) (is : List Index) : Free :=
  (is.zip shape).filterMap fun q =>
    match q.1 with
    | .free i => some (i, q.2)
    | .fixed _ => none

/-- A multi-index has an index for each axis, and its fixed indices lie on the axes. -/
def fits (shape : List Nat) (is : List Index) : Bool :=
  is.length == shape.length && (is.zip shape).all fun q =>
    match q.1 with
    | .free _ => true
    | .fixed n => 0 ≤ n && n < q.2

variable {e : Expr}

/-- The free indices stand in the order of their numbers, each with a range. -/
structure Ranged (e : Expr) : Prop where
  length_eq : e.freeIndices.length = e.indexDims.length
  sorted : e.free.Sorted

namespace Ranged

lemma map_fst_free (h : e.Ranged) : e.free.map (·.1) = e.freeIndices := map_fst_zip h.length_eq.le

lemma map_snd_free (h : e.Ranged) : e.free.map (·.2) = e.indexDims := map_snd_zip h.length_eq.ge

lemma map_freeIndices (h : e.Ranged) (ρ : Int → Nat) :
    e.freeIndices.map ρ = e.free.map fun q => ρ q.1 := by
  rw [← h.map_fst_free, map_map]
  rfl

lemma bounded_iff (h : e.Ranged) {ρ : Int → Nat} :
    e.free.Bounded ρ ↔ Within e.indexDims (e.freeIndices.map ρ) := by
  rw [Free.bounded_iff, h.map_snd_free, h.map_freeIndices]

lemma nodup_freeIndices (h : e.Ranged) : e.freeIndices.Nodup := h.map_fst_free ▸ h.sorted.nodup_keys

end Ranged

end Expr

end FormKernel.Form
