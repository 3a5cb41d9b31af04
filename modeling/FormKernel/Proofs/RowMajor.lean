import FormKernel.Table.Closeness
import Mathlib.Data.List.Forall2
import Mathlib.Data.List.Nodup
import Mathlib.Tactic.Ring

/-!
# Row-major order

The entries of an array stand in row-major order.  An index within the shape has a position, and
`indicesOf` lists all indices by position.
-/

namespace FormKernel

open Table (indicesOf)
open List

/-! ## Volumes -/

lemma foldl_mul_eq (ds : List Nat) (n : Nat) : ds.foldl (· * ·) n = n * volume ds := by
  induction ds generalizing n with
  | nil => simp [volume]
  | cons d ds ih =>
    rw [volume, foldl_cons, foldl_cons, ih, ih]
    ring

@[simp] lemma volume_nil : volume [] = 1 := rfl

@[simp] lemma volume_cons (d : Nat) (ds : List Nat) : volume (d :: ds) = d * volume ds := by
  rw [volume, foldl_cons, foldl_mul_eq, Nat.one_mul]

variable {ds i s : List Nat}

lemma volume_perm {es : List Nat} (h : ds ~ es) : volume ds = volume es := by
  induction h with
  | nil => rfl
  | cons d _ ih => rw [volume_cons, volume_cons, ih]
  | swap d e ds => simp [Nat.mul_left_comm]
  | trans _ _ ih ih' => rw [ih, ih']

/-! ## Positions -/

/-- An index within a shape: each entry is below the extent of its axis. -/
def Within (shape index : List Nat) : Prop := Forall₂ (· < ·) index shape

@[simp] lemma within_nil {index : List Nat} : Within [] index ↔ index = [] := forall₂_nil_right_iff

@[simp] lemma within_cons {d i : Nat} {is : List Nat} :
    Within (d :: ds) (i :: is) ↔ i < d ∧ Within ds is := forall₂_cons

lemma Within.length_eq {s i : List Nat} (h : Within s i) : i.length = s.length :=
  List.Forall₂.length_eq h

lemma within_append {t j : List Nat} (hi : Within s i) (hj : Within t j) :
    Within (s ++ t) (i ++ j) := rel_append hi hj

namespace Dense

@[simp] lemma position_nil (index : List Nat) : position [] index = 0 := rfl

lemma foldl_position (ps : List (Nat × Nat)) (n : Nat) :
    ps.foldl (fun acc p => acc + p.1 * p.2) n = n + ps.foldl (fun acc p => acc + p.1 * p.2) 0 := by
  induction ps generalizing n with
  | nil => rfl
  | cons p ps ih =>
    rw [foldl_cons, foldl_cons, ih, ih (0 + _)]
    omega

@[simp] lemma position_cons (d i : Nat) (ds is : List Nat) :
    position (d :: ds) (i :: is) = i * volume ds + position ds is := by
  rw [position, strides, zip_cons_cons, foldl_cons, foldl_position, Nat.zero_add,
    Nat.mul_comm, position]

/-- Indices within a shape have positions in an array of that shape, -/
lemma position_lt (h : Within s i) : position s i < volume s := by
  induction s generalizing i with
  | nil => simp
  | cons d s ih =>
    obtain ⟨k, i, hk, hi, rfl⟩ := forall₂_cons_right_iff.1 h
    rw [position_cons, volume_cons]
    calc k * volume s + position s i < k * volume s + volume s := Nat.add_lt_add_left (ih hi) _
      _ = (k + 1) * volume s := by ring
      _ ≤ d * volume s := Nat.mul_le_mul_right _ hk

end Dense

open FormKernel.Dense (position position_cons)

/-! ## All indices -/

@[simp] lemma length_indicesOf (s : List Nat) : (indicesOf s).length = volume s := by
  induction s with
  | nil => rfl
  | cons d s ih => simp [indicesOf, length_flatMap, ih]

/-- Blocks of equal length. -/
lemma getElem?_flatMap {α β : Type} {xs : List α} {f : α → List β} {n : Nat}
    (hf : ∀ x ∈ xs, (f x).length = n) {i j : Nat} (hj : j < n) :
    (xs.flatMap f)[i * n + j]? = (xs[i]?).bind fun x => (f x)[j]? := by
  induction xs generalizing i with
  | nil => simp
  | cons x xs ih =>
    have hx := hf x (by simp)
    rw [flatMap_cons]
    cases i with
    | zero =>
      rw [Nat.zero_mul, Nat.zero_add, getElem?_append_left (by omega)]
      rfl
    | succ i =>
      have hle : (f x).length ≤ (i + 1) * n + j := by rw [hx, Nat.succ_mul]; omega
      have hsub : (i + 1) * n + j - (f x).length = i * n + j := by rw [hx, Nat.succ_mul]; omega
      rw [getElem?_append_right hle, hsub, ih fun y hy => hf y (mem_cons_of_mem _ hy),
        getElem?_cons_succ]

lemma getElem?_indicesOf (h : Within s i) : (indicesOf s)[position s i]? = some i := by
  induction s generalizing i with
  | nil =>
    obtain rfl := within_nil.1 h
    rfl
  | cons d s ih =>
    obtain ⟨k, i, hk, hi, rfl⟩ := forall₂_cons_right_iff.1 h
    rw [position_cons, indicesOf,
      getElem?_flatMap (fun _ _ => by simp) (Dense.position_lt hi), getElem?_range hk]
    simp [ih hi]

/-- and different indices have different ones. -/
lemma Dense.position_inj {j : List Nat} (hi : Within s i) (hj : Within s j)
    (h : position s i = position s j) : i = j :=
  Option.some.inj ((getElem?_indicesOf hi).symm.trans (h ▸ getElem?_indicesOf hj))

lemma within_of_mem (h : i ∈ indicesOf s) : Within s i := by
  induction s generalizing i with
  | nil => simpa [indicesOf] using h
  | cons d s ih =>
    obtain ⟨k, hk, hi⟩ := mem_flatMap.1 h
    obtain ⟨j, hj, rfl⟩ := mem_map.1 hi
    exact within_cons.2 ⟨mem_range.1 hk, ih hj⟩

lemma nodup_indicesOf (s : List Nat) : (indicesOf s).Nodup := by
  induction s with
  | nil => simp [indicesOf]
  | cons d s ih =>
    rw [indicesOf, nodup_flatMap]
    refine ⟨fun k _ => ih.map fun _ _ h => (cons.inj h).2, ?_⟩
    refine List.Pairwise.imp ?_ nodup_range
    intro k l hkl x hx hy
    obtain ⟨i, -, rfl⟩ := mem_map.1 hx
    obtain ⟨j, -, hj⟩ := mem_map.1 hy
    exact hkl (cons.inj hj).1.symm

/-- An index stands at its position. -/
lemma getElem?_indicesOf_iff {p : Nat} : (indicesOf s)[p]? = some i ↔ Within s i ∧
    position s i = p := by
  constructor
  · intro h
    have hi := within_of_mem (mem_of_getElem? h)
    obtain ⟨hp, hpi⟩ := List.getElem?_eq_some_iff.1 h
    obtain ⟨hq, hqi⟩ := List.getElem?_eq_some_iff.1 (getElem?_indicesOf hi)
    exact ⟨hi, (nodup_indicesOf s).getElem_inj_iff.1 (hqi.trans hpi.symm)⟩
  · rintro ⟨hi, rfl⟩
    exact getElem?_indicesOf hi

end FormKernel
