import Mathlib
import FormKernel.Text.Quoted

/-!
# Reading lists in brackets

A list in round brackets is cut at its commas, so it can be read back if none of its items contains
one.
-/

namespace FormKernel.Text

open List

/-! ## Numbers -/

variable {c : Char} {xs ys : List String}

lemma notMem_toString (hminus : c ≠ '-') (hdigit : c.isDigit = false) (n : Int) :
    c ∉ (toString n).toList := by
  have hdigits : ∀ k : Nat, c ∉ Nat.toDigits 10 k := fun k hk => by
    simpa [hdigit] using Nat.isDigit_of_mem_toDigits (by decide) (by decide) hk
  rw [Int.toString_eq_repr, Int.repr_eq_if]
  split <;> simp [Nat.toList_repr, hdigits, hminus]

lemma toString_injective {m n : Int} (h : (toString m).toList = (toString n).toList) : m = n :=
  Int.repr_injective (String.toList_inj.1 h)

/-! ## Lists -/

/-- The parts of a text in round brackets between its commas. -/
def roundParts : List String → List (List Char)
  | [] => [[]]
  | [x] => [x.toList, []]
  | x :: xs => x.toList :: xs.map (' ' :: ·.toList)

lemma roundParts_injective (h : roundParts xs = roundParts ys) : xs = ys := by
  match xs, ys with
  | [], [] => rfl
  | [], [y] => simp [roundParts] at h
  | [], y :: y' :: ys => simp [roundParts] at h
  | [x], [] => simp [roundParts] at h
  | [x], [y] => simpa [roundParts, String.toList_inj] using h
  | [x], y :: y' :: ys => simp [roundParts] at h
  | x :: x' :: xs, [] => simp [roundParts] at h
  | x :: x' :: xs, [y] => simp [roundParts] at h
  | x :: x' :: xs, y :: y' :: ys =>
    simp only [roundParts, cons.injEq, map_cons, true_and] at h
    obtain ⟨hx, hx', hxs⟩ := h
    have htail : xs = ys := by
      refine map_injective_iff.2 ?_ hxs
      intro a b hab
      simpa [String.toList_inj] using hab
    rw [String.toList_inj.1 hx, String.toList_inj.1 hx', htail]

lemma toList_intercalate_comma (x : String) (xs : List String) :
    (", ".intercalate (x :: xs)).toList =
      [','].intercalate (x.toList :: xs.map (' ' :: ·.toList)) := by
  induction xs generalizing x with
  | nil => simp
  | cons y ys ih =>
    have htail : ∀ cs : List Char, [','].intercalate ((' ' :: cs) :: ys.map (' ' :: ·.toList)) =
        ' ' :: [','].intercalate (cs :: ys.map (' ' :: ·.toList)) := fun cs => by
      cases ys <;> simp [intercalate_cons_cons]
    rw [String.intercalate_cons_cons, String.toList_append, ih, map_cons,
      intercalate_cons_cons, htail]
    simp

/-- A list in round brackets is its parts with commas between them. -/
lemma toList_inRounds (xs : List String) :
    (inRounds xs).toList = '(' :: ([','].intercalate (roundParts xs) ++ [')']) := by
  match xs with
  | [] => rfl
  | [x] => simp [inRounds, roundParts, intercalate_cons_cons]
  | x :: y :: xs =>
    rw [inRounds, String.toList_append, String.toList_append, toList_intercalate_comma]
    · rfl
    · simp

lemma intercalate_roundParts_injective (hxs : ∀ x ∈ xs, ',' ∉ x.toList)
    (hys : ∀ y ∈ ys, ',' ∉ y.toList)
    (h : [','].intercalate (roundParts xs) = [','].intercalate (roundParts ys)) : xs = ys := by
  have hparts : ∀ zs : List String, (∀ z ∈ zs, ',' ∉ z.toList) →
      splitOn ',' ([','].intercalate (roundParts zs)) = roundParts zs := by
    intro zs hzs
    refine splitOn_intercalate ',' ?_ ?_
    · match zs with
      | [] => simp [roundParts]
      | [z] => simpa [roundParts] using hzs
      | z :: z' :: zs => simpa [roundParts] using hzs
    · match zs with
      | [] | [z] | z :: z' :: zs => simp [roundParts]
  exact roundParts_injective (by rw [← hparts xs hxs, h, hparts ys hys])

lemma mem_of_mem_intercalate {sep : Char} {xss : List (List Char)} (h : c ∈ [sep].intercalate xss) :
    c = sep ∨ ∃ xs ∈ xss, c ∈ xs := by
  induction xss with
  | nil => simp at h
  | cons xs xss ih =>
    cases xss with
    | nil => exact .inr ⟨xs, mem_cons_self, by simpa using h⟩
    | cons ys yss =>
      rw [intercalate_cons_cons, mem_append, mem_append] at h
      rcases h with (h | h) | h
      · exact .inr ⟨xs, mem_cons_self, h⟩
      · exact .inl (mem_singleton.1 h)
      · exact (ih h).imp_right fun ⟨zs, hzs, hc⟩ => ⟨zs, mem_cons_of_mem _ hzs, hc⟩

lemma mem_intercalate_roundParts (h : c ∈ [','].intercalate (roundParts xs)) :
    c = ',' ∨ c = ' ' ∨ ∃ x ∈ xs, c ∈ x.toList := by
  refine (mem_of_mem_intercalate h).imp_right fun ⟨part, hpart, hc⟩ => ?_
  match xs with
  | [] => simp_all [roundParts]
  | [x] => simp_all [roundParts]
  | x :: y :: xs => simp [roundParts] at hpart; grind

end FormKernel.Text
