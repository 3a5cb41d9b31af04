import FormKernel.Proofs.Compiler.Tags
import FormKernel.Proofs.Decimal.ArrayText

/-!
# What an expression is known by

A compiled expression is looked up by a text in which its points are written with eight digits after
the point, and only in part if there are many.  The text tells the shape of the points and what is
seen of them.  It tells the points themselves if all are shown and their digits round to them.
-/

namespace FormKernel.Compiler

open Form (Expr)
open Decimal List

variable {e : Expr} {name name' : Option String} {tag : String} {p q : Dense Float}

lemma keyText_expression (e : Expr) (p : Dense Float) (name : Option String) (tag : String) :
    keyText [.expression e p name] tag =
      .ok (digestText (expressionSignature e p) "expression" tag) := by
  have hjoin : String.join [expressionSignature e p] = expressionSignature e p := by
    rw [← String.toList_inj]
    simp
  exact congrArg (fun s => Except.ok (digestText s "expression" tag)) hjoin

/-- The texts of an expression at different points differ exactly where the points are written. -/
lemma keyText_eq_iff : keyText [.expression e p name] tag = keyText [.expression e q name'] tag ↔
    arrayText p = arrayText q := by
  rw [keyText_expression, keyText_expression, Except.ok.injEq]
  constructor
  · intro h
    have hsignature := digestText_left_injective h
    rw [expressionSignature, expressionSignature, ← String.toList_inj, String.toList_append,
      String.toList_append] at hsignature
    exact String.toList_inj.1 (append_cancel_left hsignature)
  · intro h
    rw [expressionSignature, expressionSignature, h]

lemma eq_of_visible (hp : Filled p) (hq : Filled q) (hsmall : p.data.size ≤ 1000)
    (hshape : p.shape = q.shape) (h : visible p = visible q) : p = q := by
  have hall : summarised p = false := by simpa [summarised] using hsmall
  have hall' : summarised q = false := by rw [← summarised_eq hp hq hshape, hall]
  rw [visible, visible, hall, hall'] at h
  cases p
  cases q
  simp_all [Array.toList_inj]

/-- Points under which an expression is looked up by the same text have the same shape, and the same
    is seen of them.  Of more than a thousand entries only the first and last along each axis
    count.  Points that are all shown and legible are told from all others. -/
theorem key_tells_points (hp : Filled p) (hq : Filled q) :
    (keyText [.expression e p name] tag = keyText [.expression e q name'] tag →
      p.shape = q.shape ∧ marks p = marks q) ∧
    (p.shape = q.shape → visible p = visible q →
      keyText [.expression e p name] tag = keyText [.expression e q name'] tag) ∧
    (Legible p → Legible q → p.data.size ≤ 1000 →
      (keyText [.expression e p name] tag = keyText [.expression e q name'] tag ↔ p = q)) := by
  rw [keyText_eq_iff]
  refine ⟨arrayText_tells hp hq, arrayText_eq_of_visible hp hq,
    fun hp' hq' hsmall => ⟨fun h => ?_, ?_⟩⟩
  · obtain ⟨hshape, hmarks⟩ := arrayText_tells hp hq h
    exact eq_of_visible hp hq hsmall hshape (visible_eq_of_marks hp' hq' hmarks)
  · rintro rfl
    rfl

def onePoint (x y : Float) : Dense Float := ⟨[1, 2], #[x, y]⟩

lemma onePoint_injective {x x' y y' : Float} (h : onePoint x y = onePoint x' y') : x = x' ∧
    y = y' := by
  simpa [onePoint] using h

lemma ne_of_toBits {x y : Float} (h : x.toBits ≠ y.toBits) : x ≠ y := fun heq => h (congrArg _ heq)

theorem key_tells_points_onePoint :
    Filled (onePoint 0.25 0.12345678) ∧ Filled (onePoint 0.25 0.12345679) ∧
    keyText [.expression (.terminal .zero) (onePoint 0.25 0.12345678) none] "tag" ≠
      keyText [.expression (.terminal .zero) (onePoint 0.25 0.12345679) none] "tag" := by
  have hp : Filled (onePoint 0.25 0.12345678) := rfl
  have hq : Filled (onePoint 0.25 0.12345679) := rfl
  refine ⟨hp, hq, fun h => ?_⟩
  have heq := ((key_tells_points hp hq).2.2 (by decide +kernel) (by decide +kernel) (by decide)).1 h
  exact ne_of_toBits (by decide +kernel) (onePoint_injective heq).2

/-- An odd number of points on a line, all but the middle one the same. -/
def manyPoints (n : Nat) (x : Float) : Dense Float :=
  ⟨[2 * n + 1, 1], (replicate n 0.5 ++ x :: replicate n 0.5).toArray⟩

lemma filled_manyPoints (n : Nat) (x : Float) : Filled (manyPoints n x) := by
  rw [Filled, manyPoints, size_toArray, length_append, length_cons, length_replicate,
    volume_cons, volume_cons, volume_nil]
  omega

lemma visible_manyPoints {n : Nat} (hn : 500 ≤ n) (x : Float) :
    visible (manyPoints n x) = replicate 6 0.5 := by
  have hlength : (replicate n 0.5 ++ x :: replicate n 0.5).length = 2 * n + 1 := by
    rw [length_append, length_cons, length_replicate]
    omega
  have hmany : summarised (manyPoints n x) = true := by
    rw [summarised, decide_eq_true_eq, manyPoints, size_toArray, hlength]
    omega
  have htake : (replicate n 0.5 ++ x :: replicate n 0.5).take 3 = replicate 3 0.5 := by
    rw [take_append_of_le_length (by rw [length_replicate]; omega), take_replicate]
    congr 1
    omega
  have hdrop : (replicate n 0.5 ++ x :: replicate n 0.5).drop (2 * n + 1 - 3) =
      replicate 3 0.5 := by
    rw [drop_append, drop_eq_nil_of_le (by rw [length_replicate]; omega), nil_append,
      length_replicate, (by omega : 2 * n + 1 - 3 - n = n - 3 + 1), drop_succ_cons,
      drop_replicate]
    congr 1
    omega
  rw [visible, hmany, if_pos rfl, manyPoints, corners_column hlength, ends, hlength,
    if_pos (by omega), htake, hdrop, replicate_append_replicate]

lemma arrayText_manyPoints {n : Nat} (hn : 500 ≤ n) (x y : Float) :
    arrayText (manyPoints n x) = arrayText (manyPoints n y) :=
  arrayText_eq_of_visible (filled_manyPoints n x) (filled_manyPoints n y) rfl
    (by rw [visible_manyPoints hn, visible_manyPoints hn])

/-- Points that differ in the tenth digit are not told apart, nor points in the middle of many. -/
theorem key_repeats :
    onePoint 0.123456789 0.876543211 ≠ onePoint 0.1234567891 0.876543211 ∧
    keyText [.expression (.terminal .zero) (onePoint 0.123456789 0.876543211) none] "tag" =
      keyText [.expression (.terminal .zero) (onePoint 0.1234567891 0.876543211) none] "tag" ∧
    manyPoints 500 0.25 ≠ manyPoints 500 0.75 ∧
    keyText [.expression (.terminal .zero) (manyPoints 500 0.25) none] "tag" =
      keyText [.expression (.terminal .zero) (manyPoints 500 0.75) none] "tag" := by
  rw [keyText_eq_iff, keyText_eq_iff]
  refine ⟨fun h => ?_, by decide +kernel, fun h => ?_, ?_⟩
  · exact ne_of_toBits (by decide +kernel) (onePoint_injective h).1
  · generalize 500 = n at h
    have hmiddle : (0.25 : Float) = 0.75 := by simpa [manyPoints] using h
    exact ne_of_toBits (by decide +kernel) hmiddle
  · exact arrayText_manyPoints (Nat.le_refl 500) 0.25 0.75

end FormKernel.Compiler
