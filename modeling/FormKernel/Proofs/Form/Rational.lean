import FormKernel.Proofs.Factor.Combine
import Mathlib.Algebra.Order.Field.Rat

/-!
# Rational values

Floating-point numbers stand for rational numbers.  With these the operations have an
interpretation in the field of rational numbers.  A builder that simplifies sums and products stands
beside the one that does not.
-/

namespace FormKernel.Form

/-- The value of a floating-point number; infinities and what is no number have none. -/
def floatValue (x : Float) : ℚ :=
  match floatKey x with
  | some (.finite .positive m e _) => m * 2 ^ e
  | some (.finite .negative m e _) => -(m * 2 ^ e)
  | _ => 0

lemma floatValue_congr {x y : Float} (h : (x == y) = true) : floatValue x = floatValue y := by
  obtain ⟨k, hx, hy⟩ := float_beq_iff.1 h
  rw [floatValue, floatValue, hx, hy]

/-- How rational numbers are compared. -/
def compareRat : Operator → ℚ → ℚ → Bool
  | .eq, x, y => x == y
  | .ne, x, y => x != y
  | .lt, x, y => x < y
  | .gt, x, y => y < x
  | .le, x, y => x ≤ y
  | .ge, x, y => y ≤ x
  | _, _, _ => false

/-- The interpretation in the rational numbers.  These are their own conjugates; of functions
    nothing is known, and the imaginary unit is taken for zero. -/
def rational : FieldInterpretation ℚ where
  float := floatValue
  complex a _ := floatValue a
  divide x y := x / y
  call _ xs := xs.headD 0
  compare := compareRat
  float_congr := floatValue_congr
  complex_congr h _ := floatValue_congr h
  complex_real _ := rfl
  float_zero := by decide +kernel
  float_one := by decide +kernel
  float_negOne := by decide +kernel
  conj := RingHom.id ℚ
  divide_eq _ _ := rfl
  call_conj _ := rfl

/-! ## A builder that simplifies -/

def Expr.isZero : Expr → Bool
  | .terminal .zero => true
  | _ => false

def Expr.isOne : Expr → Bool
  | .terminal (.number (.float x)) => x == 1.0
  | _ => false

/-- Zeros are left out of sums, and ones of products; products with zero are zero, and one is its
    own conjugate. -/
abbrev Builder.folding : Builder where
  build
    | .sum, [a, b] => if a.isZero then b else if b.isZero then a else .node .sum [a, b]
    | .product, [a, b] =>
      if a.isZero || b.isZero then .terminal .zero
      else if a.isOne then b
      else if b.isOne then a
      else .node .product [a, b]
    | .conj, [a] => if a.isOne then a else .node .conj [a]
    | op, ops => .node op ops
  balance := id

section Folding

variable {K : Type} [Field K] {I : FieldInterpretation K} {τ : Valuation K} {a b : Expr}

lemma Expr.value_of_isZero (h : a.isZero = true) : a.value I.toInterpretation τ = 0 := by
  unfold isZero at h
  split at h
  · rfl
  · cases h

lemma Expr.value_of_isOne (h : a.isOne = true) : a.value I.toInterpretation τ = 1 := by
  unfold isOne at h
  split at h
  · exact (I.float_congr h).trans I.float_one
  · cases h

namespace Builder

lemma folding_cases (op : Operator) (ops : List Expr) :
    @build folding op ops = .node op ops ∨ @build folding op ops ∈ ops ∨
      @build folding op ops = .terminal .zero := by
  dsimp only [build]
  split
  · split
    · exact .inr (.inl (by simp))
    · split
      · exact .inr (.inl (by simp))
      · exact .inl rfl
  · split
    · exact .inr (.inr rfl)
    · split
      · exact .inr (.inl (by simp))
      · split
        · exact .inr (.inl (by simp))
        · exact .inl rfl
  · split
    · exact .inr (.inl (by simp))
    · exact .inl rfl
  · exact .inl rfl

lemma elementary_folding (op : Operator) : @Elementary folding op := by
  intro ops
  rcases folding_cases op ops with h | h | h
  · exact .inr (.inr ⟨ops, _, _, _, .refl ops, h⟩)
  · exact .inl h
  · exact .inr (.inl ⟨.zero, rfl, rfl, h⟩)

lemma value_folding (op : Operator) (ops : List Expr) :
    (@build folding op ops).value I.toInterpretation τ =
      (Expr.node op ops).value I.toInterpretation τ := by
  dsimp only [build]
  split
  · next a b =>
    have hsum : (Expr.node .sum [a, b]).value I.toInterpretation τ =
      a.value I.toInterpretation τ + b.value I.toInterpretation τ := rfl
    rw [hsum]
    split_ifs with ha hb
    · rw [Expr.value_of_isZero ha, zero_add]
    · rw [Expr.value_of_isZero hb, add_zero]
    · rfl
  · next a b =>
    have hproduct : (Expr.node .product [a, b]).value I.toInterpretation τ =
      a.value I.toInterpretation τ * b.value I.toInterpretation τ := rfl
    rw [hproduct]
    split_ifs with hzero ha hb
    · rcases Bool.or_eq_true_iff.1 hzero with h | h
      · rw [Expr.value_of_isZero h, zero_mul, Expr.value_zero]
      · rw [Expr.value_of_isZero h, mul_zero, Expr.value_zero]
    · rw [Expr.value_of_isOne ha, one_mul]
    · rw [Expr.value_of_isOne hb, mul_one]
    · rfl
  · next a =>
    split_ifs with ha
    · rw [Expr.node, Expr.value_conj, I.call_conj, Expr.value_of_isOne ha, map_one]
    · rfl
  · rfl

lemma sound_folding (op : Operator) : @Sound K folding _ I.toInterpretation τ op := by
  refine @Sound.mk K folding _ _ _ op (value_folding op) fun {ops} hops => ?_
  rcases folding_cases op ops with h | h | h
  · exact h ▸ Expr.argumentNumbers_eq_empty.2 hops
  · exact hops _ h
  · rw [h]
    rfl

end Builder

end Folding

end FormKernel.Form
