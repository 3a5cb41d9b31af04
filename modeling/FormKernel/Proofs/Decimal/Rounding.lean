import FormKernel.Decimal.Digits
import Mathlib.Algebra.Order.Field.Rat
import Mathlib.Algebra.Order.Field.Power
import Mathlib.Algebra.Ring.Parity
import Mathlib.Tactic.FieldSimp
import Mathlib.Tactic.Linarith
import Mathlib.Tactic.NormNum
import Mathlib.Tactic.Ring

/-!
# Rounding to significant digits

The digits chosen for a binary number are those of the nearest number with as many significant
digits, and of the even one where two are equally near.  All is said about exact values.
-/

namespace FormKernel.Decimal

def Ratio.value (r : Ratio) : ℚ := r.num / r.den

def Digits.value (d : Digits) : ℚ := d.coefficient * 10 ^ d.scale

def Binary.value (b : Binary) : ℚ := b.mantissa * 2 ^ b.exponent

/-- A number is the nearest one to another of those with a count of significant digits, with an even
    last digit if two are equally near. -/
def IsRounding (count : Nat) (x q : ℚ) : Prop :=
  ∃ (n : Nat) (k : Int), q = n * 10 ^ k ∧ (10 ^ (k + count - 1) ≤ x ∧ x < 10 ^ (k + count)) ∧
    |x - q| ≤ 10 ^ k / 2 ∧ (|x - q| = 10 ^ k / 2 → Even n)

/-! ## Fractions -/

namespace Ratio

variable {r r' : Ratio} {b : Nat}

lemma den_scale_pos (hb : 0 < b) (hr : 0 < r.den) (e : Int) : 0 < (r.scale b e).den := by
  unfold scale
  split
  · exact hr
  · exact Nat.mul_pos hr (Nat.pow_pos hb)

lemma value_scale (r : Ratio) (hb : 0 < b)
    (e : Int) : (r.scale b e).value = r.value * (b : ℚ) ^ e := by
  have hb' : (b : ℚ) ≠ 0 := by exact_mod_cast hb.ne'
  unfold scale value
  by_cases he : 0 ≤ e
  · obtain ⟨n, rfl⟩ := Int.eq_ofNat_of_zero_le he
    simp only [he, if_true, Int.toNat_natCast, Nat.pow_eq, Nat.cast_mul, Nat.cast_pow, zpow_natCast]
    ring
  · obtain ⟨n, rfl⟩ : ∃ n : Nat, e = -n := ⟨(-e).toNat, by omega⟩
    simp only [he, if_false, neg_neg, Int.toNat_natCast, Nat.pow_eq, Nat.cast_mul, Nat.cast_pow,
      zpow_neg, zpow_natCast]
    field_simp

lemma lt_iff (hr : 0 < r.den) (hr' : 0 < r'.den) : r.lt r' = true ↔ r.value < r'.value := by
  have hden : (0 : ℚ) < r.den := by exact_mod_cast hr
  have hden' : (0 : ℚ) < r'.den := by exact_mod_cast hr'
  rw [lt, decide_eq_true_eq, value, value, div_lt_div_iff₀ hden hden']
  exact_mod_cast Iff.rfl

end Ratio

lemma value_toRatio (b : Binary) : b.toRatio.value = b.value := by
  rw [Binary.toRatio, Ratio.value_scale _ (by decide)]
  simp [Ratio.value, Binary.value]

lemma den_toRatio_pos (b : Binary) : 0 < b.toRatio.den :=
  Ratio.den_scale_pos (by decide) Nat.one_pos _

variable {b : Binary} {n : Nat} {r : Ratio}

lemma num_toRatio_pos (h : 0 < b.mantissa) : 0 < b.toRatio.num := by
  unfold Binary.toRatio Ratio.scale
  split
  · exact Nat.mul_pos h (Nat.pow_pos (by decide))
  · exact h

/-! ## Magnitudes -/

lemma lt_pow_digitCount (n : Nat) : n < 10 ^ digitCount n := by
  have h := Nat.length_toDigits_pos (b := 10) (n := n)
  exact (Nat.length_toDigits_le_iff (by decide) h).1 (Nat.le_refl _)

lemma pow_digitCount_le (hn : 0 < n) : 10 ^ (digitCount n - 1) ≤ n := by
  by_contra hlt
  rw [Nat.not_le] at hlt
  by_cases hone : digitCount n = 1
  · rw [hone] at hlt
    omega
  · have hpos : 0 < digitCount n := Nat.length_toDigits_pos
    have hle :=
      (Nat.length_toDigits_le_iff (b := 10) (by decide) (k := digitCount n - 1) (by omega)).2 hlt
    unfold digitCount at *
    omega

/-- The numbers of digits of numerator and denominator bound a fraction. -/
lemma value_bounds (hnum : 0 < r.num) (hden : 0 < r.den) :
    (10 : ℚ) ^ ((digitCount r.num : Int) - digitCount r.den - 1) ≤ r.value ∧
      r.value < 10 ^ ((digitCount r.num : Int) - digitCount r.den + 1) := by
  have hcount : 0 < digitCount r.num ∧ 0 < digitCount r.den :=
    ⟨Nat.length_toDigits_pos, Nat.length_toDigits_pos⟩
  have hpos : (0 : ℚ) < r.den := by exact_mod_cast hden
  have hnumLow : (10 : ℚ) ^ (digitCount r.num - 1) ≤ r.num := by
    exact_mod_cast pow_digitCount_le hnum
  have hnumHigh : (r.num : ℚ) < 10 ^ digitCount r.num := by exact_mod_cast lt_pow_digitCount r.num
  have hdenLow : (10 : ℚ) ^ (digitCount r.den - 1) ≤ r.den := by
    exact_mod_cast pow_digitCount_le hden
  have hdenHigh : (r.den : ℚ) < 10 ^ digitCount r.den := by exact_mod_cast lt_pow_digitCount r.den
  have hlow : (10 : ℚ) ^ ((digitCount r.num : Int) - digitCount r.den - 1) =
      10 ^ (digitCount r.num - 1) / 10 ^ digitCount r.den := by
    rw [← zpow_natCast, ← zpow_natCast, ← zpow_sub₀ (by norm_num)]
    congr 1
    omega
  have hhigh : (10 : ℚ) ^ ((digitCount r.num : Int) - digitCount r.den + 1) =
      10 ^ digitCount r.num / 10 ^ (digitCount r.den - 1) := by
    rw [← zpow_natCast, ← zpow_natCast, ← zpow_sub₀ (by norm_num)]
    congr 1
    omega
  rw [hlow, hhigh, Ratio.value]
  constructor
  · exact div_le_div₀ (by positivity) hnumLow hpos hdenHigh.le
  · exact div_lt_div₀ hnumHigh hdenLow (by positivity) (by positivity)

lemma lt_scale_iff (hr : 0 < r.den) (k : Int) :
    r.lt (Ratio.scale ⟨1, 1⟩ 10 k) = true ↔ r.value < 10 ^ k := by
  rw [Ratio.lt_iff hr (Ratio.den_scale_pos (by decide) Nat.one_pos k),
    Ratio.value_scale _ (by decide)]
  simp [Ratio.value]

/-- Counting up finds the power of ten above a number. -/
lemma magnitudeFrom_spec (hr : 0 < r.den) {fuel : Nat} {k : Int}
    (hlow : (10 : ℚ) ^ (k - 1) ≤ r.value) (hhigh : r.value < 10 ^ (k + fuel)) :
    10 ^ (Binary.magnitudeFrom r fuel k - 1) ≤ r.value ∧
      r.value < 10 ^ Binary.magnitudeFrom r fuel k := by
  induction fuel generalizing k with
  | zero =>
    rw [Nat.cast_zero, add_zero] at hhigh
    exact ⟨hlow, hhigh⟩
  | succ fuel ih =>
    rw [Binary.magnitudeFrom]
    by_cases hlt : r.value < 10 ^ k
    · rw [if_pos ((lt_scale_iff hr k).2 hlt)]
      exact ⟨hlow, hlt⟩
    · rw [if_neg (fun h => hlt ((lt_scale_iff hr k).1 h))]
      refine ih ?_ ?_
      · rw [add_sub_cancel_right]
        exact not_lt.1 hlt
      · rwa [add_assoc, add_comm 1 (fuel : Int), ← Nat.cast_succ]

lemma magnitude_spec (hnum : 0 < r.num) (hden : 0 < r.den) :
    10 ^ (Binary.magnitude r - 1) ≤ r.value ∧ r.value < 10 ^ Binary.magnitude r := by
  obtain ⟨hlow, hhigh⟩ := value_bounds hnum hden
  have hten : (1 : ℚ) ≤ 10 := by norm_num
  refine magnitudeFrom_spec hden ?_ ?_
  · exact (zpow_le_zpow_right₀ hten (by omega)).trans hlow
  · exact hhigh.trans_le (zpow_le_zpow_right₀ hten (by push_cast; omega))

/-! ## Digits -/

lemma value_dropZeros (fuel : Nat) (d : Digits) : (Digits.dropZeros fuel d).value = d.value := by
  induction fuel generalizing d with
  | zero => rfl
  | succ fuel ih =>
    rw [Digits.dropZeros]
    split
    · next h =>
      rw [ih]
      have hdiv : (d.coefficient : ℚ) = 10 * (d.coefficient / 10 : Nat) := by
        exact_mod_cast (by omega : d.coefficient = 10 * (d.coefficient / 10))
      rw [Digits.value, Digits.value, hdiv, zpow_add_one₀ (by norm_num)]
      ring
    · rfl

lemma value_normalize (d : Digits) : d.normalize.value = d.value := value_dropZeros _ d

/-- The grid point chosen for a fraction is at most half a step away. -/
lemma abs_sub_onGrid (num : Nat) {den : Nat} (hden : 0 < den)
    (hn : n = if 2 * (num % den) > den || (2 * (num % den) = den && num / den % 2 = 1)
      then num / den + 1 else num / den) :
    |(num : ℚ) / den - n| ≤ 1 / 2 ∧ (|(num : ℚ) / den - n| = 1 / 2 → Even n) := by
  have hden' : (0 : ℚ) < den := by exact_mod_cast hden
  obtain ⟨f, hf⟩ : ∃ f : ℚ, f = (num % den : Nat) / den := ⟨_, rfl⟩
  have hsplit : (num : ℚ) / den = (num / den : Nat) + f := by
    rw [hf, eq_comm, ← mul_right_inj' hden'.ne']
    field_simp
    exact_mod_cast Nat.div_add_mod num den
  have hnonneg : 0 ≤ f := by
    rw [hf]
    exact div_nonneg (Nat.cast_nonneg _) hden'.le
  have hlt : f < 1 := by
    rw [hf, div_lt_one₀ hden']
    exact_mod_cast Nat.mod_lt num hden
  have htwice : 2 * f * den = (2 * (num % den) : Nat) := by
    rw [hf]
    field_simp
    push_cast
    ring
  rw [hsplit]
  rcases lt_trichotomy (2 * (num % den)) den with hless | htie | hmore
  · have hhalf : f < 1 / 2 := by
      have hless' : ((2 * (num % den) : Nat) : ℚ) < den := by exact_mod_cast hless
      nlinarith
    have hdown : n = num / den := by
      rw [hn, if_neg (by simp; omega)]
    rw [hdown, add_sub_cancel_left, abs_of_nonneg hnonneg]
    exact ⟨hhalf.le, fun heq => absurd heq hhalf.ne⟩
  · have hhalf : f = 1 / 2 := by
      have htie' : ((2 * (num % den) : Nat) : ℚ) = den := by exact_mod_cast htie
      nlinarith
    -- of two equally near points the even one
    by_cases hodd : num / den % 2 = 1
    · have hup : n = num / den + 1 := by
        rw [hn, if_pos (by simp [htie, hodd])]
      rw [hup, hhalf]
      refine ⟨by push_cast; norm_num [abs_le], fun _ => ?_⟩
      rw [Nat.even_iff]
      omega
    · have hdown : n = num / den := by
        rw [hn, if_neg (by simp [htie, hodd])]
      rw [hdown, add_sub_cancel_left, hhalf]
      refine ⟨by norm_num [abs_le], fun _ => ?_⟩
      rw [Nat.even_iff]
      omega
  · have hhalf : 1 / 2 < f := by
      have hmore' : (den : ℚ) < (2 * (num % den) : Nat) := by exact_mod_cast hmore
      nlinarith
    have hup : n = num / den + 1 := by
      rw [hn, if_pos (by simp [hmore])]
    have habs : |((num / den : Nat) : ℚ) + f - n| = 1 - f := by
      rw [hup, abs_of_nonpos (by push_cast; linarith)]
      push_cast
      ring
    rw [habs]
    exact ⟨by linarith, fun heq => by linarith⟩

lemma isRounding_rounded (hb : 0 < b.mantissa) (count : Nat) :
    IsRounding count b.value (b.rounded count).value := by
  have hden := den_toRatio_pos b
  obtain ⟨hlow, hhigh⟩ := magnitude_spec (num_toRatio_pos hb) hden
  rw [value_toRatio] at hlow hhigh
  generalize hk : Binary.magnitude b.toRatio - count = k
  have hgrid := Ratio.den_scale_pos (b := 10) (by decide) hden (-k)
  have hvalue : ((b.toRatio.scale 10 (-k)).num : ℚ) / (b.toRatio.scale 10 (-k)).den =
      b.value * 10 ^ (-k) := by
    have hscale := Ratio.value_scale b.toRatio (b := 10) (by decide) (-k)
    rw [value_toRatio] at hscale
    exact_mod_cast hscale
  obtain ⟨hnear, htie⟩ := abs_sub_onGrid (b.toRatio.scale 10 (-k)).num hgrid rfl
  generalize hn : (if 2 * ((b.toRatio.scale 10 (-k)).num % (b.toRatio.scale 10 (-k)).den) >
      (b.toRatio.scale 10 (-k)).den || _ then _ else _) = n at hnear htie
  have hrounded : (b.rounded count).value = n * 10 ^ k := by
    rw [Binary.rounded, value_normalize, Digits.value, ← hn, ← hk]
    rfl
  have hpos : (0 : ℚ) < 10 ^ k := by positivity
  have habs : |b.value - n * 10 ^ k| =
      |((b.toRatio.scale 10 (-k)).num : ℚ) / (b.toRatio.scale 10 (-k)).den - n| * 10 ^ k := by
    rw [hvalue, ← abs_of_pos hpos, ← abs_mul, abs_of_pos hpos, sub_mul, mul_assoc,
      ← zpow_add₀ (by norm_num), neg_add_cancel, zpow_zero, mul_one]
  refine ⟨n, k, hrounded, ⟨?_, ?_⟩, ?_, ?_⟩
  · rwa [← hk, sub_add_cancel]
  · rwa [← hk, sub_add_cancel]
  · rw [hrounded, habs]
    calc _ ≤ 1 / 2 * 10 ^ k := mul_le_mul_of_nonneg_right hnear hpos.le
      _ = 10 ^ k / 2 := by ring
  · rw [hrounded, habs]
    intro heq
    refine htie (mul_right_cancel₀ hpos.ne' ?_)
    rw [heq]
    ring

lemma IsRounding.unique {count : Nat} {x q q' : ℚ} (h : IsRounding count x q)
    (h' : IsRounding count x q') : q' = q := by
  obtain ⟨n, k, rfl, ⟨hlow, hhigh⟩, hnear, htie⟩ := h
  obtain ⟨n', k', rfl, ⟨hlow', hhigh'⟩, hnear', htie'⟩ := h'
  have hten : (1 : ℚ) < 10 := by norm_num
  have hle := (zpow_lt_zpow_iff_right₀ hten).1 (hlow.trans_lt hhigh')
  have hge := (zpow_lt_zpow_iff_right₀ hten).1 (hlow'.trans_lt hhigh)
  obtain rfl : k = k' := by omega
  have hpos : (0 : ℚ) < 10 ^ k := by positivity
  have hdist : |(n : ℚ) - n'| * 10 ^ k ≤ |x - n * 10 ^ k| + |x - n' * 10 ^ k| := by
    calc |(n : ℚ) - n'| * 10 ^ k = |(x - n' * 10 ^ k) - (x - n * 10 ^ k)| := by
          rw [← abs_of_pos hpos, ← abs_mul, abs_of_pos hpos]
          congr 1
          ring
      _ ≤ |x - n' * 10 ^ k| + |x - n * 10 ^ k| := abs_sub _ _
      _ = _ := add_comm _ _
  by_cases hn : n = n'
  · rw [hn]
  · -- different points are at least a step apart, so both are half a step away
    exfalso
    have hstep : (1 : ℚ) ≤ |(n : ℚ) - n'| := by
      have hint : (1 : Int) ≤ |(n : Int) - n'| := Int.one_le_abs (by omega)
      exact_mod_cast hint
    have hmul : 1 * 10 ^ k ≤ |(n : ℚ) - n'| * 10 ^ k := mul_le_mul_of_nonneg_right hstep hpos.le
    have hle1 : |(n : ℚ) - n'| * 10 ^ k ≤ 1 * 10 ^ k := by linarith
    have heven := htie (by linarith)
    have heven' := htie' (by linarith)
    have hone : |(n : ℚ) - n'| ≤ 1 := le_of_mul_le_mul_right hle1 hpos
    have hone' : |(n : Int) - n'| ≤ 1 := by exact_mod_cast hone
    rw [Nat.even_iff] at heven heven'
    rw [abs_le] at hone'
    omega

end FormKernel.Decimal
