import FormKernel.Proofs.Decimal.Rounding

/-!
# Numbers and what rounds to them

A decimal value rounds to one double-precision number only: the intervals that round to different
numbers share at most an end, and that belongs to the number with an even mantissa.
-/

namespace FormKernel.Decimal

/-! ## Fields -/

/-- The fields of a finite number that is not zero: the mantissa has its leading bit unless the
    exponent is the least one. -/
structure Binary.IsDouble (b : Binary) : Prop where
  pos : 0 < b.mantissa
  lt : b.mantissa < 2 ^ 53
  least : -1074 ≤ b.exponent
  leading : -1074 < b.exponent → 2 ^ 52 ≤ b.mantissa
  tight : b.tight = true ↔ b.mantissa = 2 ^ 52 ∧ -1074 < b.exponent

/-- What the bits of a number are made of. -/
lemma exists_fields (bits : Nat) (hbits : bits < 2 ^ 64) : ∃ fraction biased sign,
    bits = sign * 2 ^ 63 + biased * 2 ^ 52 + fraction ∧ fraction < 2 ^ 52 ∧
      biased < 2 ^ 11 ∧ sign < 2 ∧
    bits % Nat.pow 2 52 = fraction ∧ bits / Nat.pow 2 52 % Nat.pow 2 11 = biased ∧
    bits / Nat.pow 2 (52 + 11) % 2 = sign := by
  refine ⟨bits % 2 ^ 52, bits / 2 ^ 52 % 2 ^ 11, bits / 2 ^ 63 % 2, ?_, ?_, ?_, ?_, rfl, rfl,
    rfl⟩ <;> omega

lemma decodeFields_cases {bits fraction biased sign : Nat}
    (hfraction : bits % Nat.pow 2 52 = fraction)
    (hbiased : bits / Nat.pow 2 52 % Nat.pow 2 11 = biased)
    (hsign : bits / Nat.pow 2 (52 + 11) % 2 = sign) : decodeFields 52 11 bits =
      if biased = 2047 then if fraction = 0 then .infinite (sign = 1) else .nan
      else if biased = 0 then
        if fraction = 0 then .zero (sign = 1) else .finite (sign = 1) ⟨fraction, -1074, false⟩
      else .finite (sign = 1) ⟨2 ^ 52 + fraction, biased - 1075, fraction = 0 && biased > 1⟩ := by
  subst hfraction hbiased hsign
  rfl

lemma isDouble_of_decode {x : Float} {negative : Bool} {b : Binary}
    (h : decode x = .finite negative b) : b.IsDouble := by
  obtain ⟨fraction, biased, sign, -, hlt, hlt', -, hf, hb, hs⟩ := exists_fields x.toBits.toNat
    x.toBits.toNat_lt
  rw [decode, decodeFields_cases hf hb hs] at h
  split at h
  · split at h <;> cases h
  · split at h
    · split at h
      · cases h
      · cases h
        constructor <;> simp <;> omega
    · cases h
      constructor <;> simp <;> omega

open Float.Model in
/-- There is one number that is none. -/
lemma toBits_of_decode_nan {x : Float} (h : decode x = .nan) : x.toBits = 0x7ff8000000000000 := by
  obtain ⟨fraction, biased, sign, -, -, -, -, hf, hb, hs⟩ := exists_fields x.toBits.toNat
    x.toBits.toNat_lt
  rw [decode, decodeFields_cases hf hb hs] at h
  have hfields : biased = 2047 ∧ fraction ≠ 0 := by
    split at h
    · split at h <;> simp_all
    · split at h
      · split at h <;> cases h
      · cases h
  have hmodel : x.toBits = x.toModel.toBits := rfl
  have hexponent : @UnpackedFloat.unpackExponent Format.binary64 x.toModel.toBits.toBitVec =
      -1#11 := by
    refine BitVec.eq_of_toNat_eq ?_
    simpa [UnpackedFloat.unpackExponent, Nat.shiftRight_eq_div_pow, hmodel] using
      hb.trans hfields.1
  have hmantissa : @UnpackedFloat.unpackMantissa Format.binary64 x.toModel.toBits.toBitVec ≠ 0#52 :=
    by
    intro hzero
    refine hfields.2 (hf.symm.trans ?_)
    simpa [UnpackedFloat.unpackMantissa, hmodel] using congrArg BitVec.toNat hzero
  refine UInt64.eq_of_toBitVec_eq ((x.toModel.valid.eq_packedNaN hexponent hmantissa).trans ?_)
  decide

/-- A number is known from its fields. -/
lemma decode_injective {x y : Float} (h : decode x = decode y) : x = y := by
  suffices hbits : x.toBits = y.toBits by
    obtain ⟨⟨bits, _⟩⟩ := x
    obtain ⟨⟨bits', _⟩⟩ := y
    obtain rfl : bits = bits' := hbits
    rfl
  by_cases hnan : decode y = .nan
  · rw [toBits_of_decode_nan (h.trans hnan), toBits_of_decode_nan hnan]
  obtain ⟨fraction, biased, sign, hbits, hlt, -, hsign, hf, hb, hs⟩ := exists_fields x.toBits.toNat
    x.toBits.toNat_lt
  obtain ⟨fraction', biased', sign', hbits', hlt', -, hsign', hf', hb', hs'⟩ :=
    exists_fields y.toBits.toNat y.toBits.toNat_lt
  rw [decode, decode, decodeFields_cases hf hb hs, decodeFields_cases hf' hb' hs'] at h
  rw [decode, decodeFields_cases hf' hb' hs'] at hnan
  rw [← UInt64.toNat_inj, hbits, hbits']
  have hfields : sign = sign' ∧ biased = biased' ∧ fraction = fraction' := by
    split_ifs at h hnan <;> simp_all <;> omega
  omega

/-! ## Intervals -/

lemma Ratio.le_iff {r r' : Ratio} (hr : 0 < r.den) (hr' : 0 < r'.den) :
    r.le r' = true ↔ r.value ≤ r'.value := by
  have hden : (0 : ℚ) < r.den := by exact_mod_cast hr
  have hden' : (0 : ℚ) < r'.den := by exact_mod_cast hr'
  rw [le, decide_eq_true_eq, value, value, div_le_div_iff₀ hden hden']
  exact_mod_cast Iff.rfl

namespace Binary

variable {b b' : Binary} {q : ℚ}

/-- How far the numbers below that round to a number reach, in units of its last place. -/
def below (b : Binary) : ℚ := if b.tight then 1 / 4 else 1 / 2

lemma value_lower (hb : b.IsDouble) : b.lower.value = (b.mantissa - b.below) * 2 ^ b.exponent := by
  have hpos := hb.pos
  unfold lower below
  split
  · rw [Ratio.value_scale _ (by decide), Ratio.value, Nat.cast_sub (by omega)]
    push_cast
    ring
  · rw [Ratio.value_scale _ (by decide), Ratio.value, Nat.cast_sub (by omega)]
    push_cast
    ring

lemma value_upper (b : Binary) : b.upper.value = (b.mantissa + 1 / 2) * 2 ^ b.exponent := by
  rw [upper, Ratio.value_scale _ (by decide), Ratio.value]
  push_cast
  ring

/-- A value lies in the interval of those that round to a number; the ends belong to it if the
    mantissa is even. -/
structure Rounds (b : Binary) (q : ℚ) : Prop where
  low : (b.mantissa - b.below) * 2 ^ b.exponent ≤ q
  high : q ≤ (b.mantissa + 1 / 2) * 2 ^ b.exponent
  strict : b.mantissa % 2 = 1 →
    (b.mantissa - b.below) * 2 ^ b.exponent < q ∧ q < (b.mantissa + 1 / 2) * 2 ^ b.exponent

lemma rounds_of_holds (hb : b.IsDouble) {r : Ratio} (hr : 0 < r.den) (h : b.holds r = true) :
    b.Rounds r.value := by
  have hlower : 0 < b.lower.den := by
    unfold lower
    split <;> exact Ratio.den_scale_pos (by decide) (Nat.succ_pos _) _
  have hupper : 0 < b.upper.den := Ratio.den_scale_pos (by decide) (Nat.succ_pos _) _
  unfold holds at h
  split at h
  · next heven =>
    rw [Bool.and_eq_true, Ratio.le_iff hlower hr, Ratio.le_iff hr hupper, value_lower hb,
      value_upper] at h
    exact ⟨h.1, h.2, fun hodd => by omega⟩
  · rw [Bool.and_eq_true, Ratio.lt_iff hlower hr, Ratio.lt_iff hr hupper, value_lower hb,
      value_upper] at h
    exact ⟨h.1.le, h.2.le, fun _ => h⟩

lemma IsDouble.eq (hb : b.IsDouble) (hb' : b'.IsDouble) (hm : b.mantissa = b'.mantissa)
    (he : b.exponent = b'.exponent) : b = b' := by
  have htight : b.tight = b'.tight := by
    rw [Bool.eq_iff_iff, hb.tight, hb'.tight, hm, he]
  cases b
  cases b'
  simp_all

lemma below_le (b : Binary) : b.below ≤ 1 / 2 := by
  unfold below
  split <;> norm_num

namespace Rounds

/-- Of two numbers with one exponent at most one is rounded to. -/
lemma mantissa_le (h : b.Rounds q) (h' : b'.Rounds q) (he : b.exponent = b'.exponent) :
    b'.mantissa ≤ b.mantissa := by
  have hu : (0 : ℚ) < 2 ^ b.exponent := by positivity
  have hbelow := b'.below_le
  have hlow' := h'.low
  have hodd' := h'.strict
  rw [← he] at hlow' hodd'
  by_contra hlt
  have hnext : (b.mantissa : ℚ) + 1 ≤ b'.mantissa := by exact_mod_cast Nat.lt_of_not_le hlt
  -- only the end of both intervals is left, and one of them does not contain it
  have hle : (b'.mantissa - b'.below) ≤ (b.mantissa + 1 / 2 : ℚ) :=
    le_of_mul_le_mul_right (hlow'.trans h.high) hu
  have hsucc : (b'.mantissa : ℚ) = b.mantissa + 1 := by linarith
  have hsucc' : b'.mantissa = b.mantissa + 1 := by exact_mod_cast hsucc
  rcases Nat.mod_two_eq_zero_or_one b.mantissa with heven | hodd
  · have hstrict := lt_of_mul_lt_mul_right ((hodd' (by omega)).1.trans_le h.high) hu.le
    linarith
  · have hstrict := lt_of_mul_lt_mul_right (hlow'.trans_lt (h.strict hodd).2) hu.le
    linarith

/-- A value does not round to numbers with different exponents. -/
lemma exponent_le (hb : b.IsDouble) (hb' : b'.IsDouble) (h : b.Rounds q) (h' : b'.Rounds q) :
    b'.exponent ≤ b.exponent := by
  by_contra hlt
  have hlt : b.exponent + 1 ≤ b'.exponent := by omega
  have hu : (0 : ℚ) < 2 ^ b.exponent := by positivity
  have hunit : 2 * (2 : ℚ) ^ b.exponent ≤ 2 ^ b'.exponent := by
    calc 2 * (2 : ℚ) ^ b.exponent = 2 ^ (b.exponent + 1) := by
          rw [zpow_add_one₀ (by norm_num), mul_comm]
      _ ≤ 2 ^ b'.exponent := zpow_le_zpow_right₀ (by norm_num) hlt
  have hleading : 2 ^ 52 ≤ b'.mantissa := hb'.leading (by have := hb.least; omega)
  have hmax : (b.mantissa : ℚ) + 1 ≤ 2 ^ 53 := by exact_mod_cast hb.lt
  have hlow' := h'.low
  by_cases hleast : b'.mantissa = 2 ^ 52
  · -- the least mantissa reaches down to half a unit above the greatest mantissa of the exponent
    -- below
    have hbelow : b'.below = 1 / 4 := if_pos (hb'.tight.2 ⟨hleast, by have := hb.least; omega⟩)
    rw [hbelow, hleast] at hlow'
    push_cast at hlow'
    have hchain : (2 ^ 53 - 1 / 2 : ℚ) * 2 ^ b.exponent ≤ q := by
      calc (2 ^ 53 - 1 / 2 : ℚ) * 2 ^ b.exponent
          = (2 ^ 52 - 1 / 4) * (2 * 2 ^ b.exponent) := by ring
        _ ≤ (2 ^ 52 - 1 / 4) * 2 ^ b'.exponent := mul_le_mul_of_nonneg_left hunit (by norm_num)
        _ ≤ q := hlow'
    have hgreatest : (2 ^ 53 - 1 / 2 : ℚ) ≤ b.mantissa + 1 / 2 :=
      le_of_mul_le_mul_right (hchain.trans h.high) hu
    have hmantissa : b.mantissa + 1 = 2 ^ 53 := by
      have hcast : (b.mantissa : ℚ) + 1 = 2 ^ 53 := by linarith
      exact_mod_cast hcast
    have hstrict := lt_of_mul_lt_mul_right (hchain.trans_lt (h.strict (by omega)).2) hu.le
    linarith
  · have hnext : (2 ^ 52 + 1 : ℚ) ≤ b'.mantissa := by
      exact_mod_cast (by omega : 2 ^ 52 + 1 ≤ b'.mantissa)
    have hbelow := b'.below_le
    have hchain : (2 ^ 53 + 1 : ℚ) * 2 ^ b.exponent ≤ q := by
      calc (2 ^ 53 + 1 : ℚ) * 2 ^ b.exponent = (2 ^ 52 + 1 / 2) * (2 * 2 ^ b.exponent) := by ring
        _ ≤ (b'.mantissa - b'.below) * 2 ^ b'.exponent :=
          mul_le_mul (by linarith) hunit (by positivity) (by linarith)
        _ ≤ q := hlow'
    have := le_of_mul_le_mul_right (hchain.trans h.high) hu
    linarith

lemma unique (hb : b.IsDouble) (hb' : b'.IsDouble) (h : b.Rounds q)
    (h' : b'.Rounds q) : b = b' := by
  have he := le_antisymm (exponent_le hb' hb h' h) (exponent_le hb hb' h h')
  exact hb.eq hb' (le_antisymm (h'.mantissa_le h he.symm) (h.mantissa_le h' he)) he

/-- Nothing that rounds to a number is zero. -/
lemma pos (hb : b.IsDouble) (h : b.Rounds q) : 0 < q := by
  have hbelow := b.below_le
  have hone : (1 : ℚ) ≤ b.mantissa := by exact_mod_cast hb.pos
  have hlow : 0 < ((b.mantissa : ℚ) - b.below) * 2 ^ b.exponent :=
    mul_pos (by linarith) (by positivity)
  exact hlow.trans_le h.low

end Rounds

end Binary

end FormKernel.Decimal
