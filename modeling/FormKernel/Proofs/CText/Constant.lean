import FormKernel.Decimal.Layout
import FormKernel.Proofs.CText.Token
import FormKernel.Proofs.Decimal.Rounding

/-!
# Constants of C

How decimal constants are read, and what is read from the texts of numbers: the value of the digits
that were written, in positional notation as well as with an exponent.
-/

namespace FormKernel.CText

open Decimal List

/-- A constant: a whole number, or the exact value of a text with a point or an exponent. -/
inductive Constant where
  | whole (n : Nat)
  | real (q : ℚ)
  deriving DecidableEq

def digits? (cs : List Char) : Option Nat :=
  if cs ≠ [] ∧ cs.all Char.isDigit then some (Nat.ofDigitChars 10 cs 0) else none

/-- The exponent at the end of a constant, if there is one. -/
def exponent? : List Char → Option Int
  | [] => some 0
  | c :: cs =>
    if c = 'e' ∨ c = 'E' then
      match cs with
      | '+' :: ds => (digits? ds).map fun n => (n : Int)
      | '-' :: ds => (digits? ds).map fun n => -(n : Int)
      | ds => (digits? ds).map fun n => (n : Int)
    else none

/-- The constant of a decimal text without suffix.  A whole number that starts with a zero would not
    be a decimal one. -/
def constant? (s : String) : Option Constant :=
  let whole := s.toList.takeWhile Char.isDigit
  match s.toList.dropWhile Char.isDigit with
  | [] => if whole.head? = some '0' ∧ whole ≠ ['0'] then none else (digits? whole).map .whole
  | '.' :: cs =>
    let fraction := cs.takeWhile Char.isDigit
    (exponent? (cs.dropWhile Char.isDigit)).bind fun e =>
      (digits? (whole ++ fraction)).map fun n : Nat => .real (n * 10 ^ (e - fraction.length))
  | cs => (exponent? cs).bind fun e => (digits? whole).map fun n : Nat => .real (n * 10 ^ e)

/-! ## Digits -/

def AllDigits (cs : List Char) : Prop := ∀ c ∈ cs, c.isDigit = true

variable {cs ws es : List Char} {e : Int}

lemma AllDigits.append {ds : List Char} (hcs : AllDigits cs) (hds : AllDigits ds) :
    AllDigits (cs ++ ds) := by
  intro c hc
  exact (mem_append.1 hc).elim (hcs c) (hds c)

lemma AllDigits.take {cs : List Char} (h : AllDigits cs) (n : Nat) : AllDigits (cs.take n) :=
  fun c hc => h c (mem_of_mem_take hc)

lemma AllDigits.drop {cs : List Char} (h : AllDigits cs) (n : Nat) : AllDigits (cs.drop n) :=
  fun c hc => h c (mem_of_mem_drop hc)

lemma allDigits_toDigits (n : Nat) : AllDigits (Nat.toDigits 10 n) :=
  fun _ hc => Nat.isDigit_of_mem_toDigits (by decide) (by decide) hc

lemma allDigits_zeros (n : Nat) : AllDigits (replicate n '0') := by
  intro c hc
  rw [eq_of_mem_replicate hc]
  decide

lemma digits?_eq_some (hne : cs ≠ []) (h : AllDigits cs) :
    digits? cs = some (Nat.ofDigitChars 10 cs 0) :=
  if_pos ⟨hne, all_eq_true.2 h⟩

/-- Characters that do not start with a digit. -/
def StartsPlain (cs : List Char) : Prop := ∀ c ∈ cs.head?, c.isDigit = false

lemma takeWhile_digits (hws : AllDigits ws) (hcs : StartsPlain cs) :
    (ws ++ cs).takeWhile Char.isDigit = ws ∧ (ws ++ cs).dropWhile Char.isDigit = cs := by
  rw [takeWhile_append_of_pos hws, dropWhile_append_of_pos hws]
  cases cs with
  | nil => simp
  | cons c cs =>
    have hc : c.isDigit = false := hcs c (by simp)
    simp [hc]

/-! ## Texts of numbers -/

/-- A text that is a token and is read as a number. -/
structure IsNumeral (cs : List Char) (q : ℚ) : Prop where
  constant : constant? (String.ofList cs) = some (.real q)
  number : ∃ c ds, cs = c :: ds ∧ c.isDigit ∧ isNumberTail c ds
  last : ∀ c ∈ cs.getLast?, c.isDigit = true

lemma IsNumeral.congr {ds : List Char} {q r : ℚ} (h : IsNumeral cs q) (hcs : ds = cs) (hq : r = q) :
    IsNumeral ds r := hcs ▸ hq ▸ h

inductive IsExponent : List Char → Int → Prop
  | none : IsExponent [] 0
  | plus {ds} : ds ≠ [] → AllDigits ds → IsExponent ('e' :: '+' :: ds)
    (Nat.ofDigitChars 10 ds 0 : Nat)
  | minus {ds} : ds ≠ [] → AllDigits ds → IsExponent ('e' :: '-' :: ds)
    (-(Nat.ofDigitChars 10 ds 0 : Nat))

/-- Digits and points continue a number. -/
lemma isNumberTail_append (hws : ∀ c ∈ ws, c.isDigit = true ∨ c = '.')
    (hcs : ∀ a, isNumberTail a cs) (a : Char) : isNumberTail a (ws ++ cs) := by
  induction ws generalizing a with
  | nil => exact hcs a
  | cons c ws ih =>
    rw [forall_mem_cons] at hws
    rw [cons_append, isNumberTail, Bool.and_eq_true]
    refine ⟨?_, ih hws.2 c⟩
    rcases hws.1 with hdigit | rfl
    · simp [continuesNumber, isWordChar_of_isDigit hdigit]
    · simp [continuesNumber]

lemma AllDigits.isNumberTail {cs : List Char} (h : AllDigits cs)
    (a : Char) : isNumberTail a cs := by
  rw [← append_nil cs]
  exact isNumberTail_append (fun c hc => .inl (h c hc)) (fun _ => rfl) a

def EndsInDigit (cs : List Char) : Prop := ∀ c ∈ cs.getLast?, c.isDigit = true

lemma AllDigits.endsInDigit (h : AllDigits cs) : EndsInDigit cs :=
  fun c hc => h c (mem_of_getLast? hc)

lemma EndsInDigit.append (h : EndsInDigit cs) (hne : cs ≠ []) (ws : List Char) :
    EndsInDigit (ws ++ cs) := by
  intro c hc
  rw [getLast?_append_of_ne_nil ws hne] at hc
  exact h c hc

namespace IsExponent

lemma exponent?_eq (h : IsExponent es e) : exponent? es = some e := by
  cases h with
  | none => rfl
  | plus hne hds | minus hne hds => simp [exponent?, digits?_eq_some hne hds]

lemma startsPlain (h : IsExponent es e) : StartsPlain es := by
  cases h <;> simp [StartsPlain]

lemma isNumberTail (h : IsExponent es e) (a : Char) : isNumberTail a es := by
  cases h with
  | none => rfl
  | plus hne hds | minus hne hds =>
    simp [CText.isNumberTail, continuesNumber, isWordChar, hds.isNumberTail]

lemma endsInDigit (h : IsExponent es e) : EndsInDigit es := by
  cases h with
  | none => simp [EndsInDigit]
  | plus hne hds => exact hds.endsInDigit.append hne ['e', '+']
  | minus hne hds => exact hds.endsInDigit.append hne ['e', '-']

end IsExponent

/-- Digits, a point, perhaps more digits and perhaps an exponent. -/
lemma constant?_point {fs : List Char} (hws : AllDigits ws) (hws' : ws ≠ []) (hfs : AllDigits fs)
    (hes : IsExponent es e) :
    constant? (String.ofList (ws ++ '.' :: (fs ++ es))) =
      some (.real ((Nat.ofDigitChars 10 (ws ++ fs) 0 : Nat) * 10 ^ (e - fs.length))) := by
  have hpoint : StartsPlain ('.' :: (fs ++ es)) := by simp [StartsPlain]
  obtain ⟨htake, hdrop⟩ := takeWhile_digits hws hpoint
  obtain ⟨htake', hdrop'⟩ := takeWhile_digits hfs hes.startsPlain
  have hdigits := digits?_eq_some (append_ne_nil_of_left_ne_nil hws' fs) (hws.append hfs)
  simp only [constant?, String.toList_ofList, htake, hdrop, htake', hdrop',
    hes.exponent?_eq, hdigits, Option.bind_some, Option.map_some]

/-- Digits, a point, digits and perhaps an exponent. -/
lemma isNumeral_point {fs : List Char} (hws : AllDigits ws) (hws' : ws ≠ []) (hfs : AllDigits fs)
    (hfs' : fs ≠ []) (hes : IsExponent es e) :
    IsNumeral (ws ++ '.' :: (fs ++ es))
      ((Nat.ofDigitChars 10 (ws ++ fs) 0 : Nat) * 10 ^ (e - fs.length)) where
  constant := constant?_point hws hws' hfs hes
  number := by
    obtain ⟨c, ds, rfl⟩ := exists_cons_of_ne_nil hws'
    refine ⟨c, ds ++ '.' :: (fs ++ es), by simp, hws c (by simp), ?_⟩
    have hplain : ∀ d ∈ ds ++ '.' :: fs, d.isDigit = true ∨ d = '.' := by
      intro d hd
      rcases mem_append.1 hd with hd | hd
      · exact .inl (hws d (mem_cons_of_mem c hd))
      · exact (mem_cons.1 hd).symm.imp_left (hfs d)
    have htail := isNumberTail_append hplain hes.isNumberTail c
    simpa using htail
  last := by
    have hend : EndsInDigit (fs ++ es) := by
      by_cases hnil : es = []
      · simpa [hnil] using hfs.endsInDigit
      · exact hes.endsInDigit.append hnil fs
    have happend := hend.append (by simp [hfs']) (ws ++ ['.'])
    simpa [EndsInDigit] using happend

lemma isNumeral_exponent (hws : AllDigits ws) (hws' : ws ≠ []) (hes : IsExponent es e)
    (hes' : es ≠ []) : IsNumeral (ws ++ es) ((Nat.ofDigitChars 10 ws 0 : Nat) * 10 ^ e) where
  constant := by
    obtain ⟨htake, hdrop⟩ := takeWhile_digits hws hes.startsPlain
    have hdigits := digits?_eq_some hws' hws
    have hexp := hes.exponent?_eq
    unfold constant?
    simp only [String.toList_ofList, htake, hdrop]
    cases hes with
    | none => exact absurd rfl hes'
    | plus | minus => simp [hexp, hdigits]
  number := by
    obtain ⟨c, ds, rfl⟩ := exists_cons_of_ne_nil hws'
    exact ⟨c, ds ++ es, rfl, hws c (by simp),
      isNumberTail_append (fun d hd => .inl (hws d (mem_cons_of_mem c hd))) hes.isNumberTail c⟩
  last := hes.endsInDigit.append hes' ws

/-! ## Layouts -/

lemma toList_toString (n : Nat) : (toString n).toList = Nat.toDigits 10 n := by
  rw [Nat.toString_eq_ofList_toDigits, String.toList_ofList]

lemma ofDigitChars_append_zero (ws fs : List Char) :
    Nat.ofDigitChars 10 (ws ++ fs) 0 =
      10 ^ fs.length * Nat.ofDigitChars 10 ws 0 + Nat.ofDigitChars 10 fs 0 := by
  rw [Nat.ofDigitChars_append, Nat.ofDigitChars_eq_ofDigitChars_zero]

lemma toList_zeros (n : Nat) : (zeros n).toList = replicate n '0' := String.toList_ofList

lemma digits_exponentText (n : Nat) :
    ∃ ds, (if (toString n).length < 2 then "0" ++ toString n else toString n).toList = ds ∧
      ds ≠ [] ∧ AllDigits ds ∧ Nat.ofDigitChars 10 ds 0 = n := by
  refine ⟨_, rfl, ?_⟩
  split
  · rw [String.toList_append, toList_toString]
    refine ⟨by simp, (allDigits_zeros 1).append (allDigits_toDigits n), ?_⟩
    rw [ofDigitChars_append_zero, Nat.ofDigitChars_ten_toDigits]
    simp [Nat.ofDigitChars]
  · rw [toList_toString]
    exact ⟨Nat.toDigits_ne_nil, allDigits_toDigits n, Nat.ofDigitChars_ten_toDigits⟩

lemma isExponent_exponentText (e : Int) :
    IsExponent (exponentText e).toList e ∧ (exponentText e).toList ≠ [] := by
  obtain ⟨ds, hds, hne, hdigits, hvalue⟩ := digits_exponentText e.natAbs
  unfold exponentText
  rw [String.toList_append, hds]
  by_cases he : e < 0
  · have hsign : e = -(Nat.ofDigitChars 10 ds 0 : Nat) := by omega
    rw [if_pos he, hsign]
    exact ⟨.minus hne hdigits, by simp⟩
  · have hsign : e = (Nat.ofDigitChars 10 ds 0 : Nat) := by omega
    rw [if_neg he, hsign]
    exact ⟨.plus hne hdigits, by simp⟩

lemma length_toDigits (n : Nat) : (Nat.toDigits 10 n).length = (toString n).length := by
  rw [← toList_toString, String.length_toList]

lemma ofDigitChars_zeros (k n : Nat) :
    Nat.ofDigitChars 10 (replicate 1 '0' ++ (replicate k '0' ++ Nat.toDigits 10 n)) 0 = n := by
  rw [Nat.ofDigitChars_append, Nat.ofDigitChars_append, Nat.ofDigitChars_replicate_zero,
    Nat.ofDigitChars_replicate_zero, mul_zero, mul_zero, Nat.ofDigitChars_ten_toDigits]

lemma isNumeral_positional (d : Digits) : IsNumeral (d.positional true).toList d.value := by
  have hdigits := allDigits_toDigits d.coefficient
  have hlength := length_toDigits d.coefficient
  unfold Digits.positional
  by_cases hscale : 0 ≤ d.scale
  · -- a whole number, with a point and a zero behind its digits
    obtain ⟨n, hn⟩ := Int.eq_ofNat_of_zero_le hscale
    have hnumeral := isNumeral_point (hdigits.append (allDigits_zeros n))
      (append_ne_nil_of_left_ne_nil Nat.toDigits_ne_nil _) (allDigits_zeros 1) (by simp) .none
    have hvalue : Nat.ofDigitChars 10
        (Nat.toDigits 10 d.coefficient ++ replicate n '0' ++ replicate 1 '0') 0 =
        10 * (10 ^ n * d.coefficient) := by
      rw [Nat.ofDigitChars_append, Nat.ofDigitChars_append, Nat.ofDigitChars_ten_toDigits,
        Nat.ofDigitChars_replicate_zero, Nat.ofDigitChars_replicate_zero, pow_one]
    refine hnumeral.congr ?_ ?_
    · rw [if_pos hscale, hn]
      simp [toList_zeros]
    · rw [hvalue, Digits.value, hn]
      simp only [length_replicate, Nat.cast_mul, Nat.cast_pow, Nat.cast_ofNat, zpow_natCast,
        Nat.cast_one, zero_sub, zpow_neg_one]
      field_simp
  · rw [if_neg hscale]
    obtain ⟨n, hn⟩ : ∃ n : Nat, d.scale = -n := ⟨(-d.scale).toNat, by omega⟩
    simp only [hn, neg_neg, Int.toNat_natCast]
    by_cases hplaces : n < (toString d.coefficient).length
    · -- the point stands between digits
      rw [if_pos hplaces]
      have hcut := length_drop (i := (toString d.coefficient).length - n)
        (l := Nat.toDigits 10 d.coefficient)
      have hnumeral := isNumeral_point (hdigits.take ((toString d.coefficient).length - n))
        (ne_nil_of_length_pos (by rw [length_take]; omega))
        (hdigits.drop ((toString d.coefficient).length - n))
        (ne_nil_of_length_pos (by omega)) .none
      refine hnumeral.congr (by simp) ?_
      rw [take_append_drop, Nat.ofDigitChars_ten_toDigits, Digits.value, hn]
      congr 2
      omega
    · -- zeros stand between the point and the digits
      rw [if_neg hplaces]
      have hfraction := (allDigits_zeros (n - (toString d.coefficient).length)).append hdigits
      have hnumeral := isNumeral_point (allDigits_zeros 1) (by simp) hfraction
        (append_ne_nil_of_right_ne_nil _ Nat.toDigits_ne_nil) .none
      refine hnumeral.congr (by simp [toList_zeros]) ?_
      rw [ofDigitChars_zeros, Digits.value, hn]
      congr 2
      rw [length_append, length_replicate]
      omega

lemma isNumeral_scientific (d : Digits) : IsNumeral d.scientific.toList d.value := by
  have hdigits := allDigits_toDigits d.coefficient
  have hpos : 0 < (Nat.toDigits 10 d.coefficient).length := Nat.length_toDigits_pos
  obtain ⟨hexponent, hne⟩ := isExponent_exponentText d.exponent
  have hfirst : (Nat.toDigits 10 d.coefficient).take 1 ≠ [] :=
    ne_nil_of_length_pos (by rw [length_take]; omega)
  have hcount : d.exponent = d.scale + (Nat.toDigits 10 d.coefficient).length - 1 := rfl
  by_cases hrest : (Nat.toDigits 10 d.coefficient).drop 1 = []
  · have hone : (Nat.toDigits 10 d.coefficient).length = 1 := by
      have hle := drop_eq_nil_iff.1 hrest
      omega
    refine (isNumeral_exponent (hdigits.take 1) hfirst hexponent hne).congr ?_ ?_
    · simp [Digits.scientific, hrest]
    · rw [take_of_length_le hone.le, Nat.ofDigitChars_ten_toDigits, Digits.value]
      congr 2
      omega
  · refine (isNumeral_point (hdigits.take 1) hfirst (hdigits.drop 1) hrest hexponent).congr ?_ ?_
    · have htail : (Nat.toDigits 10 d.coefficient).tail ≠ [] := by rwa [← drop_one]
      simp [Digits.scientific, htail]
    · rw [take_append_drop, Nat.ofDigitChars_ten_toDigits, Digits.value]
      congr 2
      rw [length_drop]
      omega

/-- Digits laid out in any way are read with their value. -/
lemma isNumeral_text (d : Digits) {l : Layout} (hl : l.pointZero = true) :
    IsNumeral (d.text l).toList d.value := by
  unfold Digits.text
  split
  · rw [hl]
    exact isNumeral_positional d
  · exact isNumeral_scientific d

/-! ## Whole numbers -/

lemma ofDigitChars_lt (h : AllDigits cs) (n : Nat) :
    Nat.ofDigitChars 10 cs n < 10 ^ cs.length * (n + 1) := by
  induction cs generalizing n with
  | nil => simp
  | cons c cs ih =>
    have hc := Char.isDigit_iff_toNat.1 (h c (by simp))
    have hlt := ih (fun d hd => h d (mem_cons_of_mem c hd)) (10 * n + (c.toNat - '0'.toNat))
    have hten : '9'.toNat < '0'.toNat + 10 := by decide
    have hle : 10 * n + (c.toNat - '0'.toNat) + 1 ≤ 10 * (n + 1) := by omega
    rw [Nat.ofDigitChars_cons, length_cons, pow_succ, mul_assoc]
    exact hlt.trans_le (Nat.mul_le_mul_left _ hle)

/-- A decimal number starts with a zero only if it is zero. -/
lemma toDigits_head (n : Nat) :
    ¬ ((Nat.toDigits 10 n).head? = some '0' ∧ Nat.toDigits 10 n ≠ ['0']) := by
  rintro ⟨hhead, hne⟩
  obtain ⟨ds, hds⟩ := head?_eq_some_iff.1 hhead
  have hvalue : Nat.ofDigitChars 10 ds 0 = n := by
    have hten := Nat.ofDigitChars_ten_toDigits (n := n)
    rwa [hds, Nat.ofDigitChars_cons] at hten
  have hdigits : AllDigits ds := fun d hd =>
    allDigits_toDigits n d (by rw [hds]; exact mem_cons_of_mem _ hd)
  have hlt := ofDigitChars_lt hdigits 0
  rw [hvalue, zero_add, mul_one] at hlt
  have hpos : 0 < ds.length := by
    refine length_pos_iff.2 fun hnil => hne ?_
    rw [hds, hnil]
  have hshort := (Nat.length_toDigits_le_iff (by decide) hpos).2 hlt
  rw [hds, length_cons] at hshort
  omega

lemma constant?_toString (n : Nat) : constant? (toString n) = some (.whole n) := by
  have hnil : StartsPlain [] := by simp [StartsPlain]
  have htake := takeWhile_digits (allDigits_toDigits n) hnil
  rw [append_nil] at htake
  have hdigits := digits?_eq_some Nat.toDigits_ne_nil (allDigits_toDigits n)
  simp only [constant?, toList_toString, htake.1, htake.2, if_neg (toDigits_head n), hdigits,
    Nat.ofDigitChars_ten_toDigits, Option.map_some]

lemma isToken_toString (n : Nat) : IsToken (toString n).toList (.number (toString n)) := by
  have hdigits := allDigits_toDigits n
  obtain ⟨c, ds, hcs⟩ := exists_cons_of_ne_nil (Nat.toDigits_ne_nil (b := 10) (n := n))
  rw [hcs] at hdigits
  have htoken := isToken_number (hdigits c (by simp))
    (AllDigits.isNumberTail (fun d hd => hdigits d (mem_cons_of_mem c hd)) c)
  rwa [← hcs, ← toList_toString, String.ofList_toList] at htoken

end FormKernel.CText
