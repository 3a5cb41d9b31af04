import FormKernel.Decimal.Aligned
import FormKernel.Proofs.CText.Constant
import FormKernel.Proofs.Decimal.Neighbours

/-!
# What is seen of a number

Of a number that is written in a column its sign and the value of its digits are seen, however wide
the column is.  If the digits round to the number, they tell it from all others.
-/

namespace FormKernel.CText

/-! ## Digits around a point -/

variable {cs ws : List Char}

lemma AllDigits.notMem (h : AllDigits cs) {c : Char} (hc : c.isDigit = false) : c ∉ cs :=
  fun hmem => by simp [h c hmem] at hc

lemma AllDigits.ne_point (h : AllDigits cs) (c : Char) (hc : c ∈ cs) : (c != '.') = true := by
  rw [bne_iff_ne]
  rintro rfl
  exact h.notMem (by decide) hc

lemma AllDigits.splitPoint (h : AllDigits ws) (fs : List Char) :
    (ws ++ '.' :: fs).takeWhile (· != '.') = ws ∧
      (ws ++ '.' :: fs).dropWhile (· != '.') = '.' :: fs := by
  rw [List.takeWhile_append_of_pos h.ne_point, List.dropWhile_append_of_pos h.ne_point]
  simp

lemma AllDigits.noPoint (h : AllDigits ws) :
    ws.takeWhile (· != '.') = ws ∧ ws.dropWhile (· != '.') = [] := by
  rw [← List.append_nil ws, List.takeWhile_append_of_pos h.ne_point,
    List.dropWhile_append_of_pos h.ne_point]
  simp

end FormKernel.CText

namespace FormKernel.Decimal

open CText List

/-- What is seen of a number. -/
inductive Mark where
  | nan
  | infinite (negative : Bool)
  | number (negative : Bool) (value : ℚ)
  deriving DecidableEq

/-- What is seen of a number that is written with or without exponent. -/
def Decoded.mark (exponents : Bool) : Decoded → Mark
  | .nan => .nan
  | .infinite negative => .infinite negative
  | .zero negative => .number negative 0
  | .finite negative b => .number negative (b.printed exponents).value

def Digits.toRatio (d : Digits) : Ratio := Ratio.scale ⟨d.coefficient, 1⟩ 10 d.scale

/-- The digits that are written for a number round to it. -/
def Decoded.legible (exponents : Bool) : Decoded → Bool
  | .finite _ b => b.holds (b.printed exponents).toRatio
  | _ => true

/-! ## Legible numbers -/

lemma Digits.value_toRatio (d : Digits) : d.toRatio.value = d.value := by
  rw [Digits.toRatio, Ratio.value_scale _ (by decide)]
  simp [Ratio.value, Digits.value]

variable {negative : Bool} {ws cs : List Char} {c : Char} {x : Float} {q : ℚ} {e : Int}
  {es : List Char}

lemma Decoded.rounds_of_legible {exponents : Bool} {b : Binary} (hx : decode x = .finite negative b)
    (h : (decode x).legible exponents = true) : b.IsDouble ∧
      b.Rounds (b.printed exponents).value := by
  have hb := isDouble_of_decode hx
  rw [hx] at h
  have hrounds := Binary.rounds_of_holds hb (Ratio.den_scale_pos (by decide) Nat.one_pos _) h
  rw [← Digits.toRatio, Digits.value_toRatio] at hrounds
  exact ⟨hb, hrounds⟩

/-- Legible numbers of which the same is seen are equal. -/
lemma eq_of_mark {y : Float} {e e' : Bool} (hx : (decode x).legible e = true)
    (hy : (decode y).legible e' = true) (h : (decode x).mark e = (decode y).mark e') : x = y := by
  apply decode_injective
  cases hdx : decode x with
  | nan | infinite n => cases hdy : decode y <;> simp_all [Decoded.mark]
  | zero n =>
    cases hdy : decode y with
    | nan | infinite n' => simp [hdx, hdy, Decoded.mark] at h
    | zero n' => simpa [hdx, hdy, Decoded.mark] using h
    | finite n' b' =>
      obtain ⟨hb', hrounds'⟩ := Decoded.rounds_of_legible hdy hy
      rw [hdx, hdy, Decoded.mark, Decoded.mark, Mark.number.injEq] at h
      exact absurd h.2 (hrounds'.pos hb').ne
  | finite n b =>
    obtain ⟨hb, hrounds⟩ := Decoded.rounds_of_legible hdx hx
    cases hdy : decode y with
    | nan | infinite n' => simp [hdx, hdy, Decoded.mark] at h
    | zero n' =>
      rw [hdx, hdy, Decoded.mark, Decoded.mark, Mark.number.injEq] at h
      exact absurd h.2 (hrounds.pos hb).ne'
    | finite n' b' =>
      obtain ⟨hb', hrounds'⟩ := Decoded.rounds_of_legible hdy hy
      rw [hdx, hdy, Decoded.mark, Decoded.mark, Mark.number.injEq] at h
      rw [h.1, hrounds.unique hb hb' (h.2 ▸ hrounds')]

/-! ## Reading -/

/-- What is read from a text behind its sign. -/
def Mark.readUnsigned (negative : Bool) (cs : List Char) : Mark :=
  if cs = ['i', 'n', 'f'] then .infinite negative
  else
    match constant? (String.ofList cs) with
    | some (.real q) => .number negative q
    | _ => .nan

/-- What is read from a text without blanks. -/
def Mark.read : List Char → Mark
  | '-' :: cs => readUnsigned true cs
  | cs => readUnsigned false cs

lemma Mark.read_signed (negative : Bool) (hws : ws ≠ []) (hminus : '-' ∉ ws) (cs : List Char) :
    read ((signed negative (String.ofList ws)).toList ++ cs) = readUnsigned negative (ws ++ cs) :=
  by
  obtain ⟨w, ws, rfl⟩ := exists_cons_of_ne_nil hws
  cases negative with
  | true => simp [signed, read]
  | false =>
    rw [signed, if_neg (by decide), String.toList_ofList, cons_append, read.eq_def]
    split
    · next heq =>
      obtain rfl : w = '-' := (cons.inj heq).1
      simp at hminus
    · rfl

lemma Mark.readUnsigned_number (negative : Bool)
    (h : constant? (String.ofList cs) = some (.real q)) :
    readUnsigned negative cs = .number negative q := by
  have hword : cs ≠ ['i', 'n', 'f'] := by
    rintro rfl
    simp [constant?, exponent?] at h
  rw [readUnsigned, if_neg hword, h]

/-- Parts that write a value: a sign, digits before the point and perhaps digits after it. -/
def Parts.Writes (p : Parts) (negative : Bool) (q : ℚ) : Prop :=
  ∃ ws fs, p.whole = signed negative (String.ofList ws) ∧ p.fraction = String.ofList fs ∧ ws ≠ [] ∧
    AllDigits ws ∧ AllDigits fs ∧
      q = (Nat.ofDigitChars 10 (ws ++ fs) 0 : Nat) * 10 ^ (p.exponent - fs.length)

lemma Parts.writes_zero (negative : Bool) : Parts.Writes ⟨signed negative "0", "", 0⟩ negative 0 :=
  ⟨['0'], [], rfl, rfl, by simp, allDigits_zeros 1, by simp [AllDigits], by simp [Nat.ofDigitChars]⟩

lemma Parts.writes_positional (negative : Bool) (d : Digits) :
    (Parts.positional negative d).Writes negative d.value := by
  have hdigits := allDigits_toDigits d.coefficient
  have hlength := length_toDigits d.coefficient
  by_cases hscale : 0 ≤ d.scale
  · -- a whole number
    obtain ⟨n, hn⟩ := Int.eq_ofNat_of_zero_le hscale
    have hall := hdigits.append (allDigits_zeros n)
    have htext : (d.positional false).toList = Nat.toDigits 10 d.coefficient ++ replicate n '0' :=
      by
      simp [Digits.positional, hn, toList_zeros]
    refine ⟨Nat.toDigits 10 d.coefficient ++ replicate n '0', [], ?_, ?_,
      append_ne_nil_of_left_ne_nil Nat.toDigits_ne_nil _, hall, by simp [AllDigits], ?_⟩
    · rw [Parts.positional, htext, hall.noPoint.1]
    · rw [Parts.positional, htext, hall.noPoint.2]
      rfl
    · rw [append_nil, Nat.ofDigitChars_append, Nat.ofDigitChars_ten_toDigits,
        Nat.ofDigitChars_replicate_zero, Digits.value, hn]
      simp [Parts.positional, mul_comm]
  · obtain ⟨n, hn⟩ : ∃ n : Nat, d.scale = -n := ⟨(-d.scale).toNat, by omega⟩
    by_cases hplaces : n < (toString d.coefficient).length
    · -- the point stands between digits
      have hcut := length_drop (i := (toString d.coefficient).length - n)
        (l := Nat.toDigits 10 d.coefficient)
      have hwhole := hdigits.take ((toString d.coefficient).length - n)
      have htext : (d.positional false).toList =
          (Nat.toDigits 10 d.coefficient).take ((toString d.coefficient).length - n) ++
            '.' :: (Nat.toDigits 10 d.coefficient).drop ((toString d.coefficient).length - n) := by
        rw [Digits.positional, if_neg hscale]
        simp only [hn, neg_neg, Int.toNat_natCast, if_pos hplaces, toList_toString]
        simp
      refine ⟨_, _, ?_, ?_, ne_nil_of_length_pos ?_, hwhole,
        hdigits.drop ((toString d.coefficient).length - n), ?_⟩
      · rw [Parts.positional, htext, (hwhole.splitPoint _).1]
      · rw [Parts.positional, htext, (hwhole.splitPoint _).2]
        rfl
      · rw [length_take]
        omega
      · rw [take_append_drop, Nat.ofDigitChars_ten_toDigits, Digits.value, hn]
        congr 2
        simp only [Parts.positional]
        omega
    · -- zeros stand between the point and the digits
      have hfraction := (allDigits_zeros (n - (toString d.coefficient).length)).append hdigits
      have htext : (d.positional false).toList = replicate 1 '0' ++
          '.' :: (replicate (n - (toString d.coefficient).length) '0' ++
            Nat.toDigits 10 d.coefficient) := by
        rw [Digits.positional, if_neg hscale]
        simp only [hn, neg_neg, Int.toNat_natCast, if_neg hplaces]
        simp [toList_zeros]
      refine ⟨_, _, ?_, ?_, by simp, allDigits_zeros 1, hfraction, ?_⟩
      · rw [Parts.positional, htext, ((allDigits_zeros 1).splitPoint _).1]
      · rw [Parts.positional, htext, ((allDigits_zeros 1).splitPoint _).2]
        rfl
      · rw [ofDigitChars_zeros, Digits.value, hn]
        congr 2
        rw [length_append, length_replicate]
        simp only [Parts.positional]
        omega

lemma Parts.writes_scientific (negative : Bool) (d : Digits) :
    (Parts.scientific negative d).Writes negative d.value := by
  have hdigits := allDigits_toDigits d.coefficient
  have hpos : 0 < (Nat.toDigits 10 d.coefficient).length := Nat.length_toDigits_pos
  refine ⟨_,
    _, by rw [Parts.scientific, toList_toString], by rw [Parts.scientific, toList_toString],
    ne_nil_of_length_pos (by rw [length_take]; omega), hdigits.take 1, hdigits.drop 1, ?_⟩
  have hcount : d.exponent = d.scale + (Nat.toDigits 10 d.coefficient).length - 1 := rfl
  rw [take_append_drop, Nat.ofDigitChars_ten_toDigits, Digits.value, length_drop]
  congr 2
  simp only [Parts.scientific]
  omega

/-! ## Columns -/

/-- A text without its blanks. -/
def squeeze (cs : List Char) : List Char := cs.filter fun c => !isBlank c

@[simp] lemma squeeze_append (cs ds : List Char) : squeeze (cs ++ ds) = squeeze cs ++ squeeze ds :=
  filter_append cs ds

@[simp] lemma squeeze_blanks (n : Nat) : squeeze (replicate n ' ') = [] :=
  filter_eq_nil_iff.2 fun c hc => by simp [eq_of_mem_replicate hc, isBlank]

@[simp] lemma squeeze_breaks (n : Nat) : squeeze (replicate n '\n') = [] :=
  filter_eq_nil_iff.2 fun c hc => by simp [eq_of_mem_replicate hc, isBlank]

def isCellChar (c : Char) : Bool := c.isAlphanum || c == '.' || c == '-' || c == '+'

lemma isCellChar_of_isDigit (h : c.isDigit = true) : isCellChar c = true := by
  simp [isCellChar, Char.isAlphanum, h]

lemma isBlank_of_isCellChar (h : isCellChar c = true) : isBlank c = false := by
  by_contra hblank
  simp only [isBlank, Bool.not_eq_false, Bool.or_eq_true, beq_iff_eq] at hblank
  rcases hblank with (rfl | rfl) | rfl <;> simp [isCellChar] at h

/-- Only characters of numbers. -/
def IsCell (cs : List Char) : Prop := ∀ c ∈ cs, isCellChar c = true

lemma IsCell.cons (hc : isCellChar c = true) (h : IsCell cs) : IsCell (c :: cs) :=
  forall_mem_cons.2 ⟨hc, h⟩

lemma IsCell.append {ds : List Char} (h : IsCell cs) (h' : IsCell ds) : IsCell (cs ++ ds) :=
  fun c hc => (mem_append.1 hc).elim (h c) (h' c)

lemma isCell_of_allDigits (h : AllDigits cs) : IsCell cs :=
  fun c hc => isCellChar_of_isDigit (h c hc)

lemma IsCell.squeeze {cs : List Char} (h : IsCell cs) : squeeze cs = cs :=
  filter_eq_self.2 fun c hc => by simp [isBlank_of_isCellChar (h c hc)]

lemma isCell_signed (h : IsCell ws) : IsCell (signed negative (String.ofList ws)).toList := by
  cases negative with
  | true =>
    rw [signed, if_pos rfl, String.toList_append]
    exact IsCell.append (by simp [IsCell, isCellChar]) (by rwa [String.toList_ofList])
  | false => simpa [signed] using h

lemma isCell_isExponent (h : IsExponent es e) : IsCell es := by
  cases h with
  | none => simp [IsCell]
  | plus _ hds | minus _ hds => exact .cons rfl (.cons rfl (isCell_of_allDigits hds))

/-- A text shows something of a number. -/
structure Shows (cs : List Char) (m : Mark) : Prop where
  read : Mark.read cs = m
  plain : IsCell cs
  ne_nil : cs ≠ []

/-- Digits, a point and perhaps digits and an exponent show a number. -/
lemma shows_point (negative : Bool) {fs : List Char} (hws : AllDigits ws) (hne : ws ≠ [])
    (hfs : AllDigits fs) (hes : IsExponent es e) :
    Shows ((signed negative (String.ofList ws)).toList ++ '.' :: (fs ++ es))
      (.number negative ((Nat.ofDigitChars 10 (ws ++ fs) 0 : Nat) * 10 ^ (e - fs.length))) where
  read := by
    rw [Mark.read_signed negative hne (hws.notMem (by decide))]
    exact Mark.readUnsigned_number negative (constant?_point hws hne hfs hes)
  plain := (isCell_signed (isCell_of_allDigits hws)).append
    (.cons rfl ((isCell_of_allDigits hfs).append (isCell_isExponent hes)))
  ne_nil := by simp

lemma toList_padLeft (n : Nat) (c : Char) (s : String) :
    (padLeft n c s).toList = replicate (n - s.length) c ++ s.toList := by
  rw [padLeft, String.toList_append, String.toList_ofList]

lemma toList_padRight (n : Nat) (c : Char) (s : String) :
    (padRight n c s).toList = s.toList ++ replicate (n - s.length) c := by
  rw [padRight, String.toList_append, String.toList_ofList]

/-- An exponent with zeros in front of its digits. -/
lemma isExponent_padded (n : Nat) (e : Int) :
    IsExponent
      ((if e < 0 then "e-" else "e+").toList ++ (padLeft n '0' (toString e.natAbs)).toList) e := by
  rw [toList_padLeft, toList_toString]
  generalize n - (toString e.natAbs).length = k
  have hdigits := (allDigits_zeros k).append (allDigits_toDigits e.natAbs)
  have hne : replicate k '0' ++ Nat.toDigits 10 e.natAbs ≠ [] :=
    append_ne_nil_of_right_ne_nil _ Nat.toDigits_ne_nil
  have hvalue : Nat.ofDigitChars 10 (replicate k '0' ++ Nat.toDigits 10 e.natAbs) 0 = e.natAbs := by
    rw [ofDigitChars_append_zero, Nat.ofDigitChars_replicate_zero, Nat.ofDigitChars_ten_toDigits]
    simp
  by_cases he : e < 0
  · have hminus := IsExponent.minus hne hdigits
    rw [hvalue, (by omega : -(e.natAbs : Int) = e)] at hminus
    rwa [if_pos he]
  · have hplus := IsExponent.plus hne hdigits
    rw [hvalue, (by omega : (e.natAbs : Int) = e)] at hplus
    rwa [if_neg he]

/-- Zeros behind digits after the point do not count. -/
lemma value_padded (ws fs : List Char) (e : Int) (k : Nat) :
    ((Nat.ofDigitChars 10 (ws ++ (fs ++ replicate k '0')) 0 : Nat) : ℚ) *
        10 ^ (e - (fs ++ replicate k '0').length) =
      (Nat.ofDigitChars 10 (ws ++ fs) 0 : Nat) * 10 ^ (e - fs.length) := by
  have hexponent : e - fs.length = (k : Int) + (e - (fs ++ replicate k '0').length) := by
    rw [length_append, length_replicate]
    push_cast
    ring
  rw [← append_assoc, Nat.ofDigitChars_append, Nat.ofDigitChars_replicate_zero, hexponent,
    zpow_add₀ (by norm_num), zpow_natCast]
  push_cast
  ring

lemma shows_number (c : Columns) {p : Parts} (h : p.Writes negative q)
    (hexponent : c.exponents = false → p.exponent = 0) :
    Shows (squeeze (c.text (.number p)).toList) (.number negative q) := by
  obtain ⟨ws, fs, hwhole, hfraction, hne, hws, hfs, rfl⟩ := h
  have hfront : ∀ tail : String, squeeze (padLeft c.left ' ' p.whole ++ "." ++ tail).toList =
      (signed negative (String.ofList ws)).toList ++ '.' :: squeeze tail.toList := by
    intro tail
    rw [hwhole, String.toList_append, String.toList_append, toList_padLeft, squeeze_append,
      squeeze_append,
      squeeze_append, squeeze_blanks, (isCell_signed (isCell_of_allDigits hws)).squeeze,
      append_assoc]
    rfl
  rw [Columns.text, hfront]
  by_cases hexps : c.exponents = true
  · have hpadded := hfs.append (allDigits_zeros (c.right - p.fraction.length))
    have hexp := isExponent_padded c.digits p.exponent
    have hshows := shows_point negative hws hne hpadded hexp
    rw [value_padded] at hshows
    rwa [if_pos hexps, String.toList_append, String.toList_append, toList_padRight, append_assoc,
      squeeze_append, hfraction, String.toList_ofList, ← hfraction,
      (isCell_of_allDigits hpadded).squeeze, (isCell_isExponent hexp).squeeze]
  · have hshows := shows_point negative hws hne hfs .none
    rw [append_nil] at hshows
    rwa [if_neg hexps, toList_padRight, squeeze_append, squeeze_blanks, append_nil, hfraction,
      String.toList_ofList, (isCell_of_allDigits hfs).squeeze, hexponent (by simpa using hexps)]

lemma shows_word (c : Columns) {w : String} {m : Mark} (h : Shows w.toList m) :
    Shows (squeeze (c.text (.word w)).toList) m := by
  rwa [Columns.text, toList_padLeft, squeeze_append, squeeze_blanks, h.plain.squeeze]

/-- Reading what is written for a number in a column. -/
lemma shows_text (c : Columns) (x : Decoded) :
    Shows (squeeze (c.text (x.printed c.exponents)).toList) (x.mark c.exponents) := by
  cases x with
  | nan =>
    refine shows_word c ⟨?_, by simp [IsCell, isCellChar], by simp⟩
    simp [Mark.read, Mark.readUnsigned, constant?, exponent?, Decoded.mark]
  | infinite negative =>
    have hword : IsCell ['i', 'n', 'f'] := by simp [IsCell, isCellChar]
    refine shows_word c ⟨?_, isCell_signed hword, ?_⟩
    · cases negative <;> simp [signed, Mark.read, Mark.readUnsigned, Decoded.mark]
    · cases negative <;> simp [signed]
  | zero negative => exact shows_number c (Parts.writes_zero negative) fun _ => rfl
  | finite negative b =>
    cases hexps : c.exponents with
    | false =>
      have hshows :=
        shows_number c (Parts.writes_positional negative (b.printed false)) fun _ => rfl
      simpa [Decoded.printed, Decoded.mark] using hshows
    | true =>
      have hshows := shows_number c (Parts.writes_scientific negative (b.printed true))
        (by simp [hexps])
      simpa [Decoded.printed, Decoded.mark] using hshows

end FormKernel.Decimal
