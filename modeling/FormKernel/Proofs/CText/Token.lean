import FormKernel.Fault
import Mathlib.Data.List.Basic

/-!
# Tokens of C

The tokens that can stand in expressions, and how a text is cut into them: blanks are skipped, and a
token is as long as it can be.  Every nonempty beginning of a token is a token again, so a token is
extended by one character after the other for as long as this gives a token.
-/

namespace FormKernel.CText

open List

/-- A token; marks are operators, brackets and reserved words. -/
inductive Token where
  | name (s : String)
  | number (s : String)
  | mark (s : String)
  deriving DecidableEq

/-- Characters that may start a name. -/
def isLetter (c : Char) : Bool := c.isAlpha || c == '_'

/-- Characters that may continue a name. -/
def isWordChar (c : Char) : Bool := c.isAlphanum || c == '_'

/-- Characters that separate tokens. -/
def isBlank (c : Char) : Bool := c == ' ' || c == '\t' || c == '\n'

def reservedWords : List String := [
  "auto", "break", "case", "char", "const", "continue", "default", "do", "double", "else", "enum",
  "extern", "float", "for", "goto", "if", "inline", "int", "long", "register", "restrict", "return",
  "short", "signed", "sizeof", "static", "struct", "switch", "typedef", "union", "unsigned", "void",
  "volatile", "while", "_Alignas", "_Alignof", "_Atomic", "_Bool", "_Complex", "_Generic",
  "_Imaginary", "_Noreturn", "_Static_assert", "_Thread_local"]

/-- Operators and other marks, with the beginnings of comments. -/
def punctuators : List String := [
  "(", ")", "[", "]", "\x7b", "\x7d", ".", "->", "++", "--", "&", "*", "+", "-", "~", "!", "/", "%",
  "<<", ">>", "<", ">", "<=", ">=", "==", "!=", "^", "|", "&&", "||", "?", ":", ";", ",", "=", "*=",
  "/=", "%=", "+=", "-=", "<<=", ">>=", "&=", "^=", "|=", "//", "/*"]

/-- A letter and further letters and digits. -/
def isWord : List Char → Bool
  | [] => false
  | c :: cs => isLetter c && cs.all isWordChar

/-- Whether a character continues a number behind a character: digits, letters and points do, and
    signs behind the letter of an exponent. -/
def continuesNumber (last c : Char) : Bool :=
  isWordChar c || c == '.' || ((c == '+' || c == '-') && ['e', 'E', 'p', 'P'].contains last)

/-- Whether characters continue a number one after the other. -/
def isNumberTail (last : Char) : List Char → Bool
  | [] => true
  | c :: cs => continuesNumber last c && isNumberTail c cs

/-- A number, which may still turn out to be no constant. -/
def isNumber : List Char → Bool
  | [] => false
  | c :: cs => (c.isDigit || (c == '.' && cs.head?.any Char.isDigit)) && isNumberTail c cs

def tokenOf (w : List Char) : Option Token :=
  let s := String.ofList w
  if isWord w then some (if s ∈ reservedWords then .mark s else .name s)
  else if isNumber w then some (.number s)
  else if s ∈ punctuators then some (.mark s)
  else none

/-- Puts a token in front of others, unless there is none. -/
def emit (w : List Char) (ts : List Token) : Option (List Token) :=
  if w = [] then some ts else (tokenOf w).map (· :: ts)

/-- Cuts a text into tokens, the first of which has begun. -/
def lexFrom (w : List Char) : List Char → Option (List Token)
  | [] => emit w []
  | c :: cs =>
    if (tokenOf (w ++ [c])).isSome then lexFrom (w ++ [c]) cs
    else if (tokenOf [c]).isSome then (lexFrom [c] cs).bind (emit w)
    else if isBlank c then (lexFrom [] cs).bind (emit w)
    else none

/-- Cuts a text into tokens. -/
def lex (s : String) : Option (List Token) := lexFrom [] s.toList

/-- A text is a token, and so are its beginnings. -/
structure IsToken (w : List Char) (t : Token) : Prop where
  token : tokenOf w = some t
  start : ∀ n, 0 < n → n ≤ w.length → (tokenOf (w.take n)).isSome

/-- The first of further characters does not extend a token. -/
def Stops (w : List Char) (cs : List Char) : Prop := ∀ c ∈ cs.head?, tokenOf (w ++ [c]) = none

variable {cs w s : List Char} {c : Char} {ts : List Token}

lemma lexFrom_append {v : List Char}
    (h : ∀ n, 0 < n → n ≤ w.length → (tokenOf (v ++ w.take n)).isSome) :
    lexFrom v (w ++ cs) = lexFrom (v ++ w) cs := by
  induction w generalizing v with
  | nil => rw [nil_append, append_nil]
  | cons c w ih =>
    have hfirst : (tokenOf (v ++ [c])).isSome := h 1 (by decide) (by simp)
    rw [cons_append, lexFrom, if_pos hfirst, ih, append_assoc, singleton_append]
    intro n hn hnw
    have hnext := h (n + 1) (by omega) (by simpa using hnw)
    rwa [take_succ_cons, ← singleton_append, ← append_assoc] at hnext

lemma emit_nil (ts : List Token) : emit [] ts = some ts := if_pos rfl

lemma bind_emit_nil (ts : Option (List Token)) : ts.bind (emit []) = ts := by
  cases ts <;> simp [emit_nil]

/-- The next token begins where the last one cannot be extended. -/
lemma lexFrom_of_stops (h : Stops w cs) : lexFrom w cs = (lexFrom [] cs).bind (emit w) := by
  cases cs with
  | nil => simp [lexFrom, emit_nil]
  | cons c cs =>
    have hstop : tokenOf (w ++ [c]) = none := h c (by simp)
    by_cases hc : (tokenOf [c]).isSome
    · simp [lexFrom, hstop, hc]
    · by_cases hblank : isBlank c <;> simp [lexFrom, hstop, hc, hblank, bind_emit_nil]

lemma lex_token {t : Token} (hw : IsToken w t) (hne : w ≠ []) (h : Stops w cs) :
    lexFrom [] (w ++ cs) = (lexFrom [] cs).map (t :: ·) := by
  rw [lexFrom_append (by simpa using hw.start), nil_append, lexFrom_of_stops h]
  cases lexFrom [] cs with
  | none => rfl
  | some ts => simp [emit, hne, hw.token]

lemma lex_blank (cs : List Char) : lexFrom [] (' ' :: cs) = lexFrom [] cs := by
  have hnone : tokenOf [' '] = none := by decide
  have hblank : isBlank ' ' = true := by decide
  simp [lexFrom, hnone, hblank, bind_emit_nil]

/-! ## Where tokens end -/

/-- Characters that no mark of several characters holds. -/
def isLone (c : Char) : Bool := isWordChar c || ['(', ')', '[', ']', ',', ' ', '?', ':'].contains c

lemma eq_singleton_of_isLone (h : String.ofList w ∈ punctuators) (hc : c ∈ w) (hlone : isLone c) :
    w = [c] := by
  have hall : (punctuators.all fun p => p.toList.all fun c => !isLone c || p.toList == [c]) =
      true := by
    decide
  simp only [all_eq_true, Bool.or_eq_true, Bool.not_eq_true', beq_iff_eq] at hall
  have hw := hall _ h c
  rw [String.toList_ofList, hlone] at hw
  exact (hw hc).resolve_left Bool.noConfusion

lemma tokenOf_eq_none (hword : isWord w = false) (hnumber : isNumber w = false)
    (hmark : String.ofList w ∉ punctuators) : tokenOf w = none := by
  simp [tokenOf, hword, hnumber, hmark]

lemma isNumberTail_concat (last c : Char) (cs : List Char) :
    isNumberTail last (cs ++ [c]) =
      (isNumberTail last cs && continuesNumber ((last :: cs).getLast (by simp)) c) := by
  induction cs generalizing last with
  | nil => simp [isNumberTail]
  | cons d cs ih => simp [isNumberTail, ih, Bool.and_assoc, getLast_cons]

lemma isNumber_concat (hne : w ≠ []) (hc : continuesNumber (w.getLast hne) c = false) :
    isNumber (w ++ [c]) = false := by
  cases w with
  | nil => exact absurd rfl hne
  | cons a cs => rw [cons_append, isNumber, isNumberTail_concat, hc, Bool.and_false, Bool.and_false]

lemma isWord_concat (hne : w ≠ []) (hc : isWordChar c = false) : isWord (w ++ [c]) = false := by
  cases w with
  | nil => exact absurd rfl hne
  | cons a cs => simp [isWord, hc]

/-- Blanks, closing brackets and commas extend no token. -/
def Ends (cs : List Char) : Prop := ∀ c ∈ cs.head?, c ∈ [' ', ')', ']', ',']

lemma Ends.stops (h : Ends cs) (hne : w ≠ []) : Stops w cs := by
  have hends : ∀ c ∈ [' ', ')', ']', ','], isWordChar c = false ∧ isLone c = true ∧
      (c == '.') = false ∧ (c == '+') = false ∧ (c == '-') = false := by
    simp only [mem_cons, not_mem_nil, or_false, forall_eq_or_imp, forall_eq]
    decide
  intro c hc
  obtain ⟨hword, hlone, hpoint, hplus, hminus⟩ := hends c (h c hc)
  have hnumber : continuesNumber (w.getLast hne) c = false := by
    simp [continuesNumber, hword, hpoint, hplus, hminus]
  refine tokenOf_eq_none (isWord_concat hne hword) (isNumber_concat hne hnumber) fun hmark => ?_
  have hsingle := eq_singleton_of_isLone hmark (c := c) (by simp) hlone
  simp [hne] at hsingle

lemma Stops.cons (h : tokenOf (w ++ [c]) = none) (cs : List Char) : Stops w (c :: cs) := by
  intro d hd
  obtain rfl : c = d := by simpa using hd
  exact h

lemma isWordChar_of_isLetter (h : isLetter c) : isWordChar c := by
  unfold isLetter at h
  unfold isWordChar Char.isAlphanum
  rw [Bool.or_eq_true] at h ⊢
  exact h.imp_left fun halpha => by rw [halpha, Bool.true_or]

lemma isWordChar_of_isDigit (h : c.isDigit) : isWordChar c := by
  simp [isWordChar, Char.isAlphanum, h]

lemma isDigit_of_isLetter (h : isLetter c) : c.isDigit = false := by
  unfold isLetter Char.isAlpha Char.isUpper Char.isLower at h
  simp only [Bool.or_eq_true, Bool.and_eq_true, decide_eq_true_eq, beq_iff_eq, ge_iff_le,
    UInt32.le_iff_toNat_le] at h
  simp only [Char.isDigit, Bool.and_eq_false_iff, decide_eq_false_iff_not, ge_iff_le,
    UInt32.le_iff_toNat_le]
  have hnine : '9'.val.toNat < 'A'.val.toNat ∧ '9'.val.toNat < 'a'.val.toNat := by decide
  rcases h with (⟨hlow, _⟩ | ⟨hlow, _⟩) | rfl
  · omega
  · omega
  · decide

/-- A mark is not extended where one of both characters stands in no mark of several characters. -/
lemma tokenOf_pair {m : Char} (hm : isWordChar m = false) (hpoint : (m == '.') = false)
    (hlone : isLone m ∨ isLone c) : tokenOf [m, c] = none := by
  have hletter : isLetter m = false := by
    by_contra h
    rw [Bool.not_eq_false] at h
    rw [isWordChar_of_isLetter h] at hm
    cases hm
  have hdigit : m.isDigit = false := by
    by_contra h
    rw [Bool.not_eq_false] at h
    rw [isWordChar_of_isDigit h] at hm
    cases hm
  refine tokenOf_eq_none (by simp [isWord, hletter])
    (by simp [isNumber, hdigit, hpoint]) fun hmark => ?_
  rcases hlone with h | h
  · simpa using eq_singleton_of_isLone hmark (c := m) (by simp) h
  · simpa using eq_singleton_of_isLone hmark (c := c) (by simp) h

/-- A word is extended by the characters of words only. -/
lemma tokenOf_word_concat (hw : isWord w)
    (hc : isWordChar c = false) : tokenOf (w ++ [c]) = none := by
  cases w with
  | nil => cases hw
  | cons a w =>
    rw [isWord, Bool.and_eq_true] at hw
    have hpoint : (a == '.') = false := by
      rw [beq_eq_false_iff_ne]
      rintro rfl
      exact absurd hw.1 (by decide)
    have hnumber : isNumber (a :: (w ++ [c])) = false := by
      simp [isNumber, isDigit_of_isLetter hw.1, hpoint]
    refine tokenOf_eq_none (isWord_concat (by simp) hc) hnumber fun hmark => ?_
    have hlone : isLone a := by simp [isLone, isWordChar_of_isLetter hw.1]
    simpa using eq_singleton_of_isLone hmark (c := a) (by simp) hlone

/-! ## Tokens -/

lemma isToken_mark {p : String} (hp : p ∈ punctuators) : IsToken p.toList (.mark p) := by
  have hall : ∀ p ∈ punctuators, tokenOf p.toList = some (.mark p) ∧
      ∀ n ∈ range (p.toList.length + 1), 0 < n → (tokenOf (p.toList.take n)).isSome := by
    decide
  exact ⟨(hall p hp).1, fun n hn hle => (hall p hp).2 n (by simp; omega) hn⟩

lemma isToken_word {s : String} (hs : isWord s.toList) (hfree : s ∉ reservedWords) :
    IsToken s.toList (.name s) where
  token := by simp [tokenOf, hs, hfree]
  start n hn hle := by
    have hword : isWord (s.toList.take n) := by
      revert hs
      cases s.toList with
      | nil => simp [isWord]
      | cons c cs =>
        intro hs
        obtain ⟨m, rfl⟩ : ∃ m, n = m + 1 := ⟨n - 1, by omega⟩
        simp only [isWord, Bool.and_eq_true, all_eq_true, take_succ_cons] at hs ⊢
        exact ⟨hs.1, fun d hd => hs.2 d (mem_of_mem_take hd)⟩
    simp [tokenOf, hword]

lemma isNumberTail_take {last : Char} (h : isNumberTail last cs) (n : Nat) :
    isNumberTail last (cs.take n) := by
  induction cs generalizing last n with
  | nil => simp [isNumberTail]
  | cons c cs ih =>
    cases n with
    | zero => rfl
    | succ n =>
      rw [isNumberTail, Bool.and_eq_true] at h
      rw [take_succ_cons, isNumberTail, Bool.and_eq_true]
      exact ⟨h.1, ih h.2 n⟩

lemma isToken_number (hc : c.isDigit) (hcs : isNumberTail c cs) :
    IsToken (c :: cs) (.number (String.ofList (c :: cs))) := by
  have hletter : isLetter c = false := by
    by_contra h
    rw [Bool.not_eq_false] at h
    rw [isDigit_of_isLetter h] at hc
    cases hc
  have hnumber : ∀ ds, isNumberTail c ds →
      tokenOf (c :: ds) = some (.number (String.ofList (c :: ds))) := by
    intro ds hds
    simp [tokenOf, isWord, isNumber, hletter, hc, hds]
  refine ⟨hnumber cs hcs, fun n hn _ => ?_⟩
  obtain ⟨m, rfl⟩ : ∃ m, n = m + 1 := ⟨n - 1, by omega⟩
  rw [take_succ_cons, hnumber _ (isNumberTail_take hcs m)]
  rfl

/-! ## Texts -/

/-- A text is cut into tokens, whatever follows that extends no token. -/
def Lexes (s : List Char) (ts : List Token) : Prop :=
  ∀ cs, Ends cs → lexFrom [] (s ++ cs) = (lexFrom [] cs).map (ts ++ ·)

lemma Lexes.lex {s : String} {ts : List Token} (h : Lexes s.toList ts) : lex s = some ts := by
  have hall := h [] (by simp [Ends])
  rw [append_nil] at hall
  simp [CText.lex, hall, lexFrom, emit_nil]

lemma lexes_nil : Lexes [] [] := fun cs _ => by simp

lemma Lexes.blank (h : Lexes s ts) : Lexes (' ' :: s) ts := by
  intro cs hcs
  rw [cons_append, lex_blank, h cs hcs]

/-- A token in front of a text that does not extend it. -/
lemma Lexes.token {t : Token} (hw : IsToken w t) (hne : w ≠ []) (hs : Lexes s ts)
    (hstop : s = [] ∨ Stops w s) : Lexes (w ++ s) (t :: ts) := by
  intro cs hcs
  have hstops : Stops w (s ++ cs) := by
    cases s with
    | nil => exact hcs.stops hne
    | cons c s => exact hstop.resolve_left (by simp)
  rw [append_assoc, lex_token hw hne hstops, hs cs hcs, Option.map_map]
  rfl

/-- A text in front of another that extends no token. -/
lemma Lexes.append {u : List Char} {us : List Token} (hs : Lexes s ts) (hu : Lexes u us)
    (hends : Ends u) : Lexes (s ++ u) (ts ++ us) := by
  intro cs hcs
  have hends' : Ends (u ++ cs) := by
    cases u with
    | nil => exact hcs
    | cons c u => exact hends
  have hjoin : (ts ++ ·) ∘ (us ++ ·) = (ts ++ us ++ ·) := by
    funext rest
    simp
  rw [append_assoc, hs _ hends', hu cs hcs, Option.map_map, hjoin]

end FormKernel.CText
