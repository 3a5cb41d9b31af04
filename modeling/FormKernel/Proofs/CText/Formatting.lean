import FormKernel.CText.Format
import FormKernel.Proofs.CText.Grammar
import FormKernel.Proofs.List

/-!
# Reading back the text of expressions

The text of an expression is read as one tree, and this is the tree of the expression: brackets
stand wherever the operators of C would group otherwise.  Sums and products of several operands
group to the left, a negative literal is read as a negated positive one, and a complex literal as a
sum.

Literals are written with sixteen significant digits.  Not all floating-point numbers can be told
from their neighbours by so many digits, so the constants that are read need not have the values
that were written.
-/

namespace FormKernel.CText

open Kernel FormKernel.Decimal List

/-! ## Trees of expressions -/

/-- Whether a number is written with a minus sign. -/
def isNegative (x : Float) : Bool :=
  match decode x with
  | .infinite negative | .zero negative | .finite negative _ => negative
  | .nan => false

def wholeValue : Whole → Int
  | .int n | .word _ _ n => n
  | _ => 0

/-- A tree behind a minus sign, if there is one. -/
def signed (negative : Bool) (T : Tree) : Tree := if negative then .unary "-" T else T

/-- The type that decides about the name of a function. -/
def callType (t : Target) : List Expr → NumberType
  | [] => t.scalar
  | a :: _ => if a.dtype == some .real then t.real else t.scalar

/-- The tree of a literal, given the values of literals without their signs. -/
def literalTree (value : Float → ℚ) (x : Float) : Tree :=
  signed (isNegative x) (.constant (.real (value x)))

/-- Operands one after the other, grouped to the left. -/
def leftNested (op : String) : List Tree → Tree
  | [] => default
  | T :: Ts => Ts.foldl (.binary op) T

mutual

/-- The tree of an expression, given the values of literals without their signs. -/
def treeOf (t : Target) (value : Float → ℚ) : Expr → Tree
  | .float x => literalTree value x
  | .complex re im =>
    .binary "+" (literalTree value re) (.binary "*" (.name "I") (literalTree value im))
  | .int n => signed (wholeValue n < 0) (.constant (.whole (wholeValue n).natAbs))
  | .symbol s => .name s.name
  | .multiIndex _ _ _ flat => treeOf t value flat
  | .neg a => .unary "-" (treeOf t value a)
  | .not a => .unary "!" (treeOf t value a)
  | .binary op a b => .binary op.sign (treeOf t value a) (treeOf t value b)
  | .nary op _ _ args => leftNested op.sign (treesOf t value args)
  | .call f args => .call (.name ((mathName? (callType t args) f).getD f)) (treesOf t value args)
  | .access s indices => (treesOf t value indices).foldl .access (.name s.name)
  | .conditional c y n => .conditional (treeOf t value c) (treeOf t value y) (treeOf t value n)
  | .nan _ | .assign .. => default

def treesOf (t : Target) (value : Float → ℚ) : List Expr → List Tree
  | [] => []
  | e :: es => treeOf t value e :: treesOf t value es

end

/-- Whether an expression is a literal with a minus sign. -/
def isNegativeLiteral : Expr → Bool
  | .float x => isNegative x
  | .int n => wholeValue n < 0
  | _ => false

/-- A number that is neither infinite nor none at all. -/
def IsFinite (x : Float) : Prop :=
  match decode x with
  | .zero _ | .finite .. => True
  | _ => False

/-- A name that is not a reserved word. -/
def IsIdentifier (s : String) : Prop := isWord s.toList = true ∧ s ∉ reservedWords

def IsWhole : Whole → Prop
  | .int n | .word _ _ n => n.natAbs < Nat.pow 10 digitLimit
  | _ => False

mutual

/-- Expressions with a text that can be read: all literals are finite numbers, names are names of C,
    functions are known for the type of their arguments, sums and accesses have operands, no literal
    with a minus sign is negated, and several indices stand together only as one index of an
    array. -/
def Writable (t : Target) (index : Bool) : Expr → Prop
  | .float x => IsFinite x
  | .complex re im => IsFinite re ∧ IsFinite im
  | .int n => IsWhole n
  | .symbol s => IsIdentifier s.name
  | .multiIndex _ _ _ flat => index = true ∧ Writable t true flat
  | .neg a => Writable t false a ∧ isNegativeLiteral a = false
  | .not a => Writable t false a
  | .binary _ a b => Writable t false a ∧ Writable t false b
  | .nary _ _ _ args => args ≠ [] ∧ AllWritable t false args
  | .call f args =>
    (mathName? (callType t args) f).isSome = true ∧ IsIdentifier f ∧ AllWritable t false args
  | .access s indices => IsIdentifier s.name ∧ indices ≠ [] ∧ AllWritable t true indices
  | .conditional c y n => Writable t false c ∧ Writable t false y ∧ Writable t false n
  | .nan _ | .assign .. => False

/-- Expressions that can all be read. -/
def AllWritable (t : Target) (index : Bool) : List Expr → Prop
  | [] => True
  | e :: es => Writable t index e ∧ AllWritable t index es

end

instance (x : Float) : Decidable (IsFinite x) :=
  decidable_of_iff ((decode x matches .zero _ | .finite ..) = true) (by
    unfold IsFinite
    split <;> simp)

instance (s : String) : Decidable (IsIdentifier s) := inferInstanceAs (Decidable (_ ∧ _))

instance : (n : Whole) → Decidable (IsWhole n)
  | .int _ | .word .. => inferInstanceAs (Decidable (_ < _))
  | .bool _ | .real _ => .isFalse id

mutual

def decideWritable (t : Target) (index : Bool) : (e : Expr) → Decidable (Writable t index e)
  | .float x => inferInstanceAs (Decidable (IsFinite x))
  | .complex re im => inferInstanceAs (Decidable (IsFinite re ∧ IsFinite im))
  | .int n => inferInstanceAs (Decidable (IsWhole n))
  | .symbol s => inferInstanceAs (Decidable (IsIdentifier s.name))
  | .multiIndex _ _ _ flat => @instDecidableAnd _ _ _ (decideWritable t true flat)
  | .neg a => @instDecidableAnd _ _ (decideWritable t false a) _
  | .not a => decideWritable t false a
  | .binary _ a b => @instDecidableAnd _ _ (decideWritable t false a) (decideWritable t false b)
  | .nary _ _ _ args => @instDecidableAnd _ _ _ (decideAllWritable t false args)
  | .call _ args =>
    @instDecidableAnd _ _ _ (@instDecidableAnd _ _ _ (decideAllWritable t false args))
  | .access _ indices =>
    @instDecidableAnd _ _ _ (@instDecidableAnd _ _ _ (decideAllWritable t true indices))
  | .conditional c y n => @instDecidableAnd _ _ (decideWritable t false c)
      (@instDecidableAnd _ _ (decideWritable t false y) (decideWritable t false n))
  | .nan _ => .isFalse id
  | .assign .. => .isFalse id

def decideAllWritable (t : Target) (index : Bool) :
    (es : List Expr) → Decidable (AllWritable t index es)
  | [] => .isTrue trivial
  | e :: es => @instDecidableAnd _ _ (decideWritable t index e) (decideAllWritable t index es)

end

instance (t : Target) (index : Bool) (e : Expr) : Decidable (Writable t index e) :=
  decideWritable t index e

/-! ## Literals -/

/-- The value of a number rounded to sixteen digits, without its sign. -/
def sixteenValue (x : Float) : ℚ :=
  match decode x with
  | .finite _ b => (b.rounded 16).value
  | _ => 0

/-- A literal is a numeral behind a minus sign, if there is one. -/
lemma toList_sixteenText {x : Float} (hx : IsFinite x) :
    ∃ cs, (sixteenText x).toList = (if isNegative x then ['-'] else []) ++ cs ∧
      IsNumeral cs (sixteenValue x) := by
  unfold IsFinite at hx
  unfold sixteenText isNegative sixteenValue
  cases hdecode : decode x with
  | nan | infinite negative => simp [hdecode] at hx
  | zero negative =>
    have hzero := isNumeral_point (allDigits_zeros 1) (by simp) (allDigits_zeros 1) (by simp) .none
    refine ⟨['0', '.', '0'], ?_, hzero.congr rfl (by simp [Nat.ofDigitChars])⟩
    cases negative <;> decide
  | finite negative b =>
    refine ⟨_, ?_, isNumeral_text (b.rounded 16) (l := .sixteen) rfl⟩
    cases negative <;> simp [Decoded.text]

variable {cs : List Char} {q : ℚ} {ts : List Token} {e : Expr} {t : Target} {p l : Nat} {s : String}

lemma IsNumeral.isToken (h : IsNumeral cs q) : IsToken cs (.number (String.ofList cs)) := by
  obtain ⟨c, ds, rfl, hc, hds⟩ := h.number
  exact isToken_number hc hds

lemma IsNumeral.ne_nil (h : IsNumeral cs q) : cs ≠ [] := by
  obtain ⟨c, ds, rfl, -⟩ := h.number
  simp

/-- A sign does not extend a number that ends in a digit. -/
lemma IsNumeral.stops_plus (h : IsNumeral cs q) (rest : List Char) : Stops cs ('+' :: rest) := by
  have hlast : (cs.getLast h.ne_nil).isDigit = true := h.last _ (getLast?_eq_some_getLast h.ne_nil)
  have hexponent : ['e', 'E', 'p', 'P'].contains (cs.getLast h.ne_nil) = false := by
    have hletters : ∀ a ∈ ['e', 'E', 'p', 'P'], a.isDigit = false := by simp
    by_contra hmem
    rw [Bool.not_eq_false, contains_iff_mem] at hmem
    rw [hletters _ hmem] at hlast
    cases hlast
  have hnumber : continuesNumber (cs.getLast h.ne_nil) '+' = false := by
    simp only [continuesNumber, hexponent, Bool.and_false, Bool.or_false]
    decide
  refine .cons
    (tokenOf_eq_none (isWord_concat h.ne_nil (by decide)) (isNumber_concat h.ne_nil hnumber)
    fun hmark => ?_) rest
  obtain ⟨c, ds, rfl, hc, -⟩ := h.number
  have hlone : isLone c := by simp [isLone, isWordChar_of_isDigit hc]
  simpa using eq_singleton_of_isLone hmark (c := c) (by simp) hlone

/-- The tokens of a literal, in front of a text that extends no number. -/
lemma lexes_literal {x : Float} (hx : IsFinite x) :
    ∃ ts, Derives 2 ts (literalTree sixteenValue x) ∧
      (∃ c cs, (sixteenText x).toList = c :: cs ∧ (isLone c ∨ c = '-' ∧ isNegative x)) ∧
      ∀ {s us}, Lexes s us → (s = [] ∨ ∃ s', s = '+' :: s') →
        Lexes ((sixteenText x).toList ++ s) (ts ++ us) := by
  obtain ⟨cs, hcs, hnumeral⟩ := toList_sixteenText hx
  have hconstant : Derives 0 [.number (String.ofList cs)] (.constant (.real (sixteenValue x))) :=
    .constant hnumeral.constant
  have hlexes : ∀ {s us}, Lexes s us → (s = [] ∨ ∃ s', s = '+' :: s') →
      Lexes (cs ++ s) (.number (String.ofList cs) :: us) := by
    intro s us hs hstop
    refine .token hnumeral.isToken hnumeral.ne_nil hs (hstop.imp_right ?_)
    rintro ⟨s', rfl⟩
    exact hnumeral.stops_plus s'
  obtain ⟨c, ds, rfl, hc, -⟩ := hnumeral.number
  have hlone : isLone c := by simp [isLone, isWordChar_of_isDigit hc]
  unfold literalTree signed
  rw [hcs]
  cases isNegative x with
  | false =>
    exact ⟨[.number (String.ofList (c :: ds))], hconstant.mono (by decide) (by decide),
      ⟨c, ds, rfl, .inl hlone⟩, fun hs hstop => hlexes hs hstop⟩
  | true =>
    refine ⟨[.mark "-", .number (String.ofList (c :: ds))],
      .unary (by decide) (hconstant.mono (by decide) (by decide)),
      ⟨'-', c :: ds, rfl, .inr ⟨rfl, rfl⟩⟩, fun hs hstop => ?_⟩
    have hminus : IsToken ['-'] (.mark "-") := isToken_mark (p := "-") (by decide)
    have hpair : tokenOf (['-'] ++ [c]) = none := tokenOf_pair (by decide) (by decide) (.inr hlone)
    have hlex := Lexes.token hminus (by simp) (hlexes hs hstop) (.inr (.cons hpair _))
    exact hlex

/-! ## Operands -/

/-- The level of the operators of a binding strength. -/
def levelOf (precedence : Nat) : Nat :=
  if precedence ≤ 3 then 2 else if precedence ≤ 8 then precedence - 1 else precedence

def exprLevel : Expr → Nat
  | .multiIndex .. => topLevel
  | e => levelOf e.precedence

/-- An expression has a text with its tokens. -/
structure Written (t : Target) (e : Expr) (s : String) (ts : List Token) : Prop where
  lexes : Lexes s.toList ts
  derives : Derives (exprLevel e) ts (treeOf t sixteenValue e)
  /-- The first character does not extend a minus sign in front of an operand of it. -/
  opens : e.precedence < 3 → exprLevel e ≠ topLevel →
    ∃ c cs, s.toList = c :: cs ∧ (isLone c ∨ c = '-' ∧ isNegativeLiteral e)

lemma lexes_brackets {s : List Char} (h : Lexes s ts) :
    Lexes ('(' :: (s ++ [')'])) (.mark "(" :: (ts ++ [.mark ")"])) := by
  have hopen : IsToken ['('] (.mark "(") := isToken_mark (p := "(") (by decide)
  have hclose : IsToken [')'] (.mark ")") := isToken_mark (p := ")") (by decide)
  have hend : Lexes [')'] [.mark ")"] := .token hclose (by simp) lexes_nil (.inl rfl)
  refine .token hopen (by simp) (h.append hend (by simp [Ends])) (.inr ?_)
  intro c _
  exact tokenOf_pair (by decide) (by decide) (.inl (by decide))

lemma exprLevel_of_writable (he : Writable t false e) : exprLevel e = levelOf e.precedence := by
  cases e with
  | multiIndex => exact absurd he.1 (by decide)
  | _ => rfl

lemma levelOf_le (hp : p ≤ 13) : levelOf p ≤ topLevel := by
  unfold levelOf topLevel
  split <;> [skip; split] <;> omega

lemma levelOf_pred (hp : 4 ≤ p) (hp' : p ≤ 13) :
    levelOf p - 1 + 1 = levelOf p ∧ levelOf p - 1 < topLevel := by
  unfold levelOf topLevel
  split <;> [skip; split] <;> omega

lemma levelOf_lt {q : Nat} (hpq : p < q) (hq : 4 ≤ q) : levelOf p ≤ levelOf q - 1 := by
  unfold levelOf
  split <;> split <;> (try split) <;> (try split) <;> omega

lemma exprLevel_le (e : Expr) : exprLevel e ≤ topLevel := by
  have hprecedence : e.precedence ≤ 13 := by
    cases e with
    | binary op => cases op <;> simp [Expr.precedence, BinaryOp.precedence]
    | nary op => cases op <;> simp [Expr.precedence, NaryOp.precedence]
    | _ => simp [Expr.precedence]
  cases e with
  | multiIndex => exact Nat.le_refl _
  | _ => exact levelOf_le hprecedence

/-- Brackets stand around an operand that binds too weakly. -/
lemma Written.operand (h : Written t e s ts) (he : Writable t false e) (hl : ∀ q < p, levelOf q ≤ l)
    (hl' : l ≤ topLevel) :
    ∃ ts', Lexes (operandText p e.precedence s).toList ts' ∧
      Derives l ts' (treeOf t sixteenValue e) := by
  unfold operandText
  by_cases hp : e.precedence ≥ p
  · rw [if_pos hp]
    have htop := h.derives.mono (exprLevel_le e) (Nat.le_refl _)
    refine ⟨_, ?_, (Derives.brackets htop).mono (Nat.zero_le _) hl'⟩
    simpa [inBrackets] using lexes_brackets h.lexes
  · rw [if_neg hp]
    refine ⟨ts, h.lexes, h.derives.mono ?_ hl'⟩
    rw [exprLevel_of_writable he]
    exact hl _ (by omega)

/-- The first character of an operand of a unary operator. -/
lemma Written.operand_opens (h : Written t e s ts) (he : Writable t false e) :
    ∃ c cs, (operandText 3 e.precedence s).toList = c :: cs ∧
      (isLone c ∨ c = '-' ∧ isNegativeLiteral e) := by
  unfold operandText
  by_cases hp : e.precedence ≥ 3
  · rw [if_pos hp]
    exact ⟨'(', s.toList ++ [')'], by simp [inBrackets], .inl (by decide)⟩
  · rw [if_neg hp]
    refine h.opens (by omega) ?_
    rw [exprLevel_of_writable he, levelOf, if_pos (by omega)]
    decide

/-- An operator in front of its operand. -/
lemma written_unary (h : Written t e s ts) (he : Writable t false e) (m : Char) (op : String)
    (hop : op.toList = [m]) (hmem : op ∈ unaryMarks)
    (hm : isWordChar m = false ∧ (m == '.') = false)
    (hsign : isNegativeLiteral e → tokenOf [m, '-'] = none) :
    ∃ us, Lexes (op ++ operandText 3 e.precedence s).toList us ∧
      Derives 2 us (.unary op (treeOf t sixteenValue e)) := by
  obtain ⟨ts', hlexes, hderives⟩ := h.operand he (p := 3) (l := 2)
    (fun q hq => by rw [levelOf, if_pos (by omega)]) (by decide)
  obtain ⟨c, cs, hcs, hc⟩ := h.operand_opens he
  have hstops : Stops [m] (operandText 3 e.precedence s).toList := by
    rw [hcs]
    refine .cons ?_ cs
    rcases hc with hlone | ⟨rfl, hneg⟩
    · exact tokenOf_pair hm.1 hm.2 (.inr hlone)
    · exact hsign hneg
  have htoken : IsToken [m] (.mark op) := by
    have hmarks : ∀ op ∈ unaryMarks, op ∈ punctuators := by decide
    rw [← hop]
    exact isToken_mark (hmarks op hmem)
  refine ⟨.mark op :: ts', ?_, .unary hmem hderives⟩
  rw [String.toList_append, hop]
  exact .token htoken (by simp) hlexes (.inr hstops)

lemma lexes_operator {l r : List Char} {ls rs : List Token} {op : String} (hl : Lexes l ls)
    (hop : op ∈ punctuators) (hr : Lexes r rs) :
    Lexes (l ++ ' ' :: (op.toList ++ ' ' :: r)) (ls ++ .mark op :: rs) := by
  have htoken := isToken_mark hop
  have hne : op.toList ≠ [] := by
    intro hnil
    rw [hnil] at htoken
    cases htoken.token
  have hends : Ends (' ' :: r) := by simp [Ends]
  exact hl.append (.blank (.token htoken hne hr.blank (.inr (hends.stops hne)))) (by simp [Ends])

/-- Operands with one operator between them. -/
lemma written_chain {op : String} (hop : op ∈ punctuators) (hlevel : binaryLevel op = some (l + 1))
    {s : List Char} {T : Tree} (hs : Lexes s ts) (hT : Derives (l + 1) ts T)
    (ps : List (List Char × List Token × Tree))
    (hps : ∀ p ∈ ps, Lexes p.1 p.2.1 ∧ Derives l p.2.1 p.2.2) :
    ∃ us, Lexes (s ++ ps.flatMap fun p => ' ' :: (op.toList ++ ' ' :: p.1)) us ∧
      Derives (l + 1) us ((ps.map (·.2.2)).foldl (.binary op) T) := by
  induction ps generalizing s ts T with
  | nil => exact ⟨ts, by simpa using hs, hT⟩
  | cons p ps ih =>
    rw [forall_mem_cons] at hps
    obtain ⟨⟨hlexes, hderives⟩, hps⟩ := hps
    obtain ⟨us, hus, hchain⟩ := ih (lexes_operator hs hop hlexes) (.binary hlevel hT hderives) hps
    refine ⟨us, ?_, by simpa using hchain⟩
    simpa using hus

lemma intercalate_cons (sep x : List Char) (xs : List (List Char)) :
    sep.intercalate (x :: xs) = x ++ xs.flatMap (sep ++ ·) := by
  induction xs generalizing x with
  | nil => simp
  | cons y ys ih => simp [intercalate_cons_cons, ih]

/-- Indices between square brackets. -/
lemma intercalate_indices {xs : List (List Char)} (hne : xs ≠ []) :
    '[' :: ([']', '['].intercalate xs ++ [']']) = xs.flatMap fun x => '[' :: (x ++ [']']) := by
  obtain ⟨x, ys, rfl⟩ := exists_cons_of_ne_nil hne
  rw [intercalate_cons]
  induction ys generalizing x with
  | nil => simp
  | cons y ys ih =>
    have hnext := ih y
    simp at hnext ⊢
    rw [hnext]

lemma written_indices (ps : List (List Char × List Token × Tree))
    (hps : ∀ p ∈ ps, Lexes p.1 p.2.1 ∧ Derives topLevel p.2.1 p.2.2) :
    ∃ us, Lexes (ps.flatMap fun p => '[' :: (p.1 ++ [']'])) us ∧
      ∀ {ts T}, Derives 1 ts T → Derives 1 (ts ++ us) ((ps.map (·.2.2)).foldl .access T) := by
  induction ps with
  | nil => exact ⟨[], lexes_nil, fun h => by simpa using h⟩
  | cons p ps ih =>
    rw [forall_mem_cons] at hps
    obtain ⟨⟨hlexes, hderives⟩, hps⟩ := hps
    obtain ⟨us, hus, hchain⟩ := ih hps
    have hopen : IsToken ['['] (.mark "[") := isToken_mark (p := "[") (by decide)
    have hclose : IsToken [']'] (.mark "]") := isToken_mark (p := "]") (by decide)
    have hlone : ∀ m ∈ ['[', ']'], ∀ c, tokenOf [m, c] = none := by
      intro m hm c
      have hmarks : ∀ m ∈ ['[', ']'], isWordChar m = false ∧ (m == '.') = false ∧
          isLone m = true := by
        simp only [mem_cons, not_mem_nil, or_false, forall_eq_or_imp, forall_eq]
        decide
      obtain ⟨hword, hpoint, hm⟩ := hmarks m hm
      exact tokenOf_pair hword hpoint (.inl hm)
    have hrest := Lexes.token hclose (by simp) hus (.inr fun c _ => hlone ']' (by decide) c)
    have hindex := Lexes.token hopen (by simp) (hlexes.append hrest (by simp [Ends]))
      (.inr fun c _ => hlone '[' (by decide) c)
    refine ⟨_, by simpa using hindex, fun {ts T} h => ?_⟩
    have hnext := hchain (.access h hderives)
    simpa using hnext

lemma written_arguments (ps : List (List Char × List Token × Tree))
    (hps : ∀ p ∈ ps, Lexes p.1 p.2.1 ∧ Derives topLevel p.2.1 p.2.2) :
    ∃ us, Lexes ([',', ' '].intercalate (ps.map (·.1))) us ∧ DerivesList us (ps.map (·.2.2)) := by
  induction ps with
  | nil => exact ⟨[], lexes_nil, .nil⟩
  | cons p ps ih =>
    rw [forall_mem_cons] at hps
    obtain ⟨⟨hlexes, hderives⟩, hps⟩ := hps
    obtain ⟨us, hus, hargs⟩ := ih hps
    cases ps with
    | nil => exact ⟨p.2.1, by simpa using hlexes, .one hderives⟩
    | cons q ps =>
      have hcomma : IsToken [','] (.mark ",") := isToken_mark (p := ",") (by decide)
      have hblank : Ends (' ' :: [',', ' '].intercalate ((q :: ps).map (·.1))) := by simp [Ends]
      have hrest := Lexes.token hcomma (by simp) hus.blank (.inr (hblank.stops (by simp)))
      refine ⟨_, ?_, .more hderives hargs (by simp)⟩
      have hall := hlexes.append hrest (by simp [Ends])
      rw [map_cons, map_cons, intercalate_cons_cons]
      simpa using hall

/-- A name in front of a text that no word is extended by. -/
lemma lexes_identifier (hs : IsIdentifier s) {u : List Char} {us : List Token} (hu : Lexes u us)
    (hstop : u = [] ∨ ∃ c u', u = c :: u' ∧ isWordChar c = false) :
    Lexes (s.toList ++ u) (.name s :: us) := by
  have hne : s.toList ≠ [] := by
    intro hnil
    have hword := hs.1
    rw [hnil] at hword
    cases hword
  refine .token (isToken_word hs.1 hs.2) hne hu (hstop.imp_right ?_)
  rintro ⟨c, u', rfl, hc⟩
  exact .cons (tokenOf_word_concat hs.1 hc) u'

lemma isLone_of_identifier (hs : IsIdentifier s) : ∃ c cs, s.toList = c :: cs ∧
    isLone c = true := by
  have hword := hs.1
  cases hcs : s.toList with
  | nil =>
    rw [hcs] at hword
    cases hword
  | cons c cs =>
    rw [hcs, isWord, Bool.and_eq_true] at hword
    exact ⟨c, cs, rfl, by simp [isLone, isWordChar_of_isLetter hword.1]⟩

/-! ## Names of functions -/

/-- The functions of a table have names of C. -/
lemma isIdentifier_functionName {table : List (String × String)} {ending f : String}
    (htable : ∀ e ∈ table, IsIdentifier (e.2 ++ ending)) (hf : IsIdentifier f) :
    IsIdentifier (functionName table ending f) := by
  have hbessel : ∀ e ∈ besselFunctions, isWord e.2.toList = true ∧ e.2 ∉ reservedWords := by
    decide
  unfold functionName
  split
  · next g hg => exact hbessel _ (mem_of_lookup_eq_some hg)
  · split
    · next g hg => exact htable _ (mem_of_lookup_eq_some hg)
    · exact hf

/-- The functions of C have names of C. -/
lemma isIdentifier_mathName {type : NumberType} {f g : String} (hf : IsIdentifier f)
    (h : mathName? type f = some g) : IsIdentifier g := by
  have htables : ∀ table ∈ [realFunctions, complexFunctions], ∀ ending ∈ ["", "f"], ∀ e ∈ table,
      isWord (e.2 ++ ending).toList = true ∧ e.2 ++ ending ∉ reservedWords := by decide
  unfold mathName? at h
  split at h <;> cases h
  · exact isIdentifier_functionName (htables realFunctions (by simp) "" (by simp)) hf
  · exact isIdentifier_functionName (htables realFunctions (by simp) "f" (by simp)) hf
  · exact isIdentifier_functionName (htables complexFunctions (by simp) "" (by simp)) hf
  · exact isIdentifier_functionName (htables complexFunctions (by simp) "f" (by simp)) hf

/-! ## Expressions -/

lemma treesOf_eq_map (t : Target) (value : Float → ℚ) (es : List Expr) :
    treesOf t value es = es.map (treeOf t value) := by
  induction es with
  | nil => rw [treesOf, map_nil]
  | cons e es ih => rw [treesOf, ih, map_cons]

lemma AllWritable.mem {index : Bool} {es : List Expr} (h : AllWritable t index es) (he : e ∈ es) :
    Writable t index e := by
  induction es with
  | nil => cases he
  | cons e' es ih =>
    rcases mem_cons.1 he with rfl | he
    · exact h.1
    · exact ih h.2 he

/-- The texts of expressions with their tokens and trees. -/
lemma exists_texts {ps : List (Expr × String × List Token)}
    (f : Expr × String × List Token → List Char)
    (h : ∀ p ∈ ps, ∃ ts, Lexes (f p) ts ∧ Derives l ts (treeOf t sixteenValue p.1)) :
    ∃ qs : List (List Char × List Token × Tree), qs.map (·.1) = ps.map f ∧
      qs.map (·.2.2) = treesOf t sixteenValue (ps.map (·.1)) ∧
      ∀ q ∈ qs, Lexes q.1 q.2.1 ∧ Derives l q.2.1 q.2.2 := by
  rw [treesOf_eq_map]
  induction ps with
  | nil => exact ⟨[], rfl, rfl, by simp⟩
  | cons p ps ih =>
    rw [forall_mem_cons] at h
    obtain ⟨ts, hlexes, hderives⟩ := h.1
    obtain ⟨qs, htexts, htrees, hqs⟩ := ih h.2
    refine ⟨(f p, ts, treeOf t sixteenValue p.1) :: qs, ?_, ?_, ?_⟩
    · rw [map_cons, map_cons, htexts]
    · rw [map_cons, map_cons, map_cons, htrees]
    · exact forall_mem_cons.2 ⟨⟨hlexes, hderives⟩, hqs⟩

lemma exists_texts_whole {ps : List (Expr × String × List Token)}
    (h : ∀ p ∈ ps, Written t p.1 p.2.1 p.2.2) :
    ∃ qs : List (List Char × List Token × Tree), qs.map (·.1) = ps.map (·.2.1.toList) ∧
      qs.map (·.2.2) = treesOf t sixteenValue (ps.map (·.1)) ∧
      ∀ q ∈ qs, Lexes q.1 q.2.1 ∧ Derives topLevel q.2.1 q.2.2 :=
  exists_texts (·.2.1.toList) fun p hp => ⟨p.2.2, (h p hp).lexes,
    (h p hp).derives.mono (exprLevel_le p.1) (Nat.le_refl _)⟩

lemma sign_mem_punctuators (op : BinaryOp) : op.sign ∈ punctuators := by cases op <;> decide

lemma binaryLevel_sign (op : BinaryOp) :
    binaryLevel op.sign = some (levelOf op.precedence - 1 + 1) := by cases op <;> rfl

lemma nary_sign (op : NaryOp) : op.sign ∈ punctuators ∧
    binaryLevel op.sign = some (levelOf op.precedence - 1 + 1) := by
  cases op
  · exact ⟨by decide, rfl⟩
  · exact ⟨by decide, rfl⟩

/-- An operator binds less strongly than an operand without brackets. -/
lemma operand_level (hp : 4 ≤ p) : ∀ q < p, levelOf q ≤ levelOf p - 1 :=
  fun _ hq => levelOf_lt hq hp

lemma wholeText_eq {k : Int} (h : k.natAbs < Nat.pow 10 digitLimit) :
    wholeText k = .ok (toString k) := by
  unfold wholeText
  exact if_pos h

lemma text_whole {n : Whole} (hn : IsWhole n) : n.text = .ok (toString (wholeValue n)) := by
  cases n with
  | int k | word bits signed k =>
    simp only [Whole.text, Whole.numeral, Numeral.text, Numeral.plain, wholeValue]
    exact wholeText_eq hn
  | bool b | real x => exact absurd hn id

lemma lexes_whole (k : Int) :
    ∃ ts, Lexes (toString k).toList ts ∧
      Derives 2 ts (signed (decide (k < 0)) (.constant (.whole k.natAbs))) ∧
      ∃ c cs, (toString k).toList = c :: cs ∧ (isLone c ∨ c = '-' ∧ k < 0) := by
  have hlexes : Lexes (toString k.natAbs).toList [.number (toString k.natAbs)] := by
    have hne : (toString k.natAbs).toList ≠ [] := by
      rw [toList_toString]
      exact Nat.toDigits_ne_nil
    simpa using Lexes.token (isToken_toString k.natAbs) hne lexes_nil (.inl rfl)
  have hderives : Derives 2 [.number (toString k.natAbs)] (.constant (.whole k.natAbs)) :=
    (Derives.constant (constant?_toString _)).mono (Nat.zero_le _) (by decide)
  obtain ⟨c, cs, hcs, hlone⟩ : ∃ c cs, (toString k.natAbs).toList = c :: cs ∧ isLone c := by
    obtain ⟨c, cs, hcs⟩ := exists_cons_of_ne_nil (Nat.toDigits_ne_nil (b := 10) (n := k.natAbs))
    have hdigit := allDigits_toDigits k.natAbs c (by simp [hcs])
    exact ⟨c, cs, by rw [toList_toString, hcs], by simp [isLone, isWordChar_of_isDigit hdigit]⟩
  by_cases hk : k < 0
  · have htext : (toString k).toList = '-' :: (toString k.natAbs).toList := by
      have hrepr : toString k = "-" ++ toString k.natAbs := by
        have habs : (-k).toNat = k.natAbs := by omega
        rw [← habs]
        exact Int.repr_eq_if.trans (if_neg (by omega))
      rw [hrepr, String.toList_append]
      rfl
    have hminus : IsToken ['-'] (.mark "-") := isToken_mark (p := "-") (by decide)
    have hstops : Stops ['-'] (toString k.natAbs).toList := by
      rw [hcs]
      exact .cons (tokenOf_pair (by decide) (by decide) (.inr hlone)) cs
    refine ⟨[.mark "-", .number (toString k.natAbs)], ?_, ?_, '-', _, htext, .inr ⟨rfl, hk⟩⟩
    · rw [htext]
      exact Lexes.token hminus (by simp) hlexes (.inr hstops)
    · rw [decide_eq_true hk]
      exact .unary (by decide) hderives
  · have htext : toString k = toString k.natAbs := by
      have habs : k.toNat = k.natAbs := by omega
      rw [← habs]
      exact Int.repr_eq_if.trans (if_pos (by omega))
    rw [htext, decide_eq_false hk]
    exact ⟨_, hlexes, hderives, c, cs, hcs, .inl hlone⟩

lemma lexes_complex {re im : Float} (hre : IsFinite re) (him : IsFinite im) :
    ∃ ts, Lexes (complexLiteral re im).toList ts ∧
      Derives 0 ts (.binary "+" (literalTree sixteenValue re)
        (.binary "*" (.name "I") (literalTree sixteenValue im))) := by
  obtain ⟨rs, hderivesr, -, hlexesr⟩ := lexes_literal hre
  obtain ⟨is, hderivesi, ⟨c, cs, hcs, hc⟩, hlexesi⟩ := lexes_literal him
  have hunit : IsIdentifier "I" := ⟨by decide, by decide⟩
  have htimes : IsToken ['*'] (.mark "*") := isToken_mark (p := "*") (by decide)
  have hplus : IsToken ['+'] (.mark "+") := isToken_mark (p := "+") (by decide)
  have hfactor : Lexes ('*' :: ((sixteenText im).toList ++ [])) (.mark "*" :: (is ++ [])) := by
    refine Lexes.token htimes (by simp) (hlexesi lexes_nil (.inl rfl)) (.inr ?_)
    rw [hcs]
    refine .cons ?_ _
    rcases hc with hlone | ⟨rfl, -⟩
    · exact tokenOf_pair (by decide) (by decide) (.inr hlone)
    · decide
  have hterm := Lexes.token hplus (by simp)
    (lexes_identifier hunit hfactor (.inr ⟨'*', _, rfl, by decide⟩))
    (.inr (.cons (tokenOf_pair (by decide) (by decide) (.inr (by decide))) _))
  have hsum := hlexesr hterm (.inr ⟨_, rfl⟩)
  refine ⟨_, ?_,
    .brackets (Derives.mono (l := 4) (.binary (l := 3) rfl (hderivesr.mono (by decide) (by decide))
    (.binary (l := 2) rfl (Derives.name.mono (by decide) (by decide)) hderivesi)) (by decide)
      (by decide))⟩
  simpa [complexLiteral] using lexes_brackets hsum

section Forms

attribute [local simp] formatExpr formatExprs

/-- An expression has a text that is read as its tree. -/
def IsWritten (t : Target) (e : Expr) : Prop := ∃ s ts, formatExpr t e = .ok s ∧ Written t e s ts

/-- Expressions have texts that are read as their trees. -/
def AreWritten (t : Target) (es : List Expr) : Prop :=
  ∃ ps : List (Expr × String × List Token), ps.map (·.1) = es ∧
    formatExprs t es = .ok (ps.map (·.2.1)) ∧ ∀ p ∈ ps, Written t p.1 p.2.1 p.2.2

lemma isWritten_float {x : Float} (hx : IsFinite x) : IsWritten t (.float x) := by
  obtain ⟨ts, hderives, hopens, hlexes⟩ := lexes_literal hx
  refine ⟨sixteenText x, ts, by rw [formatExpr], ?_, hderives, fun _ _ => hopens⟩
  simpa using hlexes lexes_nil (.inl rfl)

lemma isWritten_complex {re im : Float} (hre : IsFinite re) (him : IsFinite im) :
    IsWritten t (.complex re im) := by
  obtain ⟨ts, hlexes, hderives⟩ := lexes_complex hre him
  obtain ⟨cs, hopens⟩ : ∃ cs, (complexLiteral re im).toList = '(' :: cs := by
    simp [complexLiteral]
  exact ⟨complexLiteral re im, ts, by rw [formatExpr], hlexes,
    hderives.mono (Nat.zero_le _) (exprLevel_le _), fun _ _ => ⟨'(', cs, hopens, .inl (by decide)⟩⟩

lemma isWritten_int {n : Whole} (hn : IsWhole n) : IsWritten t (.int n) := by
  obtain ⟨ts, hlexes, hderives, c, cs, hcs, hc⟩ := lexes_whole (wholeValue n)
  refine ⟨toString (wholeValue n), ts, by rw [formatExpr, text_whole hn], hlexes, hderives,
    fun _ _ => ⟨c, cs, hcs, ?_⟩⟩
  simpa [isNegativeLiteral] using hc

lemma isWritten_symbol {s : Symbol} (hs : IsIdentifier s.name) : IsWritten t (.symbol s) := by
  obtain ⟨c, cs, hcs, hlone⟩ := isLone_of_identifier hs
  refine ⟨s.name, [.name s.name], by rw [formatExpr], ?_,
    Derives.name.mono (Nat.zero_le _) (exprLevel_le _), fun _ _ => ⟨c, cs, hcs, .inl hlone⟩⟩
  simpa using lexes_identifier hs lexes_nil (.inl rfl)

lemma isWritten_multiIndex {tag : Tag} {symbols : List Expr} {sizes : List Int} {flat : Expr}
    (h : IsWritten t flat) : IsWritten t (.multiIndex tag symbols sizes flat) := by
  obtain ⟨s, ts, hs, hwritten⟩ := h
  exact ⟨s, ts, by rw [formatExpr, hs], hwritten.lexes,
    hwritten.derives.mono (exprLevel_le flat) (Nat.le_refl _), fun _ h => absurd rfl h⟩

variable {a : Expr} {args : List Expr}

lemma isWritten_neg (h : IsWritten t a) (ha : Writable t false a)
    (hsign : isNegativeLiteral a = false) : IsWritten t (.neg a) := by
  obtain ⟨s, ts, hs, hwritten⟩ := h
  obtain ⟨us, hlexes, hderives⟩ := written_unary hwritten ha '-' "-" rfl
    (by decide) (by decide) (fun hneg => by rw [hsign] at hneg; cases hneg)
  refine ⟨"-" ++ operandText 3 a.precedence s, us, ?_, hlexes, hderives,
    fun h => absurd h (Nat.lt_irrefl 3)⟩
  rw [formatExpr, hs]
  rfl

lemma isWritten_not (h : IsWritten t a) (ha : Writable t false a) : IsWritten t (.not a) := by
  obtain ⟨s, ts, hs, hwritten⟩ := h
  obtain ⟨us, hlexes, hderives⟩ := written_unary hwritten ha '!' "!" rfl
    (by decide) (by decide) (fun _ => by decide)
  refine ⟨"!" ++ operandText 3 a.precedence s, us, ?_, hlexes, hderives,
    fun h => absurd h (Nat.lt_irrefl 3)⟩
  rw [formatExpr, hs]
  rfl

lemma isWritten_binary {op : BinaryOp} {b : Expr} (h : IsWritten t a) (h' : IsWritten t b)
    (ha : Writable t false a) (hb : Writable t false b) : IsWritten t (.binary op a b) := by
  obtain ⟨l, ls, hl, hwrittenl⟩ := h
  obtain ⟨r, rs, hr, hwrittenr⟩ := h'
  have hop : 4 ≤ op.precedence ∧ op.precedence ≤ 12 := by cases op <;> decide
  obtain ⟨hsucc, hlt⟩ := levelOf_pred hop.1 (by omega)
  obtain ⟨ls', hlexesl, hderivesl⟩ := hwrittenl.operand ha (operand_level hop.1) hlt.le
  obtain ⟨rs', hlexesr, hderivesr⟩ := hwrittenr.operand hb (operand_level hop.1) hlt.le
  have hlexes := lexes_operator hlexesl (sign_mem_punctuators op) hlexesr
  have hderives : Derives (levelOf op.precedence - 1 + 1) _ _ :=
    .binary (binaryLevel_sign op) (.next hlt hderivesl) hderivesr
  rw [hsucc] at hderives
  refine ⟨operandText op.precedence a.precedence l ++ " " ++ op.sign ++ " " ++
    operandText op.precedence b.precedence r, _, ?_, ?_, hderives,
    fun h => absurd (show op.precedence < 3 from h) (by omega)⟩
  · rw [formatExpr, hl, hr]
    rfl
  · simpa using hlexes

lemma isWritten_nary {op : NaryOp} {tag : Tag} {dtype : DType} (h : AreWritten t args)
    (hargs : AllWritable t false args)
    (hne : args ≠ []) : IsWritten t (.nary op tag dtype args) := by
  obtain ⟨ps, rfl, hps, hall⟩ := h
  have hop : 4 ≤ op.precedence ∧ op.precedence ≤ 12 := by cases op <;> decide
  obtain ⟨hsucc, hlt⟩ := levelOf_pred hop.1 (by omega)
  obtain ⟨hmem, hsign⟩ := nary_sign op
  obtain ⟨qs, htexts, htrees, hqs⟩ := exists_texts (t := t) (l := levelOf op.precedence - 1)
    (fun p => (operandText op.precedence p.1.precedence p.2.1).toList) fun p hp =>
      (hall p hp).operand (hargs.mem (mem_map_of_mem hp)) (operand_level hop.1) hlt.le
  obtain ⟨q, qs, rfl⟩ := exists_cons_of_ne_nil (l := qs) (by
    rintro rfl
    exact hne (by simpa using htexts.symm))
  rw [forall_mem_cons] at hqs
  obtain ⟨us, hlexes, hderives⟩ := written_chain hmem hsign hqs.1.1 (.next hlt hqs.1.2) qs hqs.2
  rw [hsucc] at hderives
  refine ⟨(" " ++ op.sign ++ " ").intercalate
    (ps.map fun p => operandText op.precedence p.1.precedence p.2.1), us, ?_, ?_, ?_,
    fun h => absurd (show op.precedence < 3 from h) (by omega)⟩
  · have hzip : ((ps.map (·.1)).zip (ps.map (·.2.1))).map
        (fun p => operandText op.precedence p.1.precedence p.2) =
        ps.map fun p => operandText op.precedence p.1.precedence p.2.1 := by
      rw [zip_map', map_map]
      rfl
    rw [formatExpr, hps, ← hzip]
    rfl
  · have htext : (((" " ++ op.sign ++ " ").intercalate
        (ps.map fun p => operandText op.precedence p.1.precedence p.2.1))).toList =
        q.1 ++ qs.flatMap fun p => ' ' :: (op.sign.toList ++ ' ' :: p.1) := by
      have hlist :
          (ps.map fun p => operandText op.precedence p.1.precedence p.2.1).map String.toList =
          q.1 :: qs.map (·.1) := by
        rw [map_map]
        exact htexts.symm
      rw [String.toList_intercalate, hlist, intercalate_cons, flatMap_map]
      simp
    rwa [htext]
  · have htree : treeOf t sixteenValue (.nary op tag dtype (ps.map (·.1))) =
        (qs.map (·.2.2)).foldl (.binary op.sign) q.2.2 := by
      rw [treeOf, ← htrees]
      rfl
    rwa [htree]

lemma formatExpr_call {f g : String} {texts : List String}
    (hg : mathName? (callType t args) f = some g) (htexts : formatExprs t args = .ok texts) :
    formatExpr t (.call f args) = .ok (g ++ "(" ++ ", ".intercalate texts ++ ")") := by
  cases args with
  | nil | cons a args =>
    rw [callType] at hg
    simp only [formatExpr, hg, htexts]
    rfl

lemma isWritten_call {f : String} (h : AreWritten t args)
    (hname : (mathName? (callType t args) f).isSome = true) (hf : IsIdentifier f) :
    IsWritten t (.call f args) := by
  obtain ⟨ps, rfl, hps, hall⟩ := h
  obtain ⟨qs, htexts, htrees, hqs⟩ := exists_texts_whole hall
  obtain ⟨us, hlexes, hderives⟩ := written_arguments qs hqs
  obtain ⟨g, hg⟩ := Option.isSome_iff_exists.1 hname
  have hident := isIdentifier_mathName hf hg
  obtain ⟨c, cs, hcs, hlone⟩ := isLone_of_identifier hident
  have hlexes' := lexes_identifier hident (lexes_brackets hlexes) (.inr ⟨'(', _, rfl, by decide⟩)
  have hderives' := Derives.call (Derives.name (s := g) |>.next (by decide)) hderives
  have htext : (g ++ "(" ++ ", ".intercalate (ps.map (·.2.1)) ++ ")").toList =
      g.toList ++ '(' :: ([',', ' '].intercalate (qs.map (·.1)) ++ [')']) := by
    simp [htexts, String.toList_intercalate, Function.comp_def]
  have htree : treeOf t sixteenValue (.call f (ps.map (·.1))) = .call (.name g)
      (qs.map (·.2.2)) := by
    rw [treeOf, hg, htrees]
    rfl
  refine ⟨_, .name g :: .mark "(" :: (us ++ [.mark ")"]), formatExpr_call hg hps, ?_, ?_, ?_⟩
  · rwa [htext]
  · rw [htree]
    exact hderives'.mono (m := 2) (by decide) (by decide)
  · rw [htext, hcs]
    exact fun _ _ => ⟨c, _, rfl, .inl hlone⟩

lemma isWritten_access {s : Symbol} {indices : List Expr} (h : AreWritten t indices)
    (hs : IsIdentifier s.name) (hne : indices ≠ []) : IsWritten t (.access s indices) := by
  obtain ⟨ps, rfl, hps, hall⟩ := h
  obtain ⟨qs, htexts, htrees, hqs⟩ := exists_texts_whole hall
  obtain ⟨us, hlexes, hderives⟩ := written_indices qs hqs
  obtain ⟨c, cs, hcs, hlone⟩ := isLone_of_identifier hs
  have hqs' : qs.map (·.1) ≠ [] := by
    rw [htexts]
    simpa using hne
  have hjoin := intercalate_indices hqs'
  rw [flatMap_map] at hjoin
  have hlexes' := lexes_identifier hs hlexes (.inr ⟨'[', _, hjoin.symm, by decide⟩)
  have hderives' := hderives (Derives.name (s := s.name) |>.next (by decide))
  have htext : (s.name ++ "[" ++ "][".intercalate (ps.map (·.2.1)) ++ "]").toList =
      s.name.toList ++ qs.flatMap fun p => '[' :: (p.1 ++ [']']) := by
    rw [← hjoin, htexts]
    simp [String.toList_intercalate, Function.comp_def]
  have htree : treeOf t sixteenValue (.access s (ps.map (·.1))) =
      (qs.map (·.2.2)).foldl .access (.name s.name) := by
    rw [treeOf, htrees]
  refine ⟨s.name ++ "[" ++ "][".intercalate (ps.map (·.2.1)) ++ "]", .name s.name :: us,
    ?_, ?_, ?_, ?_⟩
  · rw [formatExpr, hps]
    rfl
  · rwa [htext]
  · rw [htree]
    exact hderives'.mono (m := 2) (by decide) (by decide)
  · rw [htext, hcs]
    exact fun _ _ => ⟨c, _, rfl, .inl hlone⟩

lemma isWritten_conditional {c y n : Expr} (h : IsWritten t c) (h' : IsWritten t y)
    (h'' : IsWritten t n) (hc : Writable t false c) (hy : Writable t false y)
    (hn : Writable t false n) : IsWritten t (.conditional c y n) := by
  obtain ⟨c', cs, hc', hwrittenc⟩ := h
  obtain ⟨y', ys, hy', hwritteny⟩ := h'
  obtain ⟨n', ns, hn', hwrittenn⟩ := h''
  have hlevel := operand_level (p := 13) (by decide)
  obtain ⟨cs', hlexesc, hderivesc⟩ := hwrittenc.operand hc hlevel (by decide)
  obtain ⟨ys', hlexesy, hderivesy⟩ := hwritteny.operand hy hlevel (by decide)
  obtain ⟨ns', hlexesn, hderivesn⟩ := hwrittenn.operand hn hlevel (by decide)
  have hlexes := lexes_operator hlexesc (show "?" ∈ punctuators by decide)
    (lexes_operator hlexesy (show ":" ∈ punctuators by decide) hlexesn)
  refine ⟨operandText 13 c.precedence c' ++ " ? " ++ operandText 13 y.precedence y' ++ " : " ++
    operandText 13 n.precedence n', _, ?_, ?_, .conditional hderivesc (.next (by decide) hderivesy)
    (.next (by decide) hderivesn), fun h => absurd (show 13 < 3 from h) (by decide)⟩
  · rw [formatExpr, hc', hy', hn']
    rfl
  · simpa using hlexes

end Forms

mutual

theorem written (t : Target) (index : Bool) : ∀ {e : Expr}, Writable t index e → IsWritten t e
  | .float _, he => isWritten_float he
  | .complex .., he => isWritten_complex he.1 he.2
  | .int _, he => isWritten_int he
  | .symbol _, he => isWritten_symbol he
  | .multiIndex .., he => isWritten_multiIndex (written t true he.2)
  | .neg _, he => isWritten_neg (written t false he.1) he.1 he.2
  | .not _, he => isWritten_not (written t false he) he
  | .binary .., he => isWritten_binary (written t false he.1) (written t false he.2) he.1 he.2
  | .nary .., he => isWritten_nary (writtenAll t false he.2) he.2 he.1
  | .call .., he => isWritten_call (writtenAll t false he.2.2) he.1 he.2.1
  | .access .., he => isWritten_access (writtenAll t true he.2.2) he.1 he.2.1
  | .conditional .., he => isWritten_conditional (written t false he.1) (written t false he.2.1)
      (written t false he.2.2) he.1 he.2.1 he.2.2

theorem writtenAll (t : Target) (index : Bool) : ∀ {es : List Expr}, AllWritable t index es →
    AreWritten t es
  | [], _ => ⟨[], rfl, by rw [formatExprs]; rfl, by simp⟩
  | e :: es, he => by
    obtain ⟨s, ts, hs, hwritten⟩ := written t index he.1
    obtain ⟨ps, rfl, hps, hall⟩ := writtenAll t index he.2
    refine ⟨(e, s, ts) :: ps, rfl, ?_, forall_mem_cons.2 ⟨hwritten, hall⟩⟩
    rw [formatExprs, hs, hps]
    rfl

end

end FormKernel.CText
