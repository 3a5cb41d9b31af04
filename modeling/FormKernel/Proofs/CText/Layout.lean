import FormKernel.Proofs.CText.Formatting
import FormKernel.Proofs.CText.Lines
import FormKernel.Proofs.Text.Bracketed

/-!
# Layout of statements

The text of every statement is empty or ends with the end of a line, so what is indented keeps its
content, and the text of a statement says what its parts say.
-/

namespace FormKernel.CText

open Decimal Kernel List

variable {t : Target} {cs : List Char} {ls : List (List Char)} {c : Char}

/-! ## Texts of numbers and names -/

/-- All characters of a text are of a kind. -/
def Made (p : Char → Bool) (s : String) : Prop := s.toList.all p = true

instance (p : Char → Bool) (s : String) : Decidable (Made p s) :=
  inferInstanceAs (Decidable (_ = _))

/-- Characters that are neither braces nor begin a comment. -/
def isFlat (c : Char) : Bool := isPlain c && c != '/'

def dividers : List Char := ['\x7b', '\x7d', '/', ',', ';', ' ', '\t', '\n']

/-- What the text of a number is made of. -/
def isInk (c : Char) : Bool := !dividers.contains c

section Made

variable {p q : Char → Bool} {s r : String}

@[simp] lemma made_append : Made p (s ++ r) ↔ Made p s ∧ Made p r := by simp [Made]

lemma made_ofList (h : ∀ c ∈ cs, p c) : Made p (String.ofList cs) := by simpa [Made] using h

lemma Made.mem (h : Made p s) (hc : c ∈ s.toList) : p c := all_eq_true.1 h c hc

lemma Made.mono (h : Made p s) (hpq : ∀ c, p c → q c) : Made q s :=
  all_eq_true.2 fun c hc => hpq c (h.mem hc)

lemma Made.plain (h : Made isFlat s) : Made isPlain s :=
  h.mono fun _ hc => (Bool.and_eq_true_iff.1 hc).1

lemma made_intercalate {xs : List String} (hsep : Made p s) (h : ∀ x ∈ xs, Made p x) :
    Made p (s.intercalate xs) := by
  cases xs with
  | nil => rfl
  | cons x xs =>
    refine all_eq_true.2 fun c hc => ?_
    rw [String.toList_intercalate, map_cons, intercalate_cons, mem_append, mem_flatMap] at hc
    obtain hc | ⟨y, hy, hc⟩ := hc
    · exact (h x mem_cons_self).mem hc
    · obtain ⟨y, hmem, rfl⟩ := mem_map.1 hy
      exact (mem_append.1 hc).elim hsep.mem (h y (mem_cons_of_mem _ hmem)).mem

lemma isFlat_iff : isFlat c ↔ c ≠ '\x7b' ∧ c ≠ '\x7d' ∧ c ≠ '/' := by
  simp [isFlat, isPlain, and_assoc]

lemma isInk_iff : isInk c ↔ c ∉ dividers := by simp [isInk]

lemma isInk_of_isWordChar (h : isWordChar c) : isInk c := by
  refine isInk_iff.2 fun hc => ?_
  fin_cases hc <;> exact absurd h (by decide)

lemma isFlat_of_isInk (h : isInk c) : isFlat c := isFlat_iff.2 (by simp_all [isInk_iff, dividers])

lemma Made.flat (h : Made isInk s) : Made isFlat s := h.mono fun _ => isFlat_of_isInk

lemma made_identifier (h : IsIdentifier s) : Made isWordChar s := by
  have hword := h.1
  unfold Made
  cases hs : s.toList with
  | nil => rfl
  | cons c cs =>
    rw [hs, isWord, Bool.and_eq_true] at hword
    rw [all_cons, isWordChar_of_isLetter hword.1, hword.2]
    rfl

lemma made_name (h : IsIdentifier s) : Made isFlat s :=
  ((made_identifier h).mono fun _ => isInk_of_isWordChar).flat

lemma made_toString (n : Nat) : Made isInk (toString n) :=
  all_eq_true.2 fun c hc => isInk_of_isWordChar (isWordChar_of_isDigit
    (allDigits_toDigits n c (toList_toString n ▸ hc)))

lemma made_toString_int (n : Int) : Made isInk (toString n) := by
  refine all_eq_true.2 fun c hc => isInk_iff.2 fun hmem => ?_
  fin_cases hmem <;> exact Text.notMem_toString (by decide) (by decide) n hc

lemma made_exponentText (e : Int) : Made isInk (exponentText e) := by
  have hdigits := made_toString e.natAbs
  unfold exponentText
  generalize toString e.natAbs = n at hdigits ⊢
  dsimp only
  split <;> split <;> simp +decide [hdigits]

lemma made_digits (d : Digits) (l : Layout) : Made isInk (d.text l) := by
  have hdigits := made_toString d.coefficient
  have hzeros (n : Nat) : Made isInk (zeros n) :=
    made_ofList fun c hc => eq_of_mem_replicate hc ▸ by decide
  have hpoint : ∀ b : Bool, Made isInk (if b then ".0" else "") := by decide
  unfold Digits.text Digits.positional Digits.scientific
  generalize toString d.coefficient = body at hdigits ⊢
  have htake (n : Nat) : Made isInk (String.ofList (body.toList.take n)) :=
    made_ofList fun c hc => hdigits.mem (mem_of_mem_take hc)
  have hdrop (n : Nat) : Made isInk (String.ofList (body.toList.drop n)) :=
    made_ofList fun c hc => hdigits.mem (mem_of_mem_drop hc)
  dsimp only
  split
  · split
    · simp [hdigits, hzeros, hpoint]
    · split <;> simp +decide [hdigits, hzeros, htake, hdrop]
  · split <;> simp +decide only [made_append, htake, hdrop, made_exponentText, and_self]

lemma made_decoded (d : Decoded) (l : Layout)
    (choose : Binary → Digits) : Made isInk (d.text l choose) := by
  cases d with
  | nan => exact (by decide : Made isInk "nan")
  | infinite negative =>
    have hsign : ∀ b : Bool, Made isInk (if b then "-inf" else "inf") := by decide
    exact hsign negative
  | zero negative =>
    have hzero : ∀ b p : Bool, Made isInk ((if b then "-0" else "0") ++ if p then ".0" else "") :=
      by
      decide
    exact hzero negative l.pointZero
  | finite negative b => exact made_append.2 ⟨by cases negative <;> decide, made_digits _ l⟩

lemma made_complexText (re im : Decoded) : Made isInk (complexText re im) := by
  have hsign : ∀ b : Bool, Made isInk (if b then "" else "+") := by decide
  unfold complexText
  dsimp only
  split <;> simp +decide only [made_append, made_decoded, hsign, and_self]

lemma made_complexLiteral (re im : Float) : Made isInk (complexLiteral re im) := by
  simp +decide [complexLiteral, sixteenText, made_decoded]

lemma made_whole {n : Whole} (h : n.text = .ok s) : Made isInk s := by
  have hint {k : Int} (hk : wholeText k = .ok s) : Made isInk s := by
    unfold wholeText at hk
    split at hk
    · cases hk
      exact made_toString_int k
    · cases hk
  cases n with
  | int k | word bits signed k =>
    simp only [Whole.text, Whole.numeral, Numeral.text, Numeral.plain] at h
    exact hint h
  | bool b =>
    cases h
    cases b <;> decide
  | real x =>
    cases h
    exact made_decoded ..

lemma made_typeName {type : Option DType} (h : t.typeName type = .ok s) : Made isFlat s := by
  have hc {u : NumberType} {given : String} (hu : u.cType given = .ok s) : Made isFlat s := by
    unfold NumberType.cType at hu
    split at hu <;> cases hu <;> decide
  unfold Target.typeName at h
  split at h
  · exact hc h
  · exact hc h
  · cases h
    decide
  · cases h
    decide
  · cases h
  · cases h

end Made

lemma made_entry {x : Entry} (hx : ∀ s, x = .text s → Made isInk s) : Made isInk x.kernelText := by
  cases x with
  | half x | extended x | double x | single x => exact made_decoded ..
  | complexDouble re im => exact made_complexLiteral re im
  | complexSingle re im => exact made_complexText ..
  | int n => exact made_toString_int n
  | bool b => cases b <;> decide
  | text s => exact hx s rfl
  | none => decide

/-! ## Expressions -/

mutual

/-- Expressions with a text: names are names of C, whole numbers can be written, functions are known
    for the type of their arguments, and no operand is an assignment. -/
def Printed (t : Target) : Expr → Prop
  | .float _ | .complex .. | .nan _ => True
  | .int n => ∃ s, n.text = .ok s
  | .symbol s => IsIdentifier s.name
  | .multiIndex _ _ _ a | .neg a | .not a => Printed t a
  | .binary _ a b => Printed t a ∧ Printed t b
  | .nary _ _ _ args => PrintedAll t args
  | .call f args =>
    IsIdentifier f ∧ (mathName? (callType t args) f).isSome ∧ PrintedAll t args
  | .access s indices => IsIdentifier s.name ∧ PrintedAll t indices
  | .conditional c y n => Printed t c ∧ Printed t y ∧ Printed t n
  | .assign .. => False

def PrintedAll (t : Target) : List Expr → Prop
  | [] => True
  | e :: es => Printed t e ∧ PrintedAll t es

end

lemma Made.operand {s : String} (h : Made isPlain s)
    (p q : Nat) : Made isPlain (operandText p q s) := by
  unfold operandText inBrackets
  split <;> simp +decide [h]

lemma made_sign (op : BinaryOp) : Made isPlain op.sign := by cases op <;> decide

mutual

theorem exists_plain (t : Target) : ∀ {e : Expr}, Printed t e →
    ∃ s, formatExpr t e = .ok s ∧ Made isPlain s
  | .float x, _ => ⟨sixteenText x, by rw [formatExpr], (made_decoded ..).flat.plain⟩
  | .complex re im, _ => ⟨_, by rw [formatExpr], (made_complexLiteral re im).flat.plain⟩
  | .nan _, _ => ⟨_, by rw [formatExpr], by decide⟩
  | .int n, h => by
    obtain ⟨s, hs⟩ := h
    exact ⟨s, by rw [formatExpr, hs], (made_whole hs).flat.plain⟩
  | .symbol s, h => ⟨s.name, by rw [formatExpr], (made_name h).plain⟩
  | .multiIndex _ _ _ a, h => by
    obtain ⟨s, hs, hmade⟩ := exists_plain t (e := a) h
    exact ⟨s, by rw [formatExpr, hs], hmade⟩
  | .neg a, h => by
    obtain ⟨s, hs, hmade⟩ := exists_plain t (e := a) h
    exact ⟨_, by rw [formatExpr, hs]; rfl, by simp +decide [hmade.operand]⟩
  | .not a, h => by
    obtain ⟨s, hs, hmade⟩ := exists_plain t (e := a) h
    exact ⟨_, by rw [formatExpr, hs]; rfl, by simp +decide [hmade.operand]⟩
  | .binary op a b, h => by
    obtain ⟨l, hl, hleft⟩ := exists_plain t h.1
    obtain ⟨r, hr, hright⟩ := exists_plain t h.2
    refine ⟨_, by rw [formatExpr, hl, hr]; rfl, ?_⟩
    simp +decide [hleft.operand, hright.operand, made_sign]
  | .nary op _ _ args, h => by
    obtain ⟨ss, hss, hmade⟩ := exists_plains t h
    refine ⟨_, by rw [formatExpr, hss]; rfl,
      made_intercalate (by cases op <;> decide) fun x hx => ?_⟩
    obtain ⟨⟨e, s⟩, hmem, rfl⟩ := mem_map.1 hx
    exact (hmade s (of_mem_zip hmem).2).operand ..
  | .call f args, h => by
    obtain ⟨ss, hss, hmade⟩ := exists_plains t h.2.2
    obtain ⟨g, hg⟩ := Option.isSome_iff_exists.1 h.2.1
    have hname := (made_name (isIdentifier_mathName h.1 hg)).plain
    have hargs : Made isPlain (", ".intercalate ss) := made_intercalate (by decide) hmade
    exact ⟨_, formatExpr_call hg hss, by simp +decide [hname, hargs]⟩
  | .access s indices, h => by
    obtain ⟨ss, hss, hmade⟩ := exists_plains t h.2
    have hargs : Made isPlain ("][".intercalate ss) := made_intercalate (by decide) hmade
    exact ⟨_, by rw [formatExpr, hss]; rfl, by simp +decide [(made_name h.1).plain, hargs]⟩
  | .conditional c y n, h => by
    obtain ⟨c', hc, hcond⟩ := exists_plain t h.1
    obtain ⟨y', hy, hyes⟩ := exists_plain t h.2.1
    obtain ⟨n', hn, hno⟩ := exists_plain t h.2.2
    refine ⟨_, by rw [formatExpr, hc, hy, hn]; rfl, ?_⟩
    simp +decide [hcond.operand, hyes.operand, hno.operand]
  | .assign .., h => absurd h id

theorem exists_plains (t : Target) : ∀ {es : List Expr}, PrintedAll t es →
    ∃ ss, formatExprs t es = .ok ss ∧ ∀ s ∈ ss, Made isPlain s
  | [], _ => ⟨[], by rw [formatExprs], by simp⟩
  | e :: es, h => by
    obtain ⟨s, hs, hmade⟩ := exists_plain t h.1
    obtain ⟨ss, hss, hall⟩ := exists_plains t h.2
    exact ⟨s :: ss, by rw [formatExprs, hs, hss]; rfl, forall_mem_cons.2 ⟨hmade, hall⟩⟩

end

/-! ## Initializers -/

/-- A text without comments whose braces are in pairs. -/
def Closes (s : String) : Prop := '/' ∉ s.toList ∧ ∀ d, nesting d s.toList = some d

section Closes

variable {s r : String}

lemma Made.closes (h : Made isFlat s) : Closes s :=
  ⟨fun hmem => (isFlat_iff.1 (h.mem hmem)).2.2 rfl, nesting_of_plain fun _ hc => h.plain.mem hc⟩

lemma Closes.append (hs : Closes s) (hr : Closes r) : Closes (s ++ r) := by
  refine ⟨by simp [hs.1, hr.1], fun d => ?_⟩
  rw [String.toList_append, nesting_append, hs.2]
  exact hr.2 d

lemma Closes.block (h : Closes s) : Closes ("\x7b" ++ s ++ "\x7d") := by
  refine ⟨by simp [h.1], fun d => ?_⟩
  have hinner : nesting (d + 1) (s.toList ++ ['\x7d']) = some d := by
    rw [nesting_append, h.2]
    rfl
  simpa [nesting] using hinner

lemma closes_intercalate {xs : List String} (hs : Closes s) (h : ∀ x ∈ xs, Closes x) :
    Closes (s.intercalate xs) := by
  induction xs with
  | nil => exact Made.closes rfl
  | cons x xs ih =>
    cases xs with
    | nil => simpa using h x mem_cons_self
    | cons y ys =>
      rw [String.intercalate_cons_cons]
      exact ((h x mem_cons_self).append hs).append (ih fun z hz => h z (mem_cons_of_mem _ hz))

lemma closes_initializer (shape : List Nat) {xs : List Entry} (h : ∀ x ∈ xs, ∀ s, x ≠ .text s) :
    Closes (initializer shape xs) := by
  fun_induction initializer shape xs with
  | case1 => exact Closes.block (s := "") (Made.closes rfl)
  | case2 xs n =>
    refine (closes_intercalate (Made.closes (by decide)) fun s hs => ?_).block
    obtain ⟨x, hx, rfl⟩ := mem_map.1 hs
    exact (made_entry fun s hs => absurd hs (h x hx s)).flat.closes
  | case3 xs n rest hrest width ih =>
    refine (closes_intercalate (Made.closes (by decide)) fun s hs => ?_).block
    obtain ⟨i, -, rfl⟩ := mem_map.1 hs
    exact ih i fun x hx => h x (mem_of_mem_drop (mem_of_mem_take hx))

end Closes

/-! ## Statements -/

/-- A text without line ends, and not joined with the next line. -/
def OneLine (s : String) : Prop := Made (· != '\n') s ∧ s.toList.getLast? ≠ some '\\'

mutual

/-- Statements with a text: assignments, declarations with a value, declarations of arrays,
    comments of one line, and lists, loops and sections of such statements. -/
def Laid (t : Target) : Stmt → Prop
  | .expr (.assign op target value) => (op = .set ∨ op = .add) ∧ Printed t target ∧ Printed t value
  | .list body => LaidAll t body
  | .comment text => OneLine text
  | .variableDecl _ s (some value) =>
    IsIdentifier s.name ∧ (∃ type, t.typeName s.dtype = .ok type) ∧ Printed t value
  | .arrayDecl _ s _ values const =>
    IsIdentifier s.name ∧ (∃ type, t.typeName s.dtype = .ok type) ∧
      (values = none → const = false) ∧ ∀ v ∈ values, ∀ x ∈ v.data.toList, ∀ s, x ≠ .text s
  | .loop index lower upper body =>
    (Printed t index ∧ Printed t lower ∧ Printed t upper) ∧ LaidAll t body
  | .part _ name body declarations input output _ =>
    (OneLine name ∧ ∀ s ∈ input ++ output, IsIdentifier s.name) ∧ LaidAll t declarations ∧
      LaidAll t body
  | .expr _ | .declaration _ | .variableDecl _ _ none => False

def LaidAll (t : Target) : List Stmt → Prop
  | [] => True
  | s :: ss => Laid t s ∧ LaidAll t ss

end

/-- The text of an outcome; it is empty if there is none. -/
def textOf (x : Outcome String) : String := x.toOption.getD ""

/-- The line in front of the body of a loop. -/
def loopLine (t : Target) (index lower upper : Expr) : String :=
  loopHead (textOf (formatExpr t index)) (textOf (formatExpr t lower)) (textOf (formatExpr t upper))

mutual

/-- The lines of a statement as its parts give them: the body of a loop or section stands between
    lines with a brace, and nothing else is added. -/
def layout (t : Target) : Stmt → List (List Char)
  | .list body => layouts t body
  | .loop index lower upper body =>
    content (loopLine t index lower upper).toList ++ ['\x7b'] :: (layouts t body ++ [['\x7d']])
  | .part _ name body declarations input output _ =>
    content (sectionHead name input output).toList ++ layouts t declarations ++
      (if body.isEmpty then [] else ['\x7b'] :: (layouts t body ++ [['\x7d']])) ++
      content ruler.toList
  | s => content (textOf (formatStmt t s)).toList

/-- The lines of statements, one after the other. -/
def layouts (t : Target) : List Stmt → List (List Char)
  | [] => []
  | s :: ss => layout t s ++ layouts t ss

end

def braced (ts : Option (List Token)) : Option (List Token) :=
  joined (some [.mark "\x7b"]) (joined ts (some [.mark "\x7d"]))

mutual

/-- The tokens of a statement as its parts give them: comments have none, and those of the body of a
    loop or section stand between braces. -/
def stmtTokens (t : Target) : Stmt → Option (List Token)
  | .list body => stmtsTokens t body
  | .comment _ => some []
  | .loop index lower upper body =>
    joined (tokens (loopLine t index lower upper)) (braced (stmtsTokens t body))
  | .part _ _ body declarations .. =>
    joined (stmtsTokens t declarations)
    (if body.isEmpty then some [] else braced (stmtsTokens t body))
  | s => tokens (textOf (formatStmt t s))

/-- The tokens of statements, one after the other. -/
def stmtsTokens (t : Target) : List Stmt → Option (List Token)
  | [] => some []
  | s :: ss => joined (stmtTokens t s) (stmtsTokens t ss)

end

/-- A text and what its lines hold. -/
structure Formatted (text : String) (ls : List (List Char)) (ts : Option (List Token)) : Prop where
  ends : EndsLine text.toList
  lines : content text.toList = ls
  tokens : lexLines ls = ts
  paired : Paired ls

section Formatted

variable {s r : String} {ms : List (List Char)} {ts us : Option (List Token)}

lemma formatted_line (hends : EndsLine s.toList) (hpaired : Paired (content s.toList)) :
    Formatted s (content s.toList) (tokens s) :=
  ⟨hends, rfl, lexLines_trim _, hpaired⟩

lemma Formatted.append (hs : Formatted s ls ts) (hr : Formatted r ms us) :
    Formatted (s ++ r) (ls ++ ms) (joined ts us) where
  ends := by
    rw [String.toList_append]
    exact hs.ends.append hr.ends
  lines := by rw [String.toList_append, hs.ends.content_append, hs.lines, hr.lines]
  tokens := by rw [lexLines_append, hs.tokens, hr.tokens]
  paired := hs.paired.append hr.paired

lemma formatted_nil : Formatted "" [] (some []) := ⟨.inl rfl, rfl, rfl, fun _ => rfl⟩

lemma formatted_comment (h : Made (· != '\n') s) :
    Formatted (commentLine s) (content (commentLine s).toList) (some []) := by
  have hline : '\n' ∉ "// ".toList ++ s.toList := by
    rw [mem_append, not_or]
    exact ⟨by decide, fun hmem => by simpa using h.mem hmem⟩
  have htext : (commentLine s).toList = ("// ".toList ++ s.toList) ++ ['\n'] := by
    simp [commentLine]
  have hcontent : content (commentLine s).toList = ['/' :: '/' :: ' ' :: s.toList] := by
    rw [htext, content_newline, content, splitLines_of_notMem hline]
    rfl
  rw [hcontent]
  refine ⟨.inr ⟨_, htext⟩, hcontent, ?_, fun d => ?_⟩
  · rw [lexLines_cons, uncomment_remark]
    rfl
  · rw [flatMap_cons, uncomment_remark]
    rfl

lemma formatted_ruler : Formatted ruler (content ruler.toList) (some []) :=
  formatted_comment (by decide)

lemma formatted_sectionHead {name : String} {input output : List Symbol} (hname : OneLine name)
    (h : ∀ s ∈ input ++ output, IsIdentifier s.name) :
    Formatted (sectionHead name input output) (content (sectionHead name input output).toList)
      (some []) := by
  have hnames {symbols : List Symbol} (hsub : symbols ⊆ input ++ output) :
      Made (· != '\n') (", ".intercalate (symbols.map (·.name))) := by
    refine made_intercalate (by decide) fun x hx => ?_
    obtain ⟨s, hs, rfl⟩ := mem_map.1 hx
    refine (made_identifier (h s (hsub hs))).mono fun c hc => ?_
    rw [bne_iff_ne]
    rintro rfl
    cases hc
  have hall := ((formatted_ruler.append (formatted_comment
      (made_append.2 ⟨(by decide : Made (· != '\n') "Section: "), hname.1⟩))).append
        (formatted_comment
      (made_append.2 ⟨(by decide : Made (· != '\n') "Inputs: "),
        hnames (subset_append_left ..)⟩))).append
    (formatted_comment
      (made_append.2 ⟨(by decide : Made (· != '\n') "Outputs: "), hnames (subset_append_right ..)⟩))
  rwa [← hall.lines] at hall

lemma lexLines_block (ls : List (List Char)) :
    lexLines (['\x7b'] :: (ls ++ [['\x7d']])) = braced (lexLines ls) := by
  rw [lexLines_cons, lexLines_append]
  rfl

lemma endsLine_concat (s : String) {q : List Char} (h : r.toList = q ++ ['\n']) :
    EndsLine (s ++ r).toList :=
  .inr ⟨s.toList ++ q, by rw [String.toList_append, h, append_assoc]⟩

lemma Formatted.loopBody (h : Formatted s ls ts) :
    Formatted ("\x7b\n" ++ indentLines s ++ "\x7d\n") (['\x7b'] :: (ls ++ [['\x7d']]))
    (braced ts) where
  ends := endsLine_concat _ (q := ['\x7d']) rfl
  lines := by
    have hopen : EndsLine "\x7b\n".toList := .inr ⟨['\x7b'], rfl⟩
    have hends := hopen.append (endsLine_indentLines s)
    rw [String.toList_append, String.toList_append, hends.content_append, hopen.content_append,
      content_indentLines, h.lines]
    rfl
  tokens := by rw [lexLines_block, h.tokens]
  paired := h.paired.block

lemma Formatted.sectionBody (h : Formatted s ls ts) :
    Formatted ("\x7b\n  " ++ indentBehind s ++ "\x7d\n") (['\x7b'] :: (ls ++ [['\x7d']]))
      (braced ts) where
  ends := endsLine_concat _ (q := ['\x7d']) rfl
  lines := by rw [content_indentBehind h.ends, h.lines]
  tokens := by rw [lexLines_block, h.tokens]
  paired := h.paired.block

end Formatted

/-- A statement on a line of its own. -/
lemma formatted_plain {s : String} (h : Made isPlain s) :
    Formatted (s ++ ";\n") (content (s ++ ";\n").toList) (tokens (s ++ ";\n")) :=
  formatted_line (endsLine_concat s (q := [';']) rfl)
    (paired_of_plain fun _ hc => (made_append.2 ⟨h, by decide⟩ : Made isPlain (s ++ ";\n")).mem hc)

lemma formatted_closes {s : String} (h : Closes s) :
    Formatted (s ++ ";\n") (content (s ++ ";\n").toList) (tokens (s ++ ";\n")) := by
  have hall : Closes (s ++ ";\n") := h.append (Made.closes (by decide))
  exact formatted_line (endsLine_concat s (q := [';']) rfl) (paired_of_nesting hall.1 hall.2)

/-- Statements without others in them are laid out as they are written. -/
lemma formatted_leaf {s : Stmt} {text : String} (htext : formatStmt t s = .ok text)
    (h : Formatted text (content text.toList) (tokens text))
    (hlayout : layout t s = content (textOf (formatStmt t s)).toList)
    (htokens : stmtTokens t s = tokens (textOf (formatStmt t s))) :
    ∃ text, formatStmt t s = .ok text ∧ Formatted text (layout t s) (stmtTokens t s) := by
  refine ⟨text, htext, ?_⟩
  rwa [hlayout, htokens, htext]

lemma formatted_assign {op : AssignOp} {target value : Expr} (hop : op = .set ∨ op = .add)
    (htarget : Printed t target) (hvalue : Printed t value) :
    ∃ text, formatStmt t (.expr (.assign op target value)) = .ok text ∧
      Formatted text (content text.toList) (tokens text) := by
  obtain ⟨l, hl, hleft⟩ := exists_plain t htarget
  obtain ⟨r, hr, hright⟩ := exists_plain t hvalue
  have hsign : Made isPlain op.sign := by cases op <;> decide
  have hblank : Made isPlain " " := by decide
  have hmade : Made isPlain (l ++ " " ++ op.sign ++ " " ++ r) :=
    made_append.2
      ⟨made_append.2 ⟨made_append.2 ⟨made_append.2 ⟨hleft, hblank⟩, hsign⟩, hblank⟩, hright⟩
  refine ⟨_, ?_, formatted_plain hmade⟩
  obtain rfl | rfl := hop
  all_goals
    rw [formatStmt, formatExpr, hr, hl]
    rfl

lemma formatted_variableDecl {s : Symbol} {value : Expr} {type : String}
    (hname : IsIdentifier s.name)
    (htype : t.typeName s.dtype = .ok type) (hvalue : Printed t value) (tag : Tag) :
    ∃ text, formatStmt t (.variableDecl tag s (some value)) = .ok text ∧
      Formatted text (content text.toList) (tokens text) := by
  obtain ⟨v, hv, hmade⟩ := exists_plain t hvalue
  have hall : Made isPlain (type ++ " " ++ s.name ++ " = " ++ v) :=
    made_append.2
      ⟨made_append.2 ⟨made_append.2 ⟨made_append.2 ⟨(made_typeName htype).plain, by decide⟩,
      (made_name hname).plain⟩, by decide⟩, hmade⟩
  refine ⟨_, ?_, formatted_plain hall⟩
  rw [formatStmt, hv, htype]
  rfl

lemma made_sizes (sizes : List Int) :
    Made isFlat (String.join (sizes.map fun n => "[" ++ toString n ++ "]")) := by
  refine all_eq_true.2 fun c hc => ?_
  rw [String.toList_join, flatMap_map, mem_flatMap] at hc
  obtain ⟨n, -, hc⟩ := hc
  have hsize : Made isFlat ("[" ++ toString n ++ "]") :=
    made_append.2 ⟨made_append.2 ⟨by decide, (made_toString_int n).flat⟩, by decide⟩
  exact hsize.mem hc

lemma formatted_arrayDecl {s : Symbol} {values : Option Values} {const : Bool} {type : String}
    (hname : IsIdentifier s.name) (htype : t.typeName s.dtype = .ok type)
    (hconst : values = none → const = false)
    (hvalues : ∀ v ∈ values, ∀ x ∈ v.data.toList, ∀ s, x ≠ .text s) (tag : Tag) (sizes : List Int) :
    ∃ text, formatStmt t (.arrayDecl tag s sizes values const) = .ok text ∧
      Formatted text (content text.toList) (tokens text) := by
  have hdecl : Made isFlat (type ++ " " ++ s.name ++
      String.join (sizes.map fun n => "[" ++ toString n ++ "]")) :=
    made_append.2 ⟨made_append.2 ⟨made_append.2 ⟨made_typeName htype, by decide⟩, made_name hname⟩,
      made_sizes sizes⟩
  cases values with
  | none =>
    obtain rfl := hconst rfl
    refine ⟨_, ?_, formatted_closes hdecl.closes⟩
    rw [formatStmt, htype]
    rfl
  | some v =>
    have hhead : Closes (if const then "static const " else "") := by
      cases const <;> exact Made.closes (by decide)
    have hall :=
      ((hhead.append hdecl.closes).append (Made.closes (by decide : Made isFlat " = "))).append
      (closes_initializer v.shape (hvalues v rfl))
    refine ⟨_, ?_, formatted_closes hall⟩
    rw [formatStmt, htype]
    simp only [String.append_assoc]
    rfl

lemma made_loopHead {i lo hi : String} (hindex : Made isPlain i) (hlower : Made isPlain lo)
    (hupper : Made isPlain hi) : Made isPlain (loopHead i lo hi) := by
  have hmarks : ∀ s ∈ ["for (int ", " = ", "; ", " < ", "; ++", ")\n"], Made isPlain s := by decide
  unfold loopHead
  simp [hindex, hlower, hupper, hmarks]

lemma formatted_loopHead {i lo hi : String} (h : Made isPlain (loopHead i lo hi)) :
    Formatted (loopHead i lo hi) (content (loopHead i lo hi).toList)
    (tokens (loopHead i lo hi)) := by
  refine formatted_line ?_ (paired_of_plain fun _ hc => h.mem hc)
  unfold loopHead
  exact endsLine_concat _ (q := [')']) rfl

mutual

/-- The text of a statement says what its parts say. -/
theorem exists_formatted (t : Target) : ∀ {s : Stmt}, Laid t s →
    ∃ text, formatStmt t s = .ok text ∧ Formatted text (layout t s) (stmtTokens t s)
  | .expr (.assign op target value), ⟨hop, htarget, hvalue⟩ => by
    obtain ⟨text, htext, h⟩ := formatted_assign hop htarget hvalue
    exact formatted_leaf htext h rfl rfl
  | .list body, h => exists_formattedAll t h
  | .comment text, h => ⟨_, by rw [formatStmt], formatted_comment h.1⟩
  | .variableDecl tag s (some value), ⟨hname, ⟨type, htype⟩, hvalue⟩ => by
    obtain ⟨text, htext, h⟩ := formatted_variableDecl hname htype hvalue tag
    exact formatted_leaf htext h rfl rfl
  | .arrayDecl tag s sizes values const, ⟨hname, ⟨type, htype⟩, hconst, hvalues⟩ => by
    obtain ⟨text, htext, h⟩ := formatted_arrayDecl hname htype hconst hvalues tag sizes
    exact formatted_leaf htext h rfl rfl
  | .loop index lower upper body, ⟨⟨hindex, hlower, hupper⟩, hbody⟩ => by
    obtain ⟨i, hi, hiplain⟩ := exists_plain t hindex
    obtain ⟨lo, hlo, hloplain⟩ := exists_plain t hlower
    obtain ⟨up, hup, hupplain⟩ := exists_plain t hupper
    obtain ⟨inner, hinner, h⟩ := exists_formattedAll t hbody
    have hline : loopLine t index lower upper = loopHead i lo up := by
      rw [loopLine, hi, hlo, hup]
      rfl
    have hall := (formatted_loopHead (made_loopHead hiplain hloplain hupplain)).append h.loopBody
    refine ⟨_, ?_, by rwa [layout, stmtTokens, hline]⟩
    rw [formatStmt, hlo, hup, hi, hinner]
    simp only [← String.append_assoc]
    rfl
  | .part _ name body declarations input output _, ⟨⟨hname, hsymbols⟩, hdeclarations, hbody⟩ => by
    obtain ⟨decls, hdecls, hd⟩ := exists_formattedAll t hdeclarations
    obtain ⟨inner, hinner, hb⟩ := exists_formattedAll t hbody
    have hhead := (formatted_sectionHead hname hsymbols).append hd
    by_cases hempty : body.isEmpty
    · have hall := hhead.append formatted_ruler
      rw [joined_nil, joined_nil_right] at hall
      refine ⟨_, ?_, by simpa [layout, stmtTokens, hempty] using hall⟩
      rw [formatStmt, hdecls]
      simp only [hempty]
      rfl
    · have hall := (hhead.append hb.sectionBody).append formatted_ruler
      rw [joined_nil, joined_nil_right] at hall
      refine ⟨_, ?_, by simpa [layout, stmtTokens, hempty] using hall⟩
      rw [formatStmt, hdecls, hinner]
      simp only [hempty, ← String.append_assoc]
      rfl

theorem exists_formattedAll (t : Target) : ∀ {ss : List Stmt}, LaidAll t ss →
    ∃ text, formatStmts t ss = .ok text ∧ Formatted text (layouts t ss) (stmtsTokens t ss)
  | [], _ => ⟨"", by rw [formatStmts], formatted_nil⟩
  | s :: ss, h => by
    obtain ⟨text, htext, hs⟩ := exists_formatted t h.1
    obtain ⟨rest, hrest, hss⟩ := exists_formattedAll t h.2
    exact ⟨text ++ rest, by rw [formatStmts, htext, hrest]; rfl, hs.append hss⟩

end

/-- Layout only adds blanks, line ends and braces: a statement has a text that is empty or ends with
    the end of a line, the lines and the tokens of the text are those of its parts, one after the
    other, with braces around the bodies of loops and sections, and its braces are in pairs. -/
theorem formatStmt_layout {s : Stmt} (h : Laid t s) :
    ∃ text, formatStmt t s = .ok text ∧ EndsLine text.toList ∧ content text.toList = layout t s ∧
      tokens text = stmtTokens t s ∧ Balanced text := by
  obtain ⟨text, htext, hs⟩ := exists_formatted t h
  refine ⟨text, htext, hs.ends, hs.lines, ?_, ?_⟩
  · rw [tokens, ← lexLines_trim, ← content, hs.lines, hs.tokens]
  · rw [Balanced, ← nesting_trim, ← content, hs.lines]
    exact hs.paired 0

/-- A section with a table and a loop around a comment and an assignment. -/
def scaledRow : Stmt :=
  .part 1 "Scaled row"
    [.loop (.symbol ⟨"i", some .int⟩) (.int (.int 0)) (.int (.int 2))
      [.comment "\x7d is no brace here",
       .expr (.assign .add (.access ⟨"A", some .scalar⟩ [.symbol ⟨"i", some .int⟩])
         (.binary .div (.access ⟨"FE", some .real⟩ [.int (.int 0), .symbol ⟨"i", some .int⟩])
           (.symbol ⟨"w0", some .scalar⟩)))]]
    [.arrayDecl 2 ⟨"FE", some .real⟩ [2, 2]
      (some ⟨[2, 2], #[.double 1, .double 0, .double 0.5, .double 2]⟩) true]
    [⟨"w0", some .scalar⟩] [⟨"A", some .scalar⟩] []

theorem formatStmt_layout_scaledRow :
    let t : Target := ⟨⟨.real, 64, true, ""⟩, ⟨.real, 64, true, ""⟩⟩
    Laid t scaledRow ∧ ∃ text, formatStmt t scaledRow = .ok text ∧ EndsLine text.toList ∧
      content text.toList = layout t scaledRow ∧ tokens text = stmtTokens t scaledRow ∧
      Balanced text := by
  intro t
  have hsize : ∀ n ∈ [(0 : Int), 2], IsWhole (.int n) := by decide +kernel
  have hwhole : ∀ n ∈ [(0 : Int), 2], ∃ s, (Whole.int n).text = .ok s :=
    fun n hn => ⟨_, text_whole (hsize n hn)⟩
  have hlaid : Laid t scaledRow := by
    simp only [scaledRow, Laid, LaidAll, Printed, PrintedAll, and_true]
    refine ⟨⟨⟨by decide, by decide⟩, by decide⟩, ⟨by decide, ⟨"double", rfl⟩, by simp, by simp⟩,
      ⟨by decide, hwhole 0 (by simp), hwhole 2 (by simp)⟩, ⟨by decide, by decide⟩, .inr trivial, ?_⟩
    exact ⟨⟨by decide, by decide⟩, ⟨by decide, hwhole 0 (by simp), by decide⟩, by decide⟩
  exact ⟨hlaid, formatStmt_layout hlaid⟩

end FormKernel.CText
