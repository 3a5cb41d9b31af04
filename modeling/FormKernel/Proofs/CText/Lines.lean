import FormKernel.CText.Format
import FormKernel.Proofs.CText.Token

/-!
# Lines of texts

The text of a body is cut into lines and put together again, or shifted as a whole with its last two
characters cut off.  Neither loses anything as long as every text that is indented is empty or ends
with the end of a line: then indenting keeps the `content` of a text, its lines without the blanks
in front of them and without empty ones.  What a text says, its tokens and its braces, is read off
its content.
-/

namespace FormKernel.CText

open List

variable {a b cs : List Char} {ls : List (List Char)} {c : Char}

/-! ## Lines -/

lemma splitLines_cons (c : Char) (cs : List Char) : splitLines (c :: cs) =
    if c = '\n' then [] :: splitLines cs else (splitLines cs).modifyHead (c :: ·) := rfl

lemma splitLines_ne_nil (cs : List Char) : splitLines cs ≠ [] := by
  cases cs with
  | nil => simp [splitLines]
  | cons c cs =>
    have hne := splitLines_ne_nil cs
    rw [splitLines_cons]
    split <;> simp [hne]

lemma exists_splitLines (cs : List Char) : ∃ l ls, splitLines cs = l :: ls :=
  exists_cons_of_ne_nil (splitLines_ne_nil cs)

lemma splitLines_newline (a b : List Char) :
    splitLines (a ++ '\n' :: b) = splitLines a ++ splitLines b := by
  induction a with
  | nil => rfl
  | cons c a ih =>
    obtain ⟨l, ls, hl⟩ := exists_splitLines a
    rw [cons_append, splitLines_cons, splitLines_cons, ih, hl]
    split <;> rfl

lemma splitLines_of_notMem (h : '\n' ∉ a) : splitLines a = [a] := by
  induction a with
  | nil => rfl
  | cons c a ih =>
    rw [mem_cons, not_or] at h
    rw [splitLines_cons, if_neg (Ne.symm h.1), ih h.2]
    rfl

lemma flatten_splitLines (cs : List Char) : (splitLines cs).flatten = cs.filter (· ≠ '\n') := by
  induction cs with
  | nil => rfl
  | cons c cs ih =>
    obtain ⟨l, ls, hl⟩ := exists_splitLines cs
    rw [hl, flatten_cons] at ih
    rw [splitLines_cons, hl]
    by_cases hc : c = '\n'
    · simp [hc, ih]
    · simp [hc, ih]

/-- A line without the blanks in front of it. -/
def unindent (l : List Char) : List Char := l.dropWhile (· = ' ')

/-- Lines without the blanks in front of them; empty ones are left out. -/
def trim (ls : List (List Char)) : List (List Char) := (ls.map unindent).filter (· ≠ [])

/-- What the lines of a text hold. -/
def content (cs : List Char) : List (List Char) := trim (splitLines cs)

def EndsLine (cs : List Char) : Prop := cs = [] ∨ ∃ b, cs = b ++ ['\n']

lemma trim_append (ls ms : List (List Char)) : trim (ls ++ ms) = trim ls ++ trim ms := by
  simp [trim]

lemma content_newline (a b : List Char) : content (a ++ '\n' :: b) = content a ++ content b := by
  rw [content, splitLines_newline, trim_append]
  rfl

lemma EndsLine.content_append (h : EndsLine a) (b : List Char) :
    content (a ++ b) = content a ++ content b := by
  obtain rfl | ⟨a, rfl⟩ := h
  · rfl
  · have hend : content (a ++ ['\n']) = content a := by
      rw [content_newline]
      exact append_nil _
    rw [append_assoc, singleton_append, content_newline, hend]

lemma EndsLine.append (ha : EndsLine a) (hb : EndsLine b) : EndsLine (a ++ b) := by
  obtain rfl | ⟨b, rfl⟩ := hb
  · rwa [append_nil]
  · exact .inr ⟨a ++ b, (append_assoc ..).symm⟩

/-! ## Indentation -/

lemma trim_cons_blanks (l : List Char) (ls : List (List Char)) :
    trim ((' ' :: ' ' :: l) :: ls) = trim (l :: ls) := rfl

lemma content_indented (h : ∀ l ∈ ls, '\n' ∉ l) :
    content (ls.flatMap fun l => ' ' :: ' ' :: (l ++ ['\n'])) = trim ls := by
  induction ls with
  | nil => rfl
  | cons l ls ih =>
    have hl : '\n' ∉ ' ' :: ' ' :: l := by simpa using h l (by simp)
    have hline : ' ' :: ' ' :: (l ++ ['\n']) = (' ' :: ' ' :: l) ++ ['\n'] := rfl
    rw [flatMap_cons, hline, append_assoc, singleton_append, content_newline,
      ih fun m hm => h m (mem_cons_of_mem _ hm), content, splitLines_of_notMem hl, trim_cons_blanks,
      ← trim_append, singleton_append]

lemma trim_filter (ls : List (List Char)) : trim (ls.filter (· ≠ [])) = trim ls := by
  induction ls with
  | nil => rfl
  | cons l ls ih =>
    by_cases hl : l = []
    · subst hl
      exact ih
    · rw [filter_cons_of_pos (by simpa using hl), ← singleton_append, trim_append, ih,
        ← trim_append, singleton_append]

lemma newline_notMem_splitLines (cs : List Char) : ∀ l ∈ splitLines cs, '\n' ∉ l := by
  intro l hl hmem
  have hflat : '\n' ∈ (splitLines cs).flatten := mem_flatten.2 ⟨l, hl, hmem⟩
  simp [flatten_splitLines] at hflat

lemma endsLine_indentLines (s : String) : EndsLine (indentLines s).toList := by
  rw [indentLines, String.toList_ofList]
  generalize (splitLines s.toList).filter (· ≠ []) = ls
  induction ls with
  | nil => exact .inl rfl
  | cons l ls ih =>
    rw [flatMap_cons]
    exact EndsLine.append (.inr ⟨' ' :: ' ' :: l, rfl⟩) ih

lemma content_indentLines (s : String) : content (indentLines s).toList = content s.toList := by
  rw [indentLines, String.toList_ofList, content_indented, trim_filter, content]
  exact fun l hl => newline_notMem_splitLines _ l (mem_of_mem_filter hl)

/-- A text with two blanks behind the end of each line. -/
def shift (cs : List Char) : List Char :=
  cs.flatMap fun c => if c = '\n' then ['\n', ' ', ' '] else [c]

/-- With two blanks in front of it, every line of a shifted text is indented. -/
lemma splitLines_shift (cs : List Char) :
    splitLines (' ' :: ' ' :: shift cs) = (splitLines cs).map (' ' :: ' ' :: ·) := by
  have hblank (ds : List Char) : splitLines (' ' :: ds) = (splitLines ds).modifyHead (' ' :: ·) :=
    rfl
  induction cs with
  | nil => rfl
  | cons c cs ih =>
    obtain ⟨l, ls, hl⟩ := exists_splitLines (shift cs)
    obtain ⟨m, ms, hm⟩ := exists_splitLines cs
    by_cases hc : c = '\n'
    · have hshift : shift (c :: cs) = [] ++ '\n' :: ' ' :: ' ' :: shift cs := by simp [shift, hc]
      rw [hshift, hblank, hblank, splitLines_newline, ih, splitLines_cons, if_pos hc]
      rfl
    · have hshift : shift (c :: cs) = c :: shift cs := by simp [shift, hc]
      rw [hblank, hblank, hl, hm] at ih
      obtain ⟨hhead, htail⟩ : l = m ∧ ls = ms.map (' ' :: ' ' :: ·) := by simpa using ih
      rw [hshift, hblank, hblank, splitLines_cons, splitLines_cons, if_neg hc, if_neg hc, hl, hm,
        hhead, htail]
      rfl

lemma trim_map_blanks (ls : List (List Char)) : trim (ls.map (' ' :: ' ' :: ·)) = trim ls := by
  induction ls with
  | nil => rfl
  | cons l ls ih =>
    rw [map_cons, trim_cons_blanks, ← singleton_append, trim_append, ih, ← trim_append,
      singleton_append]

/-- A body between braces, shifted as a whole: behind the last line end only the blanks are cut
    off. -/
lemma content_indentBehind {s : String} (h : EndsLine s.toList) :
    content ("\x7b\n  " ++ indentBehind s ++ "\x7d\n").toList =
      ['\x7b'] :: (content s.toList ++ [['\x7d']]) := by
  have hbody : (indentBehind s).toList = (shift s.toList).dropLast.dropLast := String.toList_ofList
  have hclose : content "\x7d\n".toList = [['\x7d']] := rfl
  rw [String.toList_append, String.toList_append, hbody]
  obtain hs | ⟨b, hs⟩ := h
  · rw [hs]
    rfl
  · have hcut : (shift (b ++ ['\n'])).dropLast.dropLast = shift b ++ ['\n'] := by
      simp [shift, flatMap_append]
    have hopen : "\x7b\n  ".toList ++ (shift b ++ ['\n']) ++ "\x7d\n".toList =
        ['\x7b'] ++ '\n' :: ((' ' :: ' ' :: shift b) ++ '\n' :: "\x7d\n".toList) := by simp
    have hinner : content (' ' :: ' ' :: shift b) = content b := by
      rw [content, splitLines_shift, trim_map_blanks, content]
    have hend : content (b ++ ['\n']) = content b := by
      rw [content_newline]
      exact append_nil _
    rw [hs, hcut, hopen, content_newline, content_newline, hinner, hclose, hend]
    rfl

/-! ## What lines say -/

/-- A line without the comment at its end. -/
def uncomment : List Char → List Char
  | [] => []
  | c :: cs => if ['/', '/'] <+: c :: cs then [] else c :: uncomment cs

/-- The tokens of one text and then of another, if both have tokens. -/
def joined (xs ys : Option (List Token)) : Option (List Token) := xs.bind fun ts => ys.map (ts ++ ·)

/-- The tokens of lines, without comments. -/
def lexLines (ls : List (List Char)) : Option (List Token) :=
  ls.foldr (fun l => joined (lexFrom [] (uncomment l))) (some [])

/-- The tokens of a text.  A comment ends with its line, and no token goes on behind the end of a
    line. -/
def tokens (s : String) : Option (List Token) := lexLines (splitLines s.toList)

/-- How many braces are open behind a text that starts with `d` open ones, unless it closes more. -/
def nesting (d : Nat) : List Char → Option Nat
  | [] => some d
  | c :: cs =>
    if c = '\x7b' then nesting (d + 1) cs
    else if c = '\x7d' then
      match d with
      | 0 => none
      | d + 1 => nesting d cs
    else nesting d cs

/-- The braces of lines without their comments are in pairs. -/
def Paired (ls : List (List Char)) : Prop := ∀ d, nesting d (ls.flatMap uncomment) = some d

/-- The braces of a text without its comments are in pairs. -/
def Balanced (s : String) : Prop := nesting 0 ((splitLines s.toList).flatMap uncomment) = some 0

@[simp] lemma joined_nil (xs : Option (List Token)) : joined (some []) xs = xs := by
  cases xs <;> rfl

@[simp] lemma joined_nil_right (xs : Option (List Token)) : joined xs (some []) = xs := by
  cases xs <;> simp [joined]

lemma joined_assoc (xs ys zs : Option (List Token)) :
    joined (joined xs ys) zs = joined xs (joined ys zs) := by
  cases xs <;> cases ys <;> cases zs <;> simp [joined]

lemma lexLines_cons (l : List Char) (ls : List (List Char)) :
    lexLines (l :: ls) = joined (lexFrom [] (uncomment l)) (lexLines ls) := rfl

lemma lexLines_append (ls ms : List (List Char)) :
    lexLines (ls ++ ms) = joined (lexLines ls) (lexLines ms) := by
  induction ls with
  | nil => exact (joined_nil _).symm
  | cons l ls ih => rw [cons_append, lexLines_cons, lexLines_cons, ih, joined_assoc]

lemma uncomment_blank (l : List Char) : uncomment (' ' :: l) = ' ' :: uncomment l := by
  rw [uncomment, if_neg (by simp)]

lemma uncomment_remark (l : List Char) : uncomment ('/' :: '/' :: l) = [] := by
  rw [uncomment, if_pos (by simp)]

lemma mem_of_mem_uncomment {l : List Char} (h : c ∈ uncomment l) : c ∈ l := by
  fun_induction uncomment l with
  | case1 => exact h
  | case2 => cases h
  | case3 d l hd ih =>
    exact (mem_cons.1 h).elim (· ▸ mem_cons_self) fun h => mem_cons_of_mem _ (ih h)

lemma uncomment_of_notMem {l : List Char} (h : '/' ∉ l) : uncomment l = l := by
  fun_induction uncomment l with
  | case1 => rfl
  | case2 c l hc => exact absurd (hc.subset mem_cons_self) h
  | case3 c l hc ih => rw [ih fun hl => h (mem_cons_of_mem _ hl)]

lemma lexFrom_unindent (l : List Char) :
    lexFrom [] (uncomment (unindent l)) = lexFrom [] (uncomment l) := by
  induction l with
  | nil => rfl
  | cons c l ih =>
    by_cases hc : c = ' '
    · subst hc
      rw [uncomment_blank, lex_blank, ← ih]
      rfl
    · rw [unindent, dropWhile_cons_of_neg (by simpa using hc)]

lemma trim_cons (l : List Char) (ls : List (List Char)) :
    trim (l :: ls) = if unindent l = [] then trim ls else unindent l :: trim ls := by
  by_cases hl : unindent l = [] <;> simp [trim, hl]

/-- Blanks and empty lines hold no tokens. -/
lemma lexLines_trim (ls : List (List Char)) : lexLines (trim ls) = lexLines ls := by
  induction ls with
  | nil => rfl
  | cons l ls ih =>
    rw [trim_cons, lexLines_cons, ← lexFrom_unindent, ← ih]
    split
    · next hl =>
      rw [hl]
      exact (joined_nil _).symm
    · rfl

/-! ## Braces -/

/-- Characters other than braces. -/
def isPlain (c : Char) : Bool := c != '\x7b' && c != '\x7d'

lemma nesting_append (d : Nat) (a b : List Char) :
    nesting d (a ++ b) = (nesting d a).bind (nesting · b) := by
  fun_induction nesting d a <;> simp_all [nesting]

lemma nesting_braces (d : Nat) (cs : List Char) :
    nesting d (cs.filter (!isPlain ·)) = nesting d cs := by
  induction cs generalizing d with
  | nil => rfl
  | cons c cs ih =>
    by_cases hopen : c = '\x7b'
    · subst hopen
      exact ih (d + 1)
    · by_cases hclose : c = '\x7d'
      · subst hclose
        cases d with
        | zero => rfl
        | succ d => exact ih d
      · rw [filter_cons_of_neg (by simp [isPlain, hopen, hclose]), ih, nesting.eq_def d (c :: cs)]
        simp [hopen, hclose]

lemma nesting_of_plain (h : ∀ c ∈ cs, isPlain c) (d : Nat) : nesting d cs = some d := by
  have hnone : cs.filter (!isPlain ·) = [] := by simpa using h
  rw [← nesting_braces, hnone]
  rfl

lemma nesting_trim (d : Nat) (ls : List (List Char)) :
    nesting d ((trim ls).flatMap uncomment) = nesting d (ls.flatMap uncomment) := by
  induction ls generalizing d with
  | nil => rfl
  | cons l ls ih =>
    have hline : nesting d (uncomment (unindent l)) = nesting d (uncomment l) := by
      induction l with
      | nil => rfl
      | cons c l ih =>
        by_cases hc : c = ' '
        · subst hc
          rwa [uncomment_blank]
        · rw [unindent, dropWhile_cons_of_neg (by simpa using hc)]
    have hrest : (fun d => nesting d ((trim ls).flatMap uncomment)) =
        fun d => nesting d (ls.flatMap uncomment) := funext ih
    rw [flatMap_cons, nesting_append, ← hline, ← hrest, trim_cons]
    split
    · next hl =>
      rw [hl]
      rfl
    · rw [flatMap_cons, nesting_append]

lemma Paired.append {ms : List (List Char)} (hl : Paired ls)
    (hm : Paired ms) : Paired (ls ++ ms) := by
  intro d
  rw [flatMap_append, nesting_append, hl d]
  exact hm d

lemma Paired.block (h : Paired ls) : Paired (['\x7b'] :: (ls ++ [['\x7d']])) := by
  intro d
  have hinner : nesting (d + 1) ((ls ++ [['\x7d']]).flatMap uncomment) = some d := by
    rw [flatMap_append, nesting_append, h]
    rfl
  exact hinner

lemma paired_of_plain (h : ∀ c ∈ cs, isPlain c) : Paired (content cs) := by
  intro d
  rw [content, nesting_trim]
  refine nesting_of_plain (fun c hc => ?_) d
  obtain ⟨l, hl, hc⟩ := mem_flatMap.1 hc
  have hflat : c ∈ (splitLines cs).flatten := mem_flatten.2 ⟨l, hl, mem_of_mem_uncomment hc⟩
  rw [flatten_splitLines] at hflat
  exact h c (mem_of_mem_filter hflat)

/-- A text that holds no comment. -/
lemma paired_of_nesting (hslash : '/' ∉ cs)
    (h : ∀ d, nesting d cs = some d) : Paired (content cs) := by
  intro d
  have hlines : (splitLines cs).flatMap uncomment = cs.filter (· ≠ '\n') := by
    rw [← flatten_splitLines, ← flatMap_id]
    refine flatMap_congr fun l hl => uncomment_of_notMem fun hmem => hslash ?_
    have hflat : '/' ∈ (splitLines cs).flatten := mem_flatten.2 ⟨l, hl, hmem⟩
    rw [flatten_splitLines] at hflat
    exact mem_of_mem_filter hflat
  rw [content, nesting_trim, hlines, ← nesting_braces, filter_filter, ← h d, ← nesting_braces d cs]
  congr 1
  refine filter_congr fun c _ => ?_
  by_cases hc : c = '\n'
  · subst hc
    rfl
  · simp [hc]

end FormKernel.CText
