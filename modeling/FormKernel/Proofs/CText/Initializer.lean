import FormKernel.Kernel.Construct
import FormKernel.Proofs.CText.Layout
import FormKernel.Proofs.Decimal.ArrayText

/-!
# Reading an initialiser

The entries of an array stand in nested braces.  What is read back from them has the shape of the
array, and at every index the text of its entry there.
-/

namespace FormKernel

open CText Decimal Kernel List

/-! ## Nested lists -/

namespace Decimal.Nested

/-- A list of lists with as many entries at each depth as the shape says. -/
def HasShape : List Nat → Nested → Prop
  | [], .leaf _ => True
  | n :: rest, .node ts => ts.length = n ∧ ∀ t ∈ ts, HasShape rest t
  | _, _ => False

/-- The entry that a path of numbers leads to. -/
def at? : Nested → List Nat → Option (List Char)
  | .leaf cs, [] => some cs
  | .node ts, i :: is => ts[i]?.bind (at? · is)
  | _, _ => none

mutual

def leaves : Nested → List (List Char)
  | .leaf cs => [cs]
  | .node ts => allLeaves ts

def allLeaves : List Nested → List (List Char)
  | [] => []
  | t :: ts => t.leaves ++ allLeaves ts

end

lemma allLeaves_eq (ts : List Nested) : allLeaves ts = ts.flatMap leaves := by
  induction ts with
  | nil => rfl
  | cons t ts ih => rw [allLeaves, ih, flatMap_cons]

end Decimal.Nested

/-! ## Rows of an array -/

section Rows

variable {α : Type} {shape index : List Nat} {texts : List (List Char)}

lemma chunks_eq_map (k n : Nat) (xs : List α) :
    chunks k n xs = (range n).map fun i => (xs.drop (i * k)).take k := by
  induction n generalizing xs with
  | zero => rfl
  | succ n ih =>
    rw [chunks, ih, range_succ_eq_map, map_cons, map_map, Nat.zero_mul, drop_zero]
    congr 1
    refine map_congr_left fun i _ => ?_
    rw [drop_drop, Function.comp_apply, Nat.succ_mul, Nat.add_comm]

lemma nest_cons (n : Nat) (shape : List Nat) (texts : List (List Char)) :
    nest false (n :: shape) texts =
      .node ((chunks (volume shape) n texts).map (nest false shape)) := by
  rw [nest, map_shown_false]
  simp [shown, withDots]

lemma hasShape_nest (shape : List Nat) (texts : List (List Char)) :
    (nest false shape texts).HasShape shape := by
  induction shape generalizing texts with
  | nil => trivial
  | cons n shape ih =>
    rw [nest_cons]
    exact ⟨by rw [length_map, length_chunks], forall_mem_map.2 fun c _ => ih c⟩

lemma leaves_nest (h : texts.length = volume shape) : (nest false shape texts).leaves = texts := by
  induction shape generalizing texts with
  | nil =>
    obtain ⟨cs, rfl⟩ := length_eq_one_iff.1 h
    rfl
  | cons n shape ih =>
    rw [volume_cons] at h
    have hrows : ∀ c ∈ chunks (volume shape) n texts, (nest false shape c).leaves = c :=
      fun c hc => ih (length_of_mem_chunks h hc)
    rw [nest_cons, Nested.leaves, Nested.allLeaves_eq, flatMap_map, flatMap_def,
      map_congr_left hrows, map_id', flatten_chunks h]

/-- Nested by a shape, an entry is found at the path of its index. -/
lemma at?_nest (h : texts.length = volume shape) (hindex : Within shape index) :
    (nest false shape texts).at? index = texts[Dense.position shape index]? := by
  induction shape generalizing texts index with
  | nil =>
    obtain ⟨cs, rfl⟩ := length_eq_one_iff.1 h
    obtain rfl := within_nil.1 hindex
    rfl
  | cons n shape ih =>
    obtain ⟨i, index, hi, hrest, rfl⟩ := forall₂_cons_right_iff.1 hindex
    rw [volume_cons] at h
    have hlength : ((texts.drop (i * volume shape)).take (volume shape)).length = volume shape := by
      have hle := Nat.mul_le_mul_right (volume shape) hi
      rw [Nat.succ_mul] at hle
      rw [length_take, length_drop]
      omega
    rw [nest_cons, Nested.at?, chunks_eq_map, map_map, getElem?_map, getElem?_range hi]
    refine (ih hlength hrest).trans ?_
    rw [getElem?_take_of_lt (Dense.position_lt hrest), getElem?_drop, Dense.position_cons]

end Rows

/-! ## Texts of entries -/

namespace CText

def braces : Brackets := ⟨'\x7b', '\x7d', isInk, by decide, by simp [isInk, dividers]⟩

/-- The nested list at the front of a text, and what stands behind it.  Blanks say nothing. -/
def readBraces (text : String) : Option (Nested × List Char) :=
  Nested.read braces (squeeze text.toList) [] none

/-- The entry is a number, or a text without blanks, commas and braces. -/
def Readable (x : Entry) : Prop := ∀ s, x = .text s → s.toList ≠ [] ∧ Made isInk s

lemma Made.squeeze {s : String} (h : Made isInk s) : squeeze s.toList = s.toList := by
  refine filter_eq_self.2 fun c hc => ?_
  have hink := isInk_iff.1 (h.mem hc)
  simp_all [isBlank, dividers]

lemma decoded_ne_nil (d : Decoded) {l : Layout} (hl : l.pointZero = true)
    (choose : Binary → Digits) : (d.text l choose).toList ≠ [] := by
  cases d with
  | nan => simp [Decoded.text]
  | infinite negative | zero negative => cases negative <;> simp [Decoded.text]
  | finite negative b =>
    rw [Decoded.text, String.toList_append]
    exact append_ne_nil_of_right_ne_nil _ (isNumeral_text (choose b) hl).ne_nil

lemma entry_ne_nil {x : Entry} (hx : Readable x) : x.kernelText.toList ≠ [] := by
  cases x with
  | half x | extended x | double x | single x => exact decoded_ne_nil _ rfl _
  | complexDouble re im => simp [Entry.kernelText]
  | complexSingle re im =>
    simp only [Entry.kernelText, complexText]
    split <;> simp
  | int n =>
    cases n with
    | ofNat n => exact toList_toString n ▸ Nat.toDigits_ne_nil
    | negSucc n => simp [Entry.kernelText, Int.toString_eq_repr, Int.repr_eq_if]
  | bool b => cases b <;> decide
  | text s => exact (hx s rfl).1
  | none => decide

lemma inner_entry {x : Entry} (hx : Readable x) : ∀ c ∈ x.kernelText.toList,
    braces.inner c = true :=
  all_eq_true.1 (made_entry fun s hs => (hx s hs).2)

/-! ## Initialisers -/

def entryTexts (xs : List Entry) : List (List Char) := xs.map fun x => x.kernelText.toList

variable {shape : List Nat} {xs : List Entry}

lemma squeeze_initializer (hshape : shape ≠ []) (hlength : xs.length = volume shape)
    (hxs : ∀ x ∈ xs, Readable x) :
    squeeze (initializer shape xs).toList = (nest false shape (entryTexts xs)).chars braces := by
  have hopens : squeeze "\x7b".toList = [braces.left] ∧ squeeze "\x7d".toList = [braces.right] :=
    ⟨rfl, rfl⟩
  induction shape generalizing xs with
  | nil => exact absurd rfl hshape
  | cons n rest ih =>
    rw [volume_cons] at hlength
    cases rest with
    | nil =>
      rw [volume_nil, Nat.mul_one] at hlength
      rw [initializer, nest_cons, volume_nil, chunks_one (by rw [entryTexts, length_map, hlength])]
      refine squeeze_rows hopens.1 hopens.2 rfl ?_
      rw [entryTexts, map_map, map_map, map_map, map_map]
      exact map_congr_left fun x hx => (made_entry fun s hs => (hxs x hx s hs).2).squeeze
    | cons m rest =>
      rw [initializer, nest_cons]
      · refine squeeze_rows hopens.1 hopens.2 rfl ?_
        rw [entryTexts, chunks_map, chunks_eq_map, map_map, map_map, map_map, map_map]
        refine map_congr_left fun i hi => ?_
        have hc : (xs.drop (i * volume (m :: rest))).take (volume (m :: rest)) ∈
            chunks (volume (m :: rest)) n xs := by
          rw [chunks_eq_map]
          exact mem_map_of_mem hi
        exact ih (cons_ne_nil m rest) (length_of_mem_chunks hlength hc) fun x hx =>
          hxs x (mem_of_mem_chunks hc hx)
      · simp

lemma readBraces_initializer (hshape : shape ≠ []) (hlength : xs.length = volume shape)
    (hxs : ∀ x ∈ xs, Readable x) {rest : String}
    (hrest : Decimal.Stops braces (squeeze rest.toList)) :
    readBraces (initializer shape xs ++ rest) =
      some (nest false shape (entryTexts xs), squeeze rest.toList) := by
  have hplain : (nest false shape (entryTexts xs)).Plain braces :=
    plain_nest (by decide) (by rw [map_shown_false, entryTexts, length_map, hlength])
      (forall_mem_map.2 fun x hx => ⟨entry_ne_nil (hxs x hx), inner_entry (hxs x hx)⟩)
  rw [readBraces, String.toList_append, squeeze_append, squeeze_initializer hshape hlength hxs]
  exact Nested.read_front hplain hrest

def extents (shape : List Nat) : String := String.join (shape.map fun n => "[" ++ toString n ++ "]")

def arrayText (const : Bool) (type name : String) (shape : List Nat) (body : String) : String :=
  (if const then "static const " else "") ++ type ++ " " ++ name ++ extents shape ++ " = " ++
    body ++ ";\n"

/-- The declaration of an array without sizes of its own has the extents of its values, and its
    initialiser is a nested list of that shape: its leaves are the texts of the entries in row-major
    order, and each index leads to the text of the entry there. -/
theorem initializer_decodes {t : Target} {s : Symbol} {v : Values} {const : Bool} {tag : Tag}
    {decl : Stmt}
    (hrank : v.shape ≠ []) (hfull : v.data.size = volume v.shape)
    (hentries : ∀ x ∈ v.data.toList, Readable x)
    (hdecl : Stmt.ofArray s none (.values v) const tag = .ok decl) :
    ∃ body tree, formatStmt t decl = (t.typeName s.dtype).map
      (arrayText const · s.name v.shape body) ∧
      readBraces (body ++ ";\n") = some (tree, [';']) ∧ tree.HasShape v.shape ∧
      tree.leaves = v.data.toList.map (·.kernelText.toList) ∧
      ∀ index, Within v.shape index → tree.at? index = (v.get? index).map (·.kernelText.toList) :=
      by
  obtain rfl : .arrayDecl tag s (v.shape.map Int.ofNat) (some v) const = decl := by
    unfold Stmt.ofArray require at hdecl
    split at hdecl
    · exact Except.ok.inj hdecl
    · cases hdecl
  have hlength : v.data.toList.length = volume v.shape := hfull
  have hlength' : (entryTexts v.data.toList).length = volume v.shape := by
    rw [entryTexts, length_map, hlength]
  refine ⟨initializer v.shape v.data.toList, nest false v.shape (entryTexts v.data.toList), ?_, ?_,
    hasShape_nest _ _, leaves_nest hlength', fun index hindex => ?_⟩
  · have hextents : String.join ((v.shape.map Int.ofNat).map fun n => "[" ++ toString n ++ "]") =
        extents v.shape := by
      rw [map_map]
      rfl
    rw [formatStmt]
    cases ht : t.typeName s.dtype with
    | error e => rfl
    | ok type =>
      simp only [Except.map, arrayText, ← hextents]
      rfl
  · exact readBraces_initializer hrank hlength hentries ⟨';', [], rfl, by decide⟩
  · rw [at?_nest hlength' hindex, entryTexts, getElem?_map, Dense.get?, Array.getElem?_toList]

def mixedEntries : Values := ⟨[2, 1, 2], #[.complexDouble 0.5 (-2), .int (-3), .none, .text "w0"]⟩

theorem initializer_decodes_mixed : Readable (.text "w0") ∧ ∃ decl,
    Stmt.ofArray ⟨"w", some .scalar⟩ none (.values mixedEntries) true = .ok decl ∧
    ∃ body tree, formatStmt default decl = ((default : Target).typeName (some .scalar)).map
        (arrayText true · "w" mixedEntries.shape body) ∧
      readBraces (body ++ ";\n") = some (tree, [';']) ∧ tree.HasShape mixedEntries.shape ∧
      tree.leaves = mixedEntries.data.toList.map (·.kernelText.toList) ∧
      ∀ index, Within mixedEntries.shape index →
        tree.at? index = (mixedEntries.get? index).map (·.kernelText.toList) := by
  have hword : Readable (.text "w0") := by
    rintro s ⟨⟩
    exact ⟨by decide, by decide⟩
  have hentries : ∀ x ∈ mixedEntries.data.toList, Readable x := by
    simp only [mixedEntries, forall_mem_cons]
    exact ⟨by rintro s ⟨⟩, by rintro s ⟨⟩, by rintro s ⟨⟩, hword, by simp⟩
  have hdecl : Stmt.ofArray ⟨"w", some .scalar⟩ none (.values mixedEntries) true =
      .ok (.arrayDecl 0 ⟨"w", some .scalar⟩ [2, 1, 2] (some mixedEntries) true) := rfl
  have hread := initializer_decodes (t := default) (by decide) (by decide) hentries hdecl
  exact ⟨hword, _, hdecl, hread⟩

end CText

end FormKernel
