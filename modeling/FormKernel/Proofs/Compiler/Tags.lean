import FormKernel.Compiler.Records
import FormKernel.Proofs.Table.Name
import FormKernel.Proofs.Text.Bracketed

/-!
# Tags of forms and integrals

The tag of a form ends with its number, the tag of an integral with its kind, the number of its form
and the parts of the mesh.  All of them can be read off the end of the text that a name is the
digest of, whatever signature and label stand in front.
-/

namespace FormKernel.Compiler

open Table (append_last_mark_inj)
open Text List

/-- A text is split at its last mark, and so is what stands in front of it. -/
lemma append_last_mark_cancel {mark : Char} {xs xs' ys ys' : List Char} (hys : mark ∉ ys)
    (hys' : mark ∉ ys') (h : xs ++ mark :: ys = xs' ++ mark :: ys') : xs = xs' ∧ ys = ys' := by
  obtain rfl := append_last_mark_inj hys hys' h
  exact ⟨append_cancel_right h, rfl⟩

/-! ## Quoted words -/

lemma escape_of_letter {c : Char} (h : c.isAlpha = true ∨ c = '_') :
    Text.escape '\'' c = c.toString := by
  have hall : ∀ n < 128, (Char.ofNat n).isAlpha = true ∨ Char.ofNat n = '_' →
      Text.escape '\'' (Char.ofNat n) = (Char.ofNat n).toString := by decide +kernel
  have hsmall : c.toNat < 128 := by
    rcases h with h | rfl
    · unfold Char.isAlpha Char.isUpper Char.isLower at h
      simp only [Bool.or_eq_true, Bool.and_eq_true, decide_eq_true_eq] at h
      have : c.toNat = c.val.toNat := rfl
      rcases h with ⟨-, h⟩ | ⟨-, h⟩
      · have := UInt32.le_iff_toNat_le.1 h
        simp at this
        omega
      · have := UInt32.le_iff_toNat_le.1 h
        simp at this
        omega
    · decide
  simpa [Char.ofNat_toNat] using hall c.toNat hsmall (by simpa [Char.ofNat_toNat] using h)

/-- A text of letters is quoted without escapes. -/
lemma quoted_of_letters {s : String} (h : ∀ c ∈ s.toList, c.isAlpha = true ∨ c = '_') :
    Text.quoted s = "'" ++ s ++ "'" := by
  have hquote : s.contains '\'' = false := by
    have hnot : '\'' ∉ s.toList := fun hc => absurd (h _ hc) (by decide)
    simpa using hnot
  have hescape : s.toList.map (Text.escape '\'') = s.toList.map Char.toString :=
    map_congr_left fun c hc => escape_of_letter (h c hc)
  have hjoin : String.join (s.toList.map Char.toString) = s := by
    rw [← String.toList_inj]
    simp [String.toList_join, flatMap_map]
  simp only [Text.quoted, hquote, Bool.false_and, Bool.false_eq_true, if_false, hescape, hjoin]
  rfl

/-! ## Parts of a mesh -/

/-- The part of a mesh has a number, or is what no other integral covers. -/
def Subdomain.IsPart : Subdomain → Prop
  | .otherwise | .number _ => True
  | .other _ => False

lemma quoted_otherwise : Text.quoted "otherwise" = "'otherwise'" := by
  rw [quoted_of_letters (by simp)]
  decide

lemma Subdomain.notMem_text {d : Subdomain} (h : d.IsPart) {c : Char} (hc : c = ',' ∨ c = '(') :
    c ∉ d.text.toList := by
  cases d with
  | otherwise =>
    rw [Subdomain.text, quoted_otherwise]
    rcases hc with rfl | rfl <;> decide
  | number n =>
    rcases hc with rfl | rfl
    · exact notMem_toString (by decide) (by decide) n
    · exact notMem_toString (by decide) (by decide) n
  | other _ => exact h.elim

lemma Subdomain.text_injective {d d' : Subdomain} (h : d.IsPart) (h' : d'.IsPart)
    (heq : d.text = d'.text) : d = d' := by
  have hquote : ∀ n : Int, Text.quoted "otherwise" ≠ toString n := fun n hn => by
    have : '\'' ∉ (toString n).toList := notMem_toString (by decide) (by decide) n
    rw [← hn, quoted_otherwise] at this
    exact this (by decide)
  match d, d' with
  | .otherwise, .otherwise => rfl
  | .otherwise, .number n => exact absurd heq (hquote n)
  | .number n, .otherwise => exact absurd heq.symm (hquote n)
  | .number m, .number n => rw [toString_injective (congrArg String.toList heq)]

section Parts

variable {ds ds' : List Subdomain}

lemma comma_notMem (h : ∀ d ∈ ds, d.IsPart) : ∀ x ∈ ds.map Subdomain.text, ',' ∉ x.toList := by
  intro x hx
  obtain ⟨d, hd, rfl⟩ := mem_map.1 hx
  exact Subdomain.notMem_text (h d hd) (.inl rfl)

lemma bracket_notMem (h : ∀ d ∈ ds, d.IsPart) :
    '(' ∉ [','].intercalate (roundParts (ds.map Subdomain.text)) ++ [')', ')'] := by
  intro hc
  rcases mem_append.1 hc with hc | hc
  · rcases mem_intercalate_roundParts hc with hc | hc | ⟨x, hx, hc⟩
    · exact absurd hc (by decide)
    · exact absurd hc (by decide)
    · obtain ⟨d, hd, rfl⟩ := mem_map.1 hx
      exact Subdomain.notMem_text (h d hd) (.inr rfl) hc
  · exact absurd hc (by decide)

lemma texts_injective (h : ∀ d ∈ ds, d.IsPart) (h' : ∀ d ∈ ds', d.IsPart)
    (heq : ds.map Subdomain.text = ds'.map Subdomain.text) : ds = ds' := by
  induction ds generalizing ds' with
  | nil => exact (map_eq_nil_iff.1 heq.symm).symm
  | cons d ds ih =>
    cases ds' with
    | nil => exact absurd heq (by simp)
    | cons d' ds' =>
      rw [forall_mem_cons] at h h'
      rw [map_cons, map_cons] at heq
      obtain ⟨hd, hds⟩ := cons.inj heq
      rw [Subdomain.text_injective h.1 h'.1 hd, ih h.2 h'.2 hds]

end Parts

/-! ## Texts of forms and integrals -/

def formText (label signature : String) (id : Int) : String :=
  digestText signature "form" (formTag label id)

def integralText (label signature : String) (id : Int) (kind : String)
    (subdomains : List Subdomain) :
    String :=
  digestText signature "form" (integralTag label id kind subdomains)

variable {kind signature signature' label label' : String} {id id' : Int}

lemma digestText_left_injective {tag : String}
    (h : digestText signature kind tag = digestText signature' kind tag) :
    signature = signature' := by
  simp only [digestText, String.intercalate_cons_cons, ← String.toList_inj, String.toList_append,
    append_assoc] at h
  exact String.toList_inj.1 (append_cancel_right h)

/-- What stands in front of a tag. -/
lemma exists_digestText (signature kind : String) :
    ∃ front, ∀ tag, (digestText signature kind tag).toList = front ++ tag.toList := by
  refine ⟨(signature ++ ";" ++ Code.compilerVersion ++ ";" ++ interfaceDigest ++ ";" ++ kind ++
    ";").toList, fun tag => ?_⟩
  simp [digestText, String.intercalate_cons_cons]

lemma exists_formText (label signature : String) (id : Int) : ∃ front,
    (formText label signature id).toList = front ++ ' ' :: ((toString id).toList ++ [')']) := by
  obtain ⟨front, hfront⟩ := exists_digestText signature "form"
  refine ⟨front ++ '(' :: (Text.quoted label).toList ++ [','], ?_⟩
  rw [formText, hfront, formTag, toList_inRounds]
  simp [roundParts, intercalate_cons_cons]

lemma exists_integralText (label signature : String) (id : Int)
    (hkind : ∀ c ∈ kind.toList, c.isAlpha = true ∨ c = '_') (subdomains : List Subdomain) : ∃ front,
    (integralText label signature id kind subdomains).toList =
      ((((front ++ '\'' :: kind.toList) ++ ['\'', ',']) ++ ' ' :: (toString id).toList) ++
        [',', ' ']) ++
        '(' :: ([','].intercalate (roundParts (subdomains.map Subdomain.text)) ++ [')', ')']) := by
  obtain ⟨front, hfront⟩ := exists_digestText signature "form"
  refine ⟨front ++ '(' :: (Text.quoted label).toList ++ [',', ' '], ?_⟩
  rw [integralText, hfront, integralTag, toList_inRounds]
  simp [roundParts, intercalate_cons_cons, quoted_of_letters hkind, toList_inRounds]

lemma formText_injective (h : formText label signature id = formText label' signature' id') :
    id = id' := by
  obtain ⟨front, htext⟩ := exists_formText label signature id
  obtain ⟨front', htext'⟩ := exists_formText label' signature' id'
  have hblank : ∀ n : Int, ' ' ∉ (toString n).toList ++ [')'] := fun n hn => by
    rcases mem_append.1 hn with hn | hn
    · exact notMem_toString (by decide) (by decide) n hn
    · exact absurd hn (by decide)
  rw [h, htext'] at htext
  have hid := append_last_mark_inj (hblank id') (hblank id) htext
  exact (toString_injective (append_cancel_right hid)).symm

/-- The text of an integral ends with its kind, the number of its form and the parts of the mesh. -/
lemma integralText_injective {kind' : String} {subdomains subdomains' : List Subdomain}
    (hkind : ∀ c ∈ kind.toList, c.isAlpha = true ∨ c = '_')
    (hkind' : ∀ c ∈ kind'.toList, c.isAlpha = true ∨ c = '_') (hparts : ∀ d ∈ subdomains, d.IsPart)
    (hparts' : ∀ d ∈ subdomains', d.IsPart) (h : integralText label signature id kind subdomains =
      integralText label' signature' id' kind' subdomains') :
    id = id' ∧ kind = kind' ∧ subdomains = subdomains' := by
  obtain ⟨front, htext⟩ := exists_integralText label signature id hkind subdomains
  obtain ⟨front', htext'⟩ := exists_integralText label' signature' id' hkind' subdomains'
  rw [h, htext'] at htext
  have hblank : ∀ n : Int, ' ' ∉ (toString n).toList := notMem_toString (by decide) (by decide)
  have hquote : '\'' ∉ kind.toList := fun hc => absurd (hkind _ hc) (by decide)
  have hquote' : '\'' ∉ kind'.toList := fun hc => absurd (hkind' _ hc) (by decide)
  -- the last bracket that opens stands before the parts of the mesh
  obtain ⟨hfront, hrest⟩ := append_last_mark_cancel (bracket_notMem hparts')
    (bracket_notMem hparts) htext
  obtain ⟨hfront, hid⟩ := append_last_mark_cancel (hblank id') (hblank id)
    (append_cancel_right hfront)
  have hname := append_last_mark_inj hquote' hquote (append_cancel_right hfront)
  refine ⟨(toString_injective hid).symm, (String.toList_inj.1 hname).symm, ?_⟩
  have htexts := intercalate_roundParts_injective (comma_notMem hparts) (comma_notMem hparts')
    (append_cancel_right hrest).symm
  exact texts_injective hparts hparts' htexts

end FormKernel.Compiler
