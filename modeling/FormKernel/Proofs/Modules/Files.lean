import FormKernel.Modules.Build
import FormKernel.Proofs.List
import Mathlib.Data.List.Basic

/-!
# The files of a module

A module has a C file and a mark, and a build that failed leaves a C file that has been moved away.
Their paths are written in different ways in different places.  For the name of a module all ways
lead to the same three files, which are different whatever the directory is called.
-/

namespace FormKernel

open List

/-! ## Paths -/

namespace Path

structure IsPart (p : String) : Prop where
  ne_empty : p ≠ ""
  ne_point : p ≠ "."
  slash : '/' ∉ p.toList

/-- A name without points and slashes. -/
structure IsPlain (name : String) : Prop where
  ne_empty : name ≠ ""
  slash : '/' ∉ name.toList
  point : '.' ∉ name.toList

variable {c : Char} {file name : String}

lemma pieces_of_notMem {s : String} (h : c ∉ s.toList) : pieces c s = [s] := by
  rw [pieces, splitOn_eq_singleton h, map_singleton, String.ofList_toList]

variable {ps : List String} {p suffix : String}

lemma pieces_intercalate (h : ∀ p ∈ ps, c ∉ p.toList) (hps : ps ≠ []) :
    pieces c ((String.singleton c).intercalate ps) = ps := by
  have hsplit : splitOn c ([c].intercalate (ps.map String.toList)) = ps.map String.toList :=
    splitOn_intercalate c (by simpa using h) (by simpa using hps)
  rw [pieces, String.toList_intercalate, String.toList_singleton, hsplit, map_map]
  simp [Function.comp_def]

lemma notMem_of_mem_splitOn {cs piece : List Char} (h : piece ∈ cs.splitOn c) : c ∉ piece := by
  induction cs generalizing piece with
  | nil => simp_all
  | cons d cs ih =>
    rw [splitOn_cons_eq_if_modifyHead] at h
    split at h
    · rcases mem_cons.1 h with rfl | h
      · exact not_mem_nil
      · exact ih h
    · next hd =>
      -- the character in front belongs to the first piece
      obtain ⟨first, rest, hpieces⟩ := exists_cons_of_ne_nil (splitOn_ne_nil c cs)
      rw [hpieces, modifyHead_cons, mem_cons] at h
      rcases h with rfl | h
      · have hfirst : c ∉ first := ih (by simp [hpieces])
        have hne : c ≠ d := fun heq => hd (by simp [heq])
        simp [hne, hfirst]
      · exact ih (by simp [hpieces, h])

lemma isPart_of_mem_parts {path : String} (h : p ∈ parts path) : IsPart p := by
  obtain ⟨hmem, hp⟩ := mem_filter.1 h
  obtain ⟨hempty, hpoint⟩ := Bool.and_eq_true_iff.1 hp
  refine ⟨by simpa using hempty, by simpa using hpoint, ?_⟩
  obtain ⟨cs, hcs, rfl⟩ := mem_map.1 hmem
  rw [String.toList_ofList]
  exact notMem_of_mem_splitOn hcs

lemma parts_of_isPart (h : IsPart p) : parts p = [p] := by
  simp [parts, pieces_of_notMem h.slash, h.ne_empty, h.ne_point]

lemma parts_intercalate (h : ∀ p ∈ ps, IsPart p) : parts ("/".intercalate ps) = ps := by
  by_cases hps : ps = []
  · subst hps
    rfl
  · have hpieces : pieces '/' ("/".intercalate ps) = ps :=
      pieces_intercalate (fun p hp => (h p hp).slash) hps
    rw [parts, hpieces, filter_eq_self]
    intro p hp
    simp [(h p hp).ne_empty, (h p hp).ne_point]

/-- A file of a given name in a directory. -/
def fileIn (directory file : String) : String := "/".intercalate (parts directory ++ [file])

/-- A path to a file in a directory leads through the parts of the directory. -/
lemma parts_fileIn (directory : String) (h : IsPart file) :
    parts (fileIn directory file) = parts directory ++ [file] := by
  refine parts_intercalate fun p hp => ?_
  rcases mem_append.1 hp with hp | hp
  · exact isPart_of_mem_parts hp
  · exact mem_singleton.1 hp ▸ h

/-- Files of different names in a directory are different. -/
lemma fileIn_injective {directory f g : String} (hf : IsPart f) (hg : IsPart g)
    (h : fileIn directory f = fileIn directory g) : f = g := by
  have hparts := congrArg parts h
  rw [parts_fileIn directory hf, parts_fileIn directory hg] at hparts
  simpa using hparts

lemma join_eq_fileIn (directory : String) (h : IsPart file) :
    join directory file = fileIn directory file := by
  rw [join, parts_of_isPart h, fileIn]

lemma withSuffix_fileIn (directory suffix : String) (h : IsPart file) :
    withSuffix (fileIn directory file) suffix = fileIn directory (stem file ++ suffix) := by
  rw [withSuffix, name, parts_fileIn directory h]
  simp [fileIn]

lemma stem_of_isPlain (h : IsPlain name) : stem name = name := by
  rw [stem, pieces_of_notMem h.point]
  rfl

lemma stem_append (h : IsPlain name) (hsuffix : '.' ∉ suffix.toList) (hne : suffix ≠ "") :
    stem (name ++ "." ++ suffix) = name := by
  have hpieces : pieces '.' (name ++ "." ++ suffix) = [name, suffix] := by
    have hjoin : name ++ "." ++ suffix = ".".intercalate [name, suffix] := by
      simp [String.intercalate_cons_cons, String.append_assoc]
    rw [hjoin]
    exact pieces_intercalate (by simp [h.point, hsuffix]) (by simp)
  rw [stem, hpieces]
  simp [hne, h.ne_empty]

lemma isPart_append (h : IsPlain name) (hsuffix : '/' ∉ suffix.toList) :
    IsPart (name ++ suffix) := by
  have hname : name.toList ≠ [] := by simpa using h.ne_empty
  refine ⟨fun hempty => ?_, fun hpoint => ?_, by simp [h.slash, hsuffix]⟩
  · exact h.ne_empty (String.append_eq_empty_iff.1 hempty).1
  · obtain ⟨c, cs, hcs⟩ := exists_cons_of_ne_nil hname
    have hlist := congrArg String.toList hpoint
    rw [String.toList_append, hcs, cons_append] at hlist
    have hc : c = '.' := (cons.inj hlist).1
    exact h.point (by simp [hcs, hc])

end Path

namespace Modules

open FormKernel.Path (IsPlain fileIn)

/-! ## Names of modules -/

section Names

variable {name : String}

lemma sourcePath_eq (directory : String) (h : IsPlain name) :
    sourcePath directory name = fileIn directory (name ++ ".c") := by
  have hempty : Path.IsPart (name ++ "") := Path.isPart_append h (by simp)
  have hpart : Path.IsPart name := by simpa using hempty
  rw [sourcePath, Path.join_eq_fileIn directory hpart, Path.withSuffix_fileIn directory _ hpart,
    Path.stem_of_isPlain h]

lemma join_source (directory : String) (h : IsPlain name) :
    Path.join directory (name ++ ".c") = sourcePath directory name := by
  rw [sourcePath_eq directory h, Path.join_eq_fileIn directory (Path.isPart_append h (by decide))]

lemma withSuffix_source (directory suffix : String) (h : IsPlain name) :
    Path.withSuffix (sourcePath directory name) suffix = fileIn directory (name ++ suffix) := by
  have hstem : Path.stem (name ++ ".c") = name := by
    have happend : Path.stem (name ++ "." ++ "c") = name :=
      Path.stem_append h (by decide) (by decide)
    simpa [String.append_assoc] using happend
  rw [sourcePath_eq directory h,
    Path.withSuffix_fileIn directory _ (Path.isPart_append h (by decide)), hstem]

lemma readyPath_eq (directory : String) (h : IsPlain name) :
    readyPath directory name = fileIn directory (name ++ ".c.cached") :=
  withSuffix_source directory _ h

/-- Files of a module with different suffixes are different. -/
lemma fileIn_ne (directory : String) (h : IsPlain name) {s t : String} (hs : '/' ∉ s.toList)
    (ht : '/' ∉ t.toList) (hne : s ≠ t) :
    fileIn directory (name ++ s) ≠ fileIn directory (name ++ t) := by
  intro heq
  have hnames := Path.fileIn_injective (Path.isPart_append h hs) (Path.isPart_append h ht) heq
  have hlists := congrArg String.toList hnames
  rw [String.toList_append, String.toList_append, append_cancel_left_eq] at hlists
  exact hne (String.toList_inj.1 hlists)

lemma readyPath_ne_sourcePath (directory : String) (h : IsPlain name) :
    readyPath directory name ≠ sourcePath directory name := by
  rw [readyPath_eq directory h, sourcePath_eq directory h]
  exact fileIn_ne directory h (by decide) (by decide) (by decide)

end Names

def isNameChar (c : Char) : Bool := c != '/' && c != '.'

variable {n : Nat} {c : Char} {name : String}

lemma isNameChar_digitChar (h : n < 16) : isNameChar n.digitChar = true := by
  have hall : ∀ k < 16, isNameChar (Nat.digitChar k) = true := by decide
  exact hall n h

lemma isNameChar_of_mem_toDigits (h : c ∈ Nat.toDigits 16 n) : isNameChar c = true := by
  induction n using Nat.strongRecOn with
  | ind n ih =>
    rw [Nat.toDigits_eq_if (by decide)] at h
    split at h
    · next hn => exact mem_singleton.1 h ▸ isNameChar_digitChar hn
    · rcases mem_append.1 h with h | h
      · exact ih (n / 16) (by omega) h
      · exact mem_singleton.1 h ▸ isNameChar_digitChar (Nat.mod_lt n (by decide))

lemma isNameChar_of_mem_digest {text : String} (h : c ∈ (Digest.ofText text).toList) :
    isNameChar c = true := by
  rw [Digest.ofText, Digest.State.hex, String.toList_ofList] at h
  obtain ⟨word, -, h⟩ := mem_flatMap.1 h
  rcases mem_append.1 h with h | h
  · rw [(mem_replicate.1 h).2]
    rfl
  · exact isNameChar_of_mem_toDigits h

/-- The name of a module is a digest with letters in front. -/
lemma isPlain_moduleName {kind : ModuleKind} {platform : Platform} {a : BuildArguments}
    {options : Entries Json} {objects : List Compiler.Source}
    (h : kind.moduleName platform a options objects = .ok name) : IsPlain name := by
  obtain ⟨way, -, digest, hdigest, h⟩ := bind₂_eq_ok.1 h
  obtain ⟨key, -, hdigest⟩ := bind_eq_ok.1 hdigest
  have hname : name.toList = "libffcx_".toList ++ kind.word.toList ++ ['_'] ++ digest.toList := by
    rw [← pure_eq_ok.1 h]
    simp [toString, String.toList_append]
  have hchar : ∀ c ∈ name.toList, isNameChar c = true := by
    intro c hc
    rw [hname, mem_append, mem_append, mem_append] at hc
    rcases hc with ((hc | hc) | hc) | hc
    · exact all_eq_true.1 (by decide : "libffcx_".toList.all isNameChar = true) c hc
    · exact all_eq_true.1 (by cases kind <;> decide : kind.word.toList.all isNameChar = true) c hc
    · rw [mem_singleton.1 hc]
      rfl
    · rw [← pure_eq_ok.1 hdigest] at hc
      exact isNameChar_of_mem_digest hc
  refine ⟨?_, fun hc => absurd (hchar _ hc) (by decide), fun hc => absurd (hchar _ hc) (by decide)⟩
  rintro rfl
  simp at hname

/-! ## Files -/

namespace Files

variable {files : Files} {path : String}

lemma has_write (files : Files) (path text other : String) :
    (files.write path text).has other = (other == path || files.has other) := by
  rw [has, write, isSome_lookup_assign]
  rfl

lemma has_without (files : Files) (path other : String) :
    (files.without path).has other = (other != path && files.has other) := by
  induction files with
  | nil => simp [without, has]
  | cons f files ih =>
    rw [has, without] at ih ⊢
    by_cases hf : f.1 = path
    · rw [filter_cons_of_neg (by simp [hf]), ih, has, has, lookup_cons, hf]
      cases hother : other == path with
      | true => simp [bne, hother]
      | false => rfl
    · rw [filter_cons_of_pos (by simp [hf]), lookup_cons, has, lookup_cons]
      cases hother : other == f.1 with
      | true => simp [beq_iff_eq.1 hother, hf]
      | false => exact ih

lemma create_of_has (h : files.has path = true) (text : String) :
    files.create path text = .error (.misfit .fileExists) := if_pos h

lemma create_of_not_has (h : files.has path = false) (text : String) :
    files.create path text = .ok (files.write path text) := if_neg (by simp [h])

lemma isDirectory_write {directory f g : String} (hf : Path.IsPart f) (hg : Path.IsPart g)
    (text : String) (h : files.isDirectory (fileIn directory g) = false) :
    (files.write (fileIn directory f) text).isDirectory (fileIn directory g) = false := by
  rw [isDirectory, any_eq_false] at h ⊢
  intro x hx
  rcases mem_assign hx with rfl | hx
  · rw [Path.parts_fileIn directory hf, Path.parts_fileIn directory hg, dropLast_concat]
    intro hbelow
    have hlength := ( isPrefixOf_iff_prefix.1 hbelow).length_le
    rw [length_append, length_singleton] at hlength
    omega
  · exact h x hx

lemma isDirectory_without {other : String} (h : files.isDirectory other = false) :
    (files.without path).isDirectory other = false := by
  rw [isDirectory, any_eq_false] at h ⊢
  exact fun f hf => h f (mem_of_mem_filter hf)

end Files

lemma failedPath_eq (directory : String) (h : IsPlain name) :
    failedPath directory name = fileIn directory (name ++ ".c.failed") :=
  withSuffix_source directory _ h

/-- After a build has been abandoned the C file is gone, and of all other files only that which it
    was moved to is new. -/
lemma has_abandoned {directory : String} (h : IsPlain name) {files : Files}
    (hroom : files.isDirectory (failedPath directory name) = false)
    (hsource : files.has (sourcePath directory name) = true) :
    (files.abandoned directory name).has (sourcePath directory name) = false ∧
      (files.abandoned directory name).has (readyPath directory name) =
        files.has (readyPath directory name) := by
  obtain ⟨text, htext⟩ := Option.isSome_iff_exists.1 hsource
  have hsource' := fileIn_ne directory h (s := ".c") (t := ".c.failed") (by decide)
    (by decide) (by decide)
  have hready' := fileIn_ne directory h (s := ".c.cached") (t := ".c.failed")
    (by decide) (by decide) (by decide)
  have hfiles : files.abandoned directory name = (files.without (sourcePath directory name)).write
      (failedPath directory name) text := by
    rw [Files.abandoned, join_source directory h, Files.rename, htext, ← failedPath]
    simp [hroom]
  rw [hfiles, failedPath_eq directory h, Files.has_write, Files.has_write, Files.has_without,
    Files.has_without]
  rw [← sourcePath_eq directory h] at hsource'
  rw [← readyPath_eq directory h] at hready'
  refine ⟨by simp [hsource'], ?_⟩
  rw [beq_eq_false_iff_ne.2 hready', bne_iff_ne.2 (readyPath_ne_sourcePath directory h)]
  rfl

lemma isDirectory_abandoned {directory : String} (h : IsPlain name) {files : Files}
    (hroom : files.isDirectory (failedPath directory name) = false) :
    (files.abandoned directory name).isDirectory (failedPath directory name) = false := by
  have hpart : Path.IsPart (name ++ ".c.failed") := Path.isPart_append h (by decide)
  rw [Files.abandoned, join_source directory h, ← failedPath]
  split
  · next moved hmoved =>
    rw [failedPath_eq directory h] at hroom hmoved ⊢
    unfold Files.rename at hmoved
    split at hmoved
    · split at hmoved
      · cases hmoved
      · cases hmoved
        exact Files.isDirectory_write hpart hpart _ (Files.isDirectory_without hroom)
    · cases hmoved
  · exact hroom

end Modules

end FormKernel
