import FormKernel.Proofs.Outcome
import FormKernel.Table.Values
import Mathlib

/-!
# Names of tables

The parts of a name are set apart by underscores, which occur nowhere else.  The derivatives are one
part, in which the numbers of derivatives follow each other without a mark between them: they can be
told apart as long as each of them is a single digit.
-/

namespace FormKernel.Table

open Form (Average EntityKind)
open Quadrature (Rule)
open List

/-! ## Texts that are split at a mark -/

section Marks

variable {α : Type} {mark : α} {xs xs' ys ys' : List α}

/-- A text is split at its first mark. -/
lemma append_mark_inj (hxs : mark ∉ xs) (hxs' : mark ∉ xs')
    (h : xs ++ mark :: ys = xs' ++ mark :: ys') : xs = xs' ∧ ys = ys' := by
  induction xs generalizing xs' with
  | nil =>
    cases xs' with
    | nil => exact ⟨rfl, (cons.inj h).2⟩
    | cons x xs' => exact absurd (cons.inj h).1 fun hx => hxs' (hx ▸ mem_cons_self)
  | cons x xs ih =>
    cases xs' with
    | nil => exact absurd (cons.inj h).1 fun hx => hxs (hx ▸ mem_cons_self)
    | cons x' xs' =>
      obtain ⟨rfl, htail⟩ := cons.inj h
      obtain ⟨rfl, rfl⟩ := ih (mt (mem_cons_of_mem _) hxs) (mt (mem_cons_of_mem _) hxs') htail
      exact ⟨rfl, rfl⟩

lemma append_last_mark_inj (hys : mark ∉ ys) (hys' : mark ∉ ys')
    (h : xs ++ mark :: ys = xs' ++ mark :: ys') : ys = ys' := by
  have hreverse := congrArg reverse h
  simp only [reverse_append, reverse_cons, append_assoc, singleton_append]
    at hreverse
  have hsplit := append_mark_inj (by simpa using hys) (by simpa using hys') hreverse
  exact reverse_injective hsplit.1

end Marks

/-! ## Digits -/

lemma underscore_notMem_hexDigits (n : Nat) : '_' ∉ Nat.toDigits 16 n := by
  induction n using Nat.strongRecOn with
  | ind n ih =>
    rw [Nat.toDigits_eq_if (by decide)]
    split
    · simp
    · rw [mem_append, not_or]
      refine ⟨ih _ (by omega), ?_⟩
      simp

/-- A digest is written in hexadecimal digits. -/
lemma underscore_notMem_id (rule : Rule) : '_' ∉ rule.id.toList := by
  rw [Rule.id, String.toList_ofList]
  refine fun h => ?_
  have hdigest := mem_of_mem_drop h
  rw [Rule.digest, Digest.State.hex, String.toList_ofList, mem_flatMap] at hdigest
  obtain ⟨w, -, hw⟩ := hdigest
  rw [Digest.wordDigits, mem_append] at hw
  rcases hw with hzero | hdigit
  · exact absurd (eq_of_mem_replicate hzero) (by decide)
  · exact underscore_notMem_hexDigits _ hdigit

lemma underscore_notMem_int (c : Int) : '_' ∉ (toString c).toList := by
  rw [Int.toString_eq_repr, Int.repr_eq_if]
  split
  · simp
  · simp

variable {ds ds' : List Nat} {averaged averaged' : Option Average} {entity : EntityKind} {n : Nat}
  {name average : String} {rule : Rule}

/-- Numbers of one digit can be read off a text without marks. -/
lemma digits_injective (hds : ∀ d ∈ ds, d ≤ 9) (hds' : ∀ d ∈ ds', d ≤ 9)
    (h : ds.flatMap (fun d => (toString d).toList) = ds'.flatMap fun d => (toString d).toList) :
    ds = ds' := by
  have hdigit : ∀ {d : Nat}, d ≤ 9 → (toString d).toList = [d.digitChar] := fun hd => by
    rw [Nat.toString_eq_repr, Nat.repr_of_lt (by omega)]
    simp
  induction ds generalizing ds' with
  | nil =>
    cases ds' with
    | nil => rfl
    | cons d' ds' =>
      rw [flatMap_cons, hdigit (hds' d' mem_cons_self)] at h
      cases h
  | cons d ds ih =>
    have hd := hds d mem_cons_self
    cases ds' with
    | nil =>
      rw [flatMap_cons, hdigit hd] at h
      cases h
    | cons d' ds' =>
      have hd' := hds' d' mem_cons_self
      rw [flatMap_cons, flatMap_cons, hdigit hd, hdigit hd'] at h
      obtain ⟨hfirst, hrest⟩ := cons.inj h
      have hrepr : d.repr = d'.repr := by
        rw [Nat.repr_of_lt (by omega), Nat.repr_of_lt (by omega), hfirst]
      rw [Nat.repr_inj.1 hrepr, ih (fun x hx => hds x (mem_cons_of_mem _ hx))
        (fun x hx => hds' x (mem_cons_of_mem _ hx)) hrest]

/-! ## The parts of a name -/

lemma toList_derivativeMark (ds : List Nat) : (derivativeMark ds).toList =
    if ds.any (· != 0) then '_' :: 'D' :: ds.flatMap fun d => (toString d).toList else [] := by
  rw [derivativeMark]
  split
  · simp [String.toList_append, String.toList_join, flatMap_map]
  · rfl

lemma tableName_eq_ok {c : Option Int} (h : tableName rule n averaged entity ds c = .ok name) :
    ∃ average place, averageMark averaged = .ok average ∧ entityMark entity = .ok place ∧
      name.toList = 'F' :: 'E' :: (toString n).toList ++ (componentMark c).toList ++
        (derivativeMark ds).toList ++ average.toList ++ place.toList ++
        '_' :: 'Q' :: rule.id.toList := by
  obtain ⟨average, haverage, place, hplace, id, hid, h⟩ := bind₃_eq_ok.1 h
  obtain rfl : rule.id = id := by
    rw [Rule.name] at hid
    split at hid
    · exact Except.ok.inj hid
    · cases hid
  refine ⟨average, place, haverage, hplace, ?_⟩
  have htext : ∀ s : String, toString s = s := fun _ => rfl
  rw [← pure_eq_ok.1 h]
  simp [String.toList_append, htext]

/-! ## Tables of different rules -/

/-- A name that ends in the digits of a rule. -/
def NamedFor (rule : Rule) (name : String) : Prop :=
  ∃ start, name.toList = start ++ '_' :: 'Q' :: rule.id.toList

lemma namedFor_of_tableName {c : Option Int}
    (h : tableName rule n averaged entity ds c = .ok name) : NamedFor rule name := by
  obtain ⟨_, _, _, _, hname⟩ := tableName_eq_ok h
  exact ⟨_, hname⟩

/-- A name tells the rule of its table. -/
lemma NamedFor.id_eq {rule' : Rule} (h : NamedFor rule name) (h' : NamedFor rule' name) :
    rule.id = rule'.id := by
  obtain ⟨start, hstart⟩ := h
  obtain ⟨start', hstart'⟩ := h'
  have hmark : ∀ r : Rule, '_' ∉ 'Q' :: r.id.toList := fun r => by
    simpa using underscore_notMem_id r
  have hid := append_last_mark_inj (hmark rule) (hmark rule') (hstart.symm.trans hstart')
  exact String.toList_inj.1 (cons.inj hid).2

/-! ## Tables of one rule -/

lemma averageMark_injective (h : averageMark averaged = .ok average)
    (h' : averageMark averaged' = .ok average) : averaged = averaged' := by
  rcases averaged with _ | _ | _ | _ <;> rcases averaged' with _ | _ | _ | _ <;>
    first
    | rfl
    | exact absurd h misfit_ne_ok
    | exact absurd h' misfit_ne_ok
    | exact absurd (h.trans h'.symm) (by simp [averageMark])

lemma head?_derivativeMark (ds : List Nat) :
    (derivativeMark ds).toList.head? = none ∨ (derivativeMark ds).toList.head? = some '_' := by
  rw [toList_derivativeMark]
  split <;> simp

lemma head?_averageMark (h : averageMark averaged = .ok average) :
    average.toList.head? = none ∨ average.toList.head? = some '_' := by
  rcases averaged with _ | _ | _ | _ <;> simp only [averageMark, Except.ok.injEq] at h
  · simp [← h]
  · simp [← h]
  · simp [← h]
  · cases h

lemma head?_entityMark {place : String} (h : entityMark entity = .ok place) :
    place.toList.head? = none ∨ place.toList.head? = some '_' := by
  cases entity <;> simp only [entityMark, Except.ok.injEq] at h
  · simp [← h]
  · simp [← h]
  · simp [← h]
  · cases h

/-- An average is told behind an underscore, and never by the letter of the derivatives. -/
lemma exists_tail_averageMark (h : averageMark averaged = .ok average) :
    ∃ tail, average.toList ++ ['_'] = '_' :: tail ∧ 'D' ∉ tail := by
  rcases averaged with _ | _ | _ | _ <;> simp only [averageMark, Except.ok.injEq] at h
  · exact ⟨[], by simp [← h]⟩
  · exact ⟨['A', 'C', '_'], by simp [← h]⟩
  · exact ⟨['A', 'F', '_'], by simp [← h]⟩
  · cases h

/-- The derivatives and the average of a table can be told apart. -/
lemma derivativeMark_append_inj {average' : String} (hds : ∀ d ∈ ds, d ≤ 9)
    (hds' : ∀ d ∈ ds', d ≤ 9)
    (hlength : ds.length = ds'.length) (ha : averageMark averaged = .ok average)
    (ha' : averageMark averaged' = .ok average') (h : (derivativeMark ds).toList ++ average.toList =
      (derivativeMark ds').toList ++ average'.toList) : ds = ds' ∧ averaged = averaged' := by
  obtain ⟨tail, htail, hD⟩ := exists_tail_averageMark ha
  obtain ⟨tail', htail', hD'⟩ := exists_tail_averageMark ha'
  have hdigits : ∀ xs : List Nat, '_' ∉ xs.flatMap fun d => (toString d).toList := fun xs => by
    simp [Nat.toString_eq_repr]
  -- with an underscore at the end there is one behind the derivatives, averaged or not
  have hmarked : (derivativeMark ds).toList ++ '_' :: tail =
      (derivativeMark ds').toList ++ '_' :: tail' := by
    rw [← htail, ← htail', ← append_assoc, h, append_assoc]
  have haverage : tail = tail' → averaged = averaged' := by
    rintro rfl
    have hsame := append_cancel_right (htail.trans htail'.symm)
    exact averageMark_injective ha (String.toList_inj.1 hsame ▸ ha')
  rw [toList_derivativeMark, toList_derivativeMark] at hmarked
  cases hany : ds.any (· != 0) <;> cases hany' : ds'.any (· != 0) <;>
    simp only [hany, hany', if_true, Bool.false_eq_true, if_false, nil_append,
      cons_append, cons.injEq, true_and] at hmarked
  case false.false =>
    have hzero : ds = replicate ds.length 0 := eq_replicate_of_mem (by simpa using hany)
    have hzero' : ds' = replicate ds'.length 0 := eq_replicate_of_mem (by simpa using hany')
    exact ⟨by rw [hzero, hzero', hlength], haverage hmarked⟩
  case false.true => exact absurd (hmarked ▸ mem_cons_self) hD
  case true.false => exact absurd (hmarked ▸ mem_cons_self) hD'
  case true.true =>
    obtain ⟨hsame, htails⟩ := append_mark_inj (hdigits ds) (hdigits ds') hmarked
    exact ⟨digits_injective hds hds' hsame, haverage htails⟩

/-- As long as nothing is differentiated ten times in one direction, a name tells the number of the
    element, the average, the derivatives and the component of its table. -/
lemma tableName_injective {n' : Nat} {c c' : Int} (hds : ∀ d ∈ ds, d ≤ 9) (hds' : ∀ d ∈ ds', d ≤ 9)
    (hlength : ds.length = ds'.length) (h : tableName rule n averaged entity ds (some c) = .ok name)
    (h' : tableName rule n' averaged' entity ds' (some c') = .ok name) :
    n = n' ∧ averaged = averaged' ∧ ds = ds' ∧ c = c' := by
  obtain ⟨average, place, ha, hplace, hname⟩ := tableName_eq_ok h
  obtain ⟨average', place', ha', hplace', hname'⟩ := tableName_eq_ok h'
  obtain rfl : place = place' := Except.ok.inj (hplace.symm.trans hplace')
  have hcomponent : ∀ c : Int, (componentMark (some c)).toList =
      '_' :: 'C' :: (toString c).toList :=
    fun c => by simp [componentMark, String.toList_append]; rfl
  have hsame := hname.symm.trans hname'
  simp only [hcomponent, cons_append, cons.injEq, true_and, append_assoc] at hsame
  have hnat : ∀ k : Nat, '_' ∉ (toString k).toList := fun k => by simp [Nat.toString_eq_repr]
  obtain ⟨hnumber, hrest⟩ := append_mark_inj (hnat n) (hnat n') hsame
  -- what comes after the component starts with an underscore, whichever parts there are
  have hmark : ∀ {ds : List Nat} {averaged : Option Average} {average : String} (rest : List Char),
      averageMark averaged = .ok average → ∃ tail, (derivativeMark ds).toList ++
        (average.toList ++ (place.toList ++ '_' :: rest)) = '_' :: tail := by
    intro ds averaged average rest ha
    rw [← head?_eq_some_iff, head?_append, head?_append, head?_append]
    rcases head?_derivativeMark ds with hd | hd <;> rcases head?_averageMark ha with ha | ha <;>
      rcases head?_entityMark hplace with hp | hp <;> simp [hd, ha, hp]
  obtain ⟨tail, htail⟩ := hmark _ ha
  obtain ⟨tail', htail'⟩ := hmark _ ha'
  rw [htail, htail'] at hrest
  obtain ⟨hc, htails⟩ := append_mark_inj (underscore_notMem_int c) (underscore_notMem_int c')
    (cons.inj hrest).2
  have hparts := htail.trans (htails ▸ htail'.symm)
  simp only [← append_assoc] at hparts
  obtain ⟨rfl, rfl⟩ := derivativeMark_append_inj hds hds' hlength ha ha'
    (append_cancel_right (append_cancel_right hparts))
  refine ⟨Nat.repr_inj.1 (String.toList_inj.1 ?_), rfl, rfl,
    Int.repr_inj.1 (String.toList_inj.1 ?_)⟩
  · simpa only [Nat.toString_eq_repr] using hnumber
  · simpa only [Int.toString_eq_repr] using hc

-- counts of ten or more run together
example : derivativeMark [1, 10] = derivativeMark [11, 0] := by decide +kernel

end FormKernel.Table
