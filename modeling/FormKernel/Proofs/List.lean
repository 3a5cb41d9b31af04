import FormKernel.Form.Expr
import FormKernel.Graph.Basic
import FormKernel.Proofs.Outcome
import Mathlib.Data.List.Nodup

/-!
# Lists without repetitions and lists of entries

Generic lemmas about `distinct`, which drops repeated items, and about `assign`, which sets an
entry of a list of keys with values.
-/

namespace FormKernel

open List

variable {α β : Type}

namespace Form

/-! ## Repeated items -/

section Distinct

variable [BEq α] [LawfulBEq α]

private lemma distinct_go (xs acc : List α) (hacc : acc.Nodup) :
    let out := xs.foldl (fun out x => if out.contains x then out else out ++ [x]) acc
    out.Nodup ∧ ∀ x, x ∈ out ↔ x ∈ acc ∨ x ∈ xs := by
  induction xs generalizing acc with
  | nil => exact ⟨hacc, by simp⟩
  | cons y ys ih =>
    rw [foldl_cons]
    split
    · next h =>
      have hy : y ∈ acc := by simpa using h
      refine ⟨(ih acc hacc).1, fun x => ?_⟩
      rw [(ih acc hacc).2, mem_cons]
      exact ⟨fun h => h.elim .inl fun h => .inr (.inr h),
        fun h => h.elim .inl fun h => h.elim (fun h => .inl (h ▸ hy)) .inr⟩
    · next h =>
      have hy : y ∉ acc := by simpa using h
      have hnodup : (acc ++ [y]).Nodup := by
        rw [nodup_append]
        exact ⟨hacc, nodup_singleton y, fun a ha b hb => by
          rw [mem_singleton] at hb
          exact fun hab => hy (hb ▸ hab ▸ ha)⟩
      refine ⟨(ih _ hnodup).1, fun x => ?_⟩
      rw [(ih _ hnodup).2, mem_append, mem_singleton, mem_cons, or_assoc]

lemma nodup_distinct (xs : List α) : (distinct xs).Nodup := (distinct_go xs [] nodup_nil).1

variable {xs : List α}

@[simp] lemma mem_distinct {x : α} : x ∈ distinct xs ↔ x ∈ xs := by
  rw [distinct, (distinct_go xs [] nodup_nil).2]
  simp

private lemma distinct_go_self (xs acc : List α) (h : (acc ++ xs).Nodup) :
    xs.foldl (fun out x => if out.contains x then out else out ++ [x]) acc = acc ++ xs := by
  induction xs generalizing acc with
  | nil => simp
  | cons y ys ih =>
    have hy : acc.contains y = false := by
      rw [nodup_append] at h
      simpa using fun hmem => h.2.2 y hmem y (by simp) rfl
    rw [foldl_cons, hy, if_neg Bool.false_ne_true, ih _ (by simpa using h)]
    simp

/-- A list without repetitions is kept. -/
lemma distinct_eq_self (h : xs.Nodup) : distinct xs = xs :=
  distinct_go_self xs [] (by simpa using h)

end Distinct

end Form

/-! ## Related lists -/

variable {R : α → β → Prop} {xs : List α} {ys : List β}

lemma exists_of_forall₂_right (h : Forall₂ R xs ys) {y : β} (hy : y ∈ ys) : ∃ x ∈ xs, R x y := by
  induction h with
  | nil => simp at hy
  | cons hxy _ ih =>
    rcases mem_cons.1 hy with rfl | hy
    · exact ⟨_, mem_cons_self, hxy⟩
    · obtain ⟨x, hx, hxy⟩ := ih hy
      exact ⟨x, mem_cons_of_mem _ hx, hxy⟩

lemma exists_of_mapM {f : α → Outcome β} (h : xs.mapM f = .ok ys) {y : β} (hy : y ∈ ys) :
    ∃ x ∈ xs, f x = .ok y := exists_of_forall₂_right (mapM_eq_ok.1 h) hy

variable {a : α} {bs : List β}

lemma forall₂_one (h : Forall₂ R [a] bs) : ∃ b, R a b ∧ bs = [b] := by
  obtain ⟨b, _, hab, hnil, rfl⟩ := forall₂_cons_left_iff.1 h
  exact ⟨b, hab, by rw [forall₂_nil_left_iff.1 hnil]⟩

lemma forall₂_two {a' : α} (h : Forall₂ R [a, a'] bs) : ∃ b b', R a b ∧ R a' b' ∧ bs = [b, b'] := by
  obtain ⟨b, _, hab, hrest, rfl⟩ := forall₂_cons_left_iff.1 h
  obtain ⟨b', hab', rfl⟩ := forall₂_one hrest
  exact ⟨b, b', hab, hab', rfl⟩

lemma forall₂_append_left {ys : List α} {zs : List β} (h : Forall₂ R (xs ++ ys) zs) :
    ∃ us vs, Forall₂ R xs us ∧ Forall₂ R ys vs ∧ zs = us ++ vs := by
  induction xs generalizing zs with
  | nil => exact ⟨[], zs, .nil, h, rfl⟩
  | cons x xs ih =>
    obtain ⟨z, zs, hz, hzs, rfl⟩ := forall₂_cons_left_iff.1 h
    obtain ⟨us, vs, hus, hvs, rfl⟩ := ih hzs
    exact ⟨z :: us, vs, .cons hz hus, hvs, rfl⟩

lemma forall₂_imp_of_mem {S : α → β → Prop} (h : Forall₂ R xs ys)
    (hstep : ∀ x ∈ xs, ∀ {y}, R x y → S x y) : Forall₂ S xs ys := by
  induction h with
  | nil => exact .nil
  | cons hxy _ ih =>
    rw [forall_mem_cons] at hstep
    exact .cons (hstep.1 hxy) (ih hstep.2)

/-- Choices made for each item. -/
lemma exists_forall₂ (h : ∀ x ∈ xs, ∃ y, R x y) : ∃ ys, Forall₂ R xs ys := by
  induction xs with
  | nil => exact ⟨[], .nil⟩
  | cons x xs ih =>
    rw [forall_mem_cons] at h
    obtain ⟨y, hy⟩ := h.1
    obtain ⟨ys, hys⟩ := ih h.2
    exact ⟨y :: ys, .cons hy hys⟩

lemma getElem?_take_eq_some {xs : List α} {n k : Nat} {x : α} (h : (xs.take n)[k]? = some x) :
    k < n ∧ xs[k]? = some x := by
  rw [getElem?_take] at h
  split at h
  · next hlt => exact ⟨hlt, h⟩
  · cases h

/-- An item of a list with one more item is an item of the list or the new one. -/
lemma getElem?_concat {xs : List α} {x y : α} {n : Nat} (h : (xs ++ [x])[n]? = some y) :
    xs[n]? = some y ∨ n = xs.length ∧ y = x := by
  rw [getElem?_append] at h
  split at h
  · exact .inl h
  · rw [getElem?_singleton] at h
    split at h
    · exact .inr ⟨by omega, (Option.some.inj h).symm⟩
    · cases h

lemma getElem?_of_forall₂ (h : Forall₂ R xs ys) {i : Nat} {x : α} (hx : xs[i]? = some x) :
    ∃ y, ys[i]? = some y ∧ R x y := by
  induction h generalizing i with
  | nil => simp at hx
  | cons hxy _ ih =>
    cases i with
    | zero => exact ⟨_, rfl, by obtain rfl := Option.some.inj hx; exact hxy⟩
    | succ i => exact ih hx

/-- The items of a numbered list. -/
lemma map_snd_zip_range {γ : Type} (f : β → γ) (vs : List β) :
    ((range vs.length).zip vs).map (fun p => f p.2) = vs.map f := by
  have hsnd : ((range vs.length).zip vs).map Prod.snd = vs := map_snd_zip (by simp)
  conv_rhs => rw [← hsnd, map_map]
  rfl

/-! ## Entries -/

section AnyEntries

variable [BEq α] {l : List (α × β)} {v : β}

/-- What is found stands in the list, under an equal key. -/
lemma exists_mem_of_lookup_eq_some {k : α} (h : l.lookup k = some v) : ∃ p ∈ l, p.2 = v := by
  induction l with
  | nil => cases h
  | cons p l ih =>
    rw [lookup_cons] at h
    split at h
    · exact ⟨p, mem_cons_self, Option.some.inj h⟩
    · obtain ⟨q, hq, hv⟩ := ih h
      exact ⟨q, mem_cons_of_mem _ hq, hv⟩

lemma snd_of_mem_assign {key : α} {x : α × β} (h : x ∈ assign key v l) : x.2 = v ∨ x ∈ l := by
  induction l with
  | nil => exact .inl (by rw [mem_singleton.1 h])
  | cons p l ih =>
    rw [assign] at h
    split at h
    · rcases mem_cons.1 h with rfl | h
      · exact .inl rfl
      · exact .inr (mem_cons_of_mem _ h)
    · rcases mem_cons.1 h with rfl | h
      · exact .inr mem_cons_self
      · exact (ih h).imp_right (mem_cons_of_mem _)

end AnyEntries

section PartialEntries

variable [BEq α] [PartialEquivBEq α]

/-- Equal keys are both known or both unknown. -/
lemma lookup_congr {l : List (α × β)} {k k' : α}
    (h : (k == k') = true) : l.lookup k = l.lookup k' := by
  induction l with
  | nil => rfl
  | cons p l ih => rw [lookup_cons, lookup_cons, BEq.congr_left h, ih]

lemma lookup_assign (key k : α) (v : β) (l : List (α × β)) :
    (assign key v l).lookup k = if k == key then some v else l.lookup k := by
  induction l with
  | nil =>
    rw [assign, lookup_cons]
    cases k == key <;> rfl
  | cons p l ih =>
    rw [assign]
    split
    · next h =>
      rw [lookup_cons, lookup_cons, ← BEq.congr_right h]
      cases k == p.1 <;> rfl
    · next h =>
      rw [lookup_cons, lookup_cons, ih]
      cases hk : k == p.1 with
      | true => rw [BEq.congr_left hk, if_neg h, if_neg h]
      | false => rfl

lemma isSome_lookup_assign (key k : α) (v : β) (l : List (α × β)) :
    ((assign key v l).lookup k).isSome = (k == key || (l.lookup k).isSome) := by
  rw [lookup_assign]
  cases k == key <;> rfl

/-- The last item with a key sets the entry. -/
lemma lookup_foldl_assign {γ : Type} (key : γ → α) (value : γ → β) (xs : List γ)
    (l : List (α × β)) (k : α) : (xs.foldl (fun out x => assign (key x) (value x) out) l).lookup k =
      ((xs.reverse.find? fun x => k == key x).map value).or (l.lookup k) := by
  induction xs generalizing l with
  | nil => rfl
  | cons x xs ih =>
    rw [foldl_cons, ih, lookup_assign, reverse_cons, find?_append]
    cases xs.reverse.find? fun x => k == key x with
    | some y => rfl
    | none => cases hx : k == key x <;> simp [hx]

end PartialEntries

section Entries

variable [BEq α] [LawfulBEq α] {k key : α} {l : List (α × β)} {v : β}

lemma lookup_eq_none_of_notMem (h : k ∉ l.map (·.1)) : l.lookup k = none := by
  rw [lookup_eq_none_iff]
  rintro ⟨k', x⟩ hmem
  rw [bne_iff_ne]
  rintro rfl
  exact h (mem_map.2 ⟨_, hmem, rfl⟩)

lemma mem_of_lookup_eq_some (h : l.lookup k = some v) : (k, v) ∈ l := by
  induction l with
  | nil => simp at h
  | cons p l ih =>
    obtain ⟨k', v'⟩ := p
    rw [lookup_cons] at h
    split at h
    · next hk =>
      rw [eq_of_beq hk, ← Option.some.inj h]
      exact mem_cons_self
    · exact mem_cons_of_mem _ (ih h)

lemma lookup_eq_some_of_mem (hl : (l.map (·.1)).Nodup) (h : (k, v) ∈ l) : l.lookup k = some v := by
  induction l with
  | nil => simp at h
  | cons p l ih =>
    obtain ⟨k', v'⟩ := p
    rw [map_cons, nodup_cons] at hl
    rw [lookup_cons]
    rcases mem_cons.1 h with heq | hmem
    · obtain ⟨rfl, rfl⟩ : k = k' ∧ v = v' := by simpa using heq
      simp
    · have hne : k ≠ k' := by
        rintro rfl
        exact hl.1 (mem_map.2 ⟨_, hmem, rfl⟩)
      rw [beq_false_of_ne hne]
      exact ih hl.2 hmem

/-- Looking up all keys in turn gives the entries back. -/
lemma filterMap_lookup_keys (hl : (l.map (·.1)).Nodup) :
    (l.map (·.1)).filterMap (fun k => (l.lookup k).map fun v => (k, v)) = l := by
  rw [filterMap_map]
  have hall : ∀ p ∈ l, ((fun k => (l.lookup k).map fun v => (k, v)) ∘ (·.1)) p = some p := by
    rintro ⟨k, v⟩ hmem
    simp [lookup_eq_some_of_mem hl hmem]
  rw [filterMap_congr hall, filterMap_some]

lemma lookup_map_snd {γ : Type} (f : α → β → γ) (l : List (α × β)) (k : α) :
    (l.map fun p => (p.1, f p.1 p.2)).lookup k = (l.lookup k).map (f k) := by
  induction l with
  | nil => rfl
  | cons p l ih =>
    rw [map_cons, lookup_cons, lookup_cons, ih]
    cases hk : k == p.1 with
    | true => rw [eq_of_beq hk]; rfl
    | false => rfl

/-- Looking up numbered entries. -/
lemma lookup_zip_range (vs : List β) (i : Nat) : ((range vs.length).zip vs).lookup i = vs[i]? := by
  have hkeys : ((range vs.length).zip vs).map (·.1) = range vs.length := map_fst_zip (by simp)
  by_cases hi : i < vs.length
  · rw [getElem?_eq_getElem hi]
    refine lookup_eq_some_of_mem (by rw [hkeys]; exact nodup_range) ?_
    exact mem_iff_getElem.2 ⟨i, by simpa using hi, by simp⟩
  · rw [lookup_eq_none_of_notMem (by simpa [hkeys] using hi),
      getElem?_eq_none (Nat.le_of_not_lt hi)]

lemma lookup_alter (key k : α) (f : β → β) (l : List (α × β)) :
    (alter key f l).lookup k = if k == key then (l.lookup k).map f else l.lookup k := by
  induction l with
  | nil => simp [alter]
  | cons p l ih =>
    obtain ⟨k', v⟩ := p
    have hcons : alter key f ((k', v) :: l) =
        (k', if k' == key then f v else v) :: alter key f l := by
      rw [alter, alter, map_cons]
      dsimp only
      split <;> rfl
    rw [hcons, lookup_cons, lookup_cons, ih]
    cases hkk' : k == k' with
    | true =>
      obtain rfl := eq_of_beq hkk'
      cases k == key <;> rfl
    | false => rfl

omit [LawfulBEq α] in
lemma keys_alter (key : α) (f : β → β)
    (l : List (α × β)) : (alter key f l).map (·.1) = l.map (·.1) := by
  rw [alter, map_map]
  refine map_congr_left fun p _ => ?_
  dsimp only [Function.comp]
  split <;> rfl

/-- A new key comes last. -/
lemma assign_of_notMem (h : key ∉ l.map (·.1)) : assign key v l = l ++ [(key, v)] := by
  induction l with
  | nil => rfl
  | cons p l ih =>
    rw [map_cons, mem_cons, not_or] at h
    rw [assign, beq_false_of_ne (Ne.symm h.1), if_neg Bool.false_ne_true, ih h.2, cons_append]

lemma mem_assign {x : α × β} (h : x ∈ assign key v l) : x = (key, v) ∨ x ∈ l := by
  induction l with
  | nil => exact .inl (mem_singleton.1 h)
  | cons p l ih =>
    rw [assign] at h
    split at h
    · next hkey =>
      rcases mem_cons.1 h with rfl | h
      · exact .inl (by rw [eq_of_beq hkey])
      · exact .inr (mem_cons_of_mem _ h)
    · rcases mem_cons.1 h with rfl | h
      · exact .inr mem_cons_self
      · exact (ih h).imp_right (mem_cons_of_mem _)

lemma mem_keys_assign : k ∈ (assign key v l).map (·.1) ↔ k = key ∨ k ∈ l.map (·.1) := by
  induction l with
  | nil => simp [assign]
  | cons p l ih =>
    rw [assign]
    split
    · next h => simp [eq_of_beq h]
    · rw [map_cons, mem_cons, ih, map_cons, mem_cons, or_left_comm]

lemma nodup_keys_assign (h : (l.map (·.1)).Nodup) : ((assign key v l).map (·.1)).Nodup := by
  induction l with
  | nil => simp [assign]
  | cons p l ih =>
    rw [map_cons, nodup_cons] at h
    rw [assign]
    split
    · rwa [map_cons, nodup_cons]
    · next hne =>
      rw [map_cons, nodup_cons, mem_keys_assign, not_or]
      exact ⟨⟨by simpa using hne, h.1⟩, ih h.2⟩

lemma isSome_lookup_of_mem (h : (k, v) ∈ l) : (l.lookup k).isSome := by
  rw [Option.isSome_iff_ne_none]
  intro hnone
  simpa using lookup_eq_none_iff.1 hnone _ h

variable {γ : Type} {key : γ → α} {value : γ → β} {xs : List γ}

lemma mem_foldl_assign {a : α × β}
    (h : a ∈ xs.foldl (fun out x => assign (key x) (value x) out) l) :
    (∃ x ∈ xs, a = (key x, value x)) ∨ a ∈ l := by
  induction xs generalizing l with
  | nil => exact .inr h
  | cons x xs ih =>
    rcases ih h with ⟨y, hy, ha⟩ | ha
    · exact .inl ⟨y, mem_cons_of_mem _ hy, ha⟩
    · exact (mem_assign ha).imp_left fun ha => ⟨x, mem_cons_self, ha⟩

lemma isSome_lookup_foldl_assign :
    ((xs.foldl (fun out x => assign (key x) (value x) out) l).lookup k).isSome ↔
      (∃ x ∈ xs, key x = k) ∨ (l.lookup k).isSome := by
  rw [lookup_foldl_assign, Option.isSome_or, Bool.or_eq_true, Option.isSome_map, find?_isSome]
  simp [eq_comm (a := k)]

/-- Setting several entries changes no others. -/
lemma lookup_foldl_assign_of_notMem (h : ∀ x ∈ xs, key x ≠ k) :
    (xs.foldl (fun out x => assign (key x) (value x) out) l).lookup k = l.lookup k := by
  rw [lookup_foldl_assign, find?_eq_none.2 (by simpa [eq_comm (a := k)] using h)]
  rfl

/-- An entry that is only ever set to one value has this value. -/
lemma lookup_foldl_assign_of_mem (h : ∃ x ∈ xs, key x = k)
    (hall : ∀ x ∈ xs, key x = k → value x = v) :
    (xs.foldl (fun out x => assign (key x) (value x) out) l).lookup k = some v := by
  rw [lookup_foldl_assign]
  cases hfind : xs.reverse.find? fun x => k == key x with
  | none =>
    obtain ⟨x, hx, rfl⟩ := h
    simpa using find?_eq_none.1 hfind x (mem_reverse.2 hx)
  | some x =>
    rw [Option.map_some, hall x (mem_reverse.1 (mem_of_find?_eq_some hfind))
      (by simpa [eq_comm (a := k)] using find?_some hfind)]
    rfl

/-- An entry was there before, or it has been set. -/
lemma lookup_foldl_assign_eq_some
    (h : (xs.foldl (fun out x => assign (key x) (value x) out) l).lookup k = some v) :
    (∃ x ∈ xs, key x = k ∧ value x = v) ∨ l.lookup k = some v := by
  rw [lookup_foldl_assign, Option.or_eq_some_iff, Option.map_eq_some_iff] at h
  rcases h with ⟨x, hx, hv⟩ | ⟨-, h⟩
  · exact .inl ⟨x,
      mem_reverse.1 (mem_of_find?_eq_some hx), by simpa [eq_comm (a := k)] using find?_some hx, hv⟩
  · exact .inr h

lemma nodup_keys_foldl_assign (h : (l.map (·.1)).Nodup) :
    ((xs.foldl (fun out x => assign (key x) (value x) out) l).map (·.1)).Nodup := by
  induction xs generalizing l with
  | nil => exact h
  | cons x xs ih => exact ih (nodup_keys_assign h)

end Entries

end FormKernel
