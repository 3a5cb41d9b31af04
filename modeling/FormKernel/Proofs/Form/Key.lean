import FormKernel.Form.Modified
import FormKernel.Proofs.Sorting
import Mathlib.Tactic.Common

/-!
# The order of modified arguments

The keys of modified arguments are compared part by part.  A part that one key has and the other
lacks cannot be compared, so the comparison may fail.  Where it answers, its answers are those of an
order, and a sort by them gives a list in order.
-/

namespace FormKernel.Form.ModifiedTerminal

/-! ## Comparisons that may fail -/

/-- The answers of a comparison that may fail fit together. -/
structure Coherent {α : Type} (c : α → α → Outcome Ordering) : Prop where
  swap : ∀ {a b o}, c a b = .ok o → c b a = .ok o.swap
  congr : ∀ {a b}, c a b = .ok .eq → ∀ d, c a d = c b d
  lt_trans : ∀ {a b d}, c a b = .ok .lt → c b d = .ok .lt → c a d = .ok .lt

/-- Compares by one comparison, and by another what it finds equal. -/
def andThen {α : Type} (c c' : α → α → Outcome Ordering) (a b : α) : Outcome Ordering := do
  let o ← c a b
  if o != .eq then return o
  c' a b

section

variable {α β : Type} {c c' : α → α → Outcome Ordering} {a b d : α} {o : Ordering}

lemma andThen_eq_ok : andThen c c' a b = .ok o ↔
    (c a b = .ok o ∧ o ≠ .eq) ∨ (c a b = .ok .eq ∧ c' a b = .ok o) := by
  rw [andThen, bind_eq_ok]
  constructor
  · rintro ⟨o', ho', h⟩
    cases o' with
    | eq => exact .inr ⟨ho', h⟩
    | lt | gt =>
      cases h
      exact .inl ⟨ho', by simp⟩
  · rintro (⟨ho, hne⟩ | ⟨heq, ho⟩)
    · refine ⟨o, ho, ?_⟩
      rw [if_pos (by simpa using hne)]
      rfl
    · exact ⟨.eq, heq, ho⟩

lemma Coherent.congr_right (h : Coherent c) (hab : c a b = .ok .eq) (hd : c d a = .ok o) :
    c d b = .ok o := by
  have hflip : c b d = .ok o.swap := by
    rw [← h.congr hab]
    exact h.swap hd
  simpa using h.swap hflip

lemma Coherent.andThen (h : Coherent c) (h' : Coherent c') : Coherent (andThen c c') where
  swap hab := by
    rw [andThen_eq_ok] at hab ⊢
    rcases hab with ⟨hab, hne⟩ | ⟨hab, hab'⟩
    · exact .inl ⟨h.swap hab, by simpa using hne⟩
    · exact .inr ⟨h.swap hab, h'.swap hab'⟩
  congr hab d := by
    rcases andThen_eq_ok.1 hab with ⟨-, hne⟩ | ⟨hab, hab'⟩
    · exact absurd rfl hne
    · rw [ModifiedTerminal.andThen, ModifiedTerminal.andThen, h.congr hab, h'.congr hab']
  lt_trans hab hbd := by
    rw [andThen_eq_ok] at hab hbd ⊢
    rcases hab with ⟨hab, -⟩ | ⟨hab, hab'⟩ <;> rcases hbd with ⟨hbd, -⟩ | ⟨hbd, hbd'⟩
    · exact .inl ⟨h.lt_trans hab hbd, by simp⟩
    · exact .inl ⟨h.congr_right hbd hab, by simp⟩
    · exact .inl ⟨(h.congr hab _).trans hbd, by simp⟩
    · exact .inr ⟨(h.congr hab _).trans hbd, h'.lt_trans hab' hbd'⟩

/-- Comparing a part by an order. -/
lemma coherent_ok (cmp : β → β → Ordering) [Std.TransCmp cmp] (f : α → β) :
    Coherent fun a b => .ok (cmp (f a) (f b)) where
  swap {a b o} hab := by
    rw [← Except.ok.inj hab, ← Std.OrientedCmp.eq_swap]
  congr hab d := congrArg Except.ok (Std.TransCmp.congr_left (Except.ok.inj hab))
  lt_trans hab hbd :=
  congrArg Except.ok (Std.TransCmp.lt_trans (Except.ok.inj hab) (Except.ok.inj hbd))

/-- Comparing a part that may be missing. -/
lemma coherent_compareGiven (cmp : β → β → Ordering) [Std.TransCmp cmp] (f : α → Option β) :
    Coherent fun a b => Key.compareGiven cmp (f a) (f b) where
  swap {a b o} hab := by
    cases ha : f a <;> cases hb : f b <;> simp only [ha, hb, Key.compareGiven] at hab ⊢
    · rw [← Except.ok.inj hab]
      rfl
    · cases hab
    · cases hab
    · rw [← Except.ok.inj hab, ← Std.OrientedCmp.eq_swap]
  congr {a b} hab d := by
    cases ha : f a <;> cases hb : f b <;> simp only [ha, hb, Key.compareGiven] at hab
    · rfl
    · cases hab
    · cases hab
    · cases f d with
      | none => rfl
      | some z => exact congrArg Except.ok (Std.TransCmp.congr_left (Except.ok.inj hab))
  lt_trans {a b d} hab hbd := by
    cases ha : f a <;> cases hb : f b <;> cases hd : f d <;>
      simp only [ha, hb, hd, Key.compareGiven] at hab hbd ⊢
    · exact hab
    · cases hbd
    · cases hab
    · cases hab
    · cases hab
    · cases hab
    · cases hbd
    · exact congrArg Except.ok (Std.TransCmp.lt_trans (Except.ok.inj hab) (Except.ok.inj hbd))

end

/-! ## Keys -/

namespace Key

/-- The order of the parts that all keys have, after number and part. -/
def compareMiddle : Key → Key → Ordering :=
  compareLex (compareOn (·.reference)) (compareLex (compareOn (·.flatComponent))
    (compareLex (compareOn (·.globalDerivatives)) (compareOn (·.localDerivatives))))

instance : Std.TransCmp compareMiddle := by
  unfold compareMiddle
  infer_instance

lemma compare_eq : compare = andThen (fun a b => .ok (Ord.compare a.number b.number))
    (andThen (fun a b => compareGiven Ord.compare a.part b.part)
    (andThen (fun a b => .ok (compareMiddle a b))
    (andThen (fun a b => compareGiven (fun x y => Ord.compare x.name y.name) a.averaged b.averaged)
      fun a b => compareGiven
        (fun x y => Ord.compare x.sign y.sign) a.restriction b.restriction))) :=
  rfl

/-- The answers of the comparison of keys fit together. -/
lemma coherent_compare : Coherent compare := by
  rw [compare_eq]
  refine (coherent_ok Ord.compare Key.number).andThen ?_
  refine (coherent_compareGiven Ord.compare Key.part).andThen ?_
  refine (coherent_ok compareMiddle id).andThen ?_
  refine (coherent_compareGiven (compareOn Average.name) Key.averaged).andThen ?_
  exact coherent_compareGiven (compareOn Side.sign) Key.restriction

/-- A key that comes before another or is equal to it. -/
def InOrder (a b : Key) : Prop := compare a b = .ok .lt ∨ compare a b = .ok .eq

lemma InOrder.trans {a b d : Key} (hab : InOrder a b) (hbd : InOrder b d) : InOrder a d := by
  rcases hab with hab | hab
  · rcases hbd with hbd | hbd
    · exact .inl (coherent_compare.lt_trans hab hbd)
    · exact .inl (coherent_compare.congr_right hbd hab)
  · rwa [InOrder, coherent_compare.congr hab]

lemma decides_before : Decides before InOrder where
  trans := InOrder.trans
  of_true h := by
    obtain ⟨o, ho, h⟩ := bind_eq_ok.1 h
    obtain rfl := eq_of_beq (pure_eq_ok.1 h)
    exact .inl ho
  of_false h := by
    obtain ⟨o, ho, h⟩ := bind_eq_ok.1 h
    cases o with
    | lt => exact absurd (pure_eq_ok.1 h) (by decide)
    | eq => exact .inr (coherent_compare.swap ho)
    | gt => exact .inl (coherent_compare.swap ho)

/-- Both keys or neither have a part, an average and a side. -/
structure Matches (a b : Key) : Prop where
  part : a.part.isSome = b.part.isSome
  averaged : a.averaged.isSome = b.averaged.isSome
  restriction : a.restriction.isSome = b.restriction.isSome

instance (a b : Key) : Decidable (Matches a b) :=
  decidable_of_iff (a.part.isSome = b.part.isSome ∧ a.averaged.isSome = b.averaged.isSome ∧
    a.restriction.isSome = b.restriction.isSome)
    ⟨fun h => ⟨h.1, h.2.1, h.2.2⟩, fun h => ⟨h.part, h.averaged, h.restriction⟩⟩

lemma exists_compareGiven {α : Type} (cmp : α → α → Ordering) {a b : Option α}
    (h : a.isSome = b.isSome) : ∃ o, compareGiven cmp a b = .ok o := by
  cases a <;> cases b <;> first | exact ⟨_, rfl⟩ | cases h

lemma exists_andThen {α : Type} {c c' : α → α → Outcome Ordering} {a b : α} (h : ∃ o, c a b = .ok o)
    (h' : c a b = .ok .eq → ∃ o, c' a b = .ok o) : ∃ o, andThen c c' a b = .ok o := by
  obtain ⟨o, ho⟩ := h
  by_cases heq : o = .eq
  · obtain ⟨o', ho'⟩ := h' (heq ▸ ho)
    exact ⟨o', andThen_eq_ok.2 (.inr ⟨heq ▸ ho, ho'⟩)⟩
  · exact ⟨o, andThen_eq_ok.2 (.inl ⟨ho, heq⟩)⟩

/-- Keys with different numbers, or with the same optional parts, can be compared. -/
lemma exists_before {a b : Key} (h : a.number = b.number → Matches a b) :
    ∃ answer, before a b = .ok answer := by
  obtain ⟨o, ho⟩ : ∃ o, compare a b = .ok o := by
    rw [compare_eq]
    refine exists_andThen ⟨_, rfl⟩ fun hnumber => ?_
    have hparts := h (Std.LawfulEqCmp.eq_of_compare (Except.ok.inj hnumber))
    exact exists_andThen (exists_compareGiven _ hparts.part) fun _ =>
      exists_andThen ⟨_, rfl⟩ fun _ => exists_andThen (exists_compareGiven _ hparts.averaged)
        fun _ => exists_compareGiven _ hparts.restriction
  exact ⟨o == .lt, bind_eq_ok.2 ⟨o, ho, rfl⟩⟩

end Key

end FormKernel.Form.ModifiedTerminal
