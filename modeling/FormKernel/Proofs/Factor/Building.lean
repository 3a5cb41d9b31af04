import FormKernel.Factor.Basic
import FormKernel.Proofs.Form.Value
import Mathlib.Data.List.Forall2

/-!
# Steps that add factors

A step of type `Building` reads and extends the list of factors.  `Yields m F a F'` says that a
step started with the factors `F` ends well with the result `a` and the factors `F'`.  Factors are
only ever appended, so whatever has been said about a factor stays true.
-/

namespace FormKernel.Factor

open Form (Expr)

variable {α β : Type} {F F' : List Expr}

/-- A step ends well. -/
def Yields (m : Building α) (F : List Expr) (a : α) (F' : List Expr) : Prop := m.run F = (.ok a, F')

@[simp] lemma yields_pure {a b : α} : Yields (pure a) F b F' ↔ a = b ∧ F = F' := by
  constructor
  · intro h
    have h' : (Except.ok a, F) = ((Except.ok b : Except Fault α), F') := h
    simpa using h'
  · rintro ⟨rfl, rfl⟩
    rfl

@[simp] lemma yields_throw {e : Fault} {b : α} : ¬ Yields (throw e) F b F' := by
  intro h
  have h' : ((Except.error e : Except Fault α), F) = (Except.ok b, F') := h
  simp at h'

@[simp] lemma yields_get {a : List Expr} : Yields (MonadState.get) F a F' ↔ a = F ∧ F' = F := by
  constructor
  · intro h
    have h' : (Except.ok F, F) = ((Except.ok a : Except Fault (List Expr)), F') := h
    simp only [Prod.mk.injEq, Except.ok.injEq] at h'
    exact ⟨h'.1.symm, h'.2.symm⟩
  · rintro ⟨rfl, rfl⟩
    rfl

@[simp] lemma yields_set {G : List Expr} {a : PUnit} : Yields (MonadStateOf.set G) F a F' ↔
    F' = G := by
  constructor
  · intro h
    have h' : (Except.ok PUnit.unit, G) = ((Except.ok a : Except Fault PUnit), F') := h
    simp only [Prod.mk.injEq] at h'
    exact h'.2.symm
  · rintro rfl
    rfl

lemma yields_bind {m : Building α} {f : α → Building β} {b : β} :
    Yields (m >>= f) F b F' ↔ ∃ a G, Yields m F a G ∧ Yields (f a) G b F' := by
  have hrun : (m >>= f).run F = ExceptT.bindCont f (m.run F).1 (m.run F).2 := rfl
  constructor
  · intro h
    rw [Yields, hrun] at h
    rcases hm : m.run F with ⟨e | a, G⟩
    · rw [hm] at h
      cases congrArg Prod.fst h
    · rw [hm] at h
      exact ⟨a, G, hm, h⟩
  · rintro ⟨a, G, hm, h⟩
    rwa [Yields, hrun, hm]

/-- What comes after a step that only reads. -/
lemma yields_read {m : Building α} {k : α → Building β} {p : α → Prop} {b : β}
    (hm : ∀ {a G}, Yields m F a G ↔ p a ∧ F = G) (h : Yields (m >>= k) F b F') :
    ∃ a, p a ∧ Yields (k a) F b F' := by
  obtain ⟨a, G, ha, h⟩ := yields_bind.1 h
  obtain ⟨hp, rfl⟩ := hm.1 ha
  exact ⟨a, hp, h⟩

@[simp] lemma yields_itemAt {xs : List α} {k : Nat} {a : α} :
    Yields (itemAt xs k) F a F' ↔ xs[k]? = some a ∧ F = F' := by
  unfold itemAt
  split
  · next x hx => rw [yields_pure, hx, Option.some.injEq]
  · next hx => simp [hx]

@[simp] lemma yields_expect {ok : Bool} {a : Unit} : Yields (expect ok) F a F' ↔ ok = true ∧
    F = F' := by
  unfold expect
  split
  · next h => simp [h]
  · next h => simp [h]

@[simp] lemma yields_factorAt {i : Nat} {e : Expr} :
    Yields (factorAt i) F e F' ↔ F[i]? = some e ∧ F = F' := by
  unfold factorAt
  rw [yields_bind]
  constructor
  · rintro ⟨G, G', hget, h⟩
    obtain ⟨rfl, rfl⟩ := yields_get.1 hget
    split at h
    · next x hx =>
      rw [yields_pure] at h
      exact ⟨h.1 ▸ hx, h.2⟩
    · exact absurd h yields_throw
  · rintro ⟨h, rfl⟩
    refine ⟨F, F, yields_get.2 ⟨rfl, rfl⟩, ?_⟩
    rw [h]
    exact yields_pure.2 ⟨rfl, rfl⟩

@[simp] lemma yields_scalarAt {scalars : List (Option Expr)} {k : Nat} {e : Expr} :
    Yields (scalarAt scalars k) F e F' ↔ scalars[k]? = some (some e) ∧ F = F' := by
  unfold scalarAt
  rw [yields_bind]
  constructor
  · rintro ⟨o, G, hitem, h⟩
    obtain ⟨ho, rfl⟩ := yields_itemAt.1 hitem
    split at h
    · next x =>
      rw [yields_pure] at h
      exact ⟨h.1 ▸ ho, h.2⟩
    · exact absurd h yields_throw
  · rintro ⟨h, rfl⟩
    exact ⟨some e, F, yields_itemAt.2 ⟨h, rfl⟩, yields_pure.2 ⟨rfl, rfl⟩⟩

/-- Inserting an expression appends at most that expression; the result is the number of an equal
    one. -/
lemma Yields.insert {e : Expr} {i : Nat} (h : Yields (insert e) F i F') :
    F <+: F' ∧ ∃ x, F'[i]? = some x ∧ (x = e ∨ (x == e) = true) := by
  unfold Factor.insert at h
  rw [yields_bind] at h
  obtain ⟨G, G', hget, h⟩ := h
  obtain ⟨rfl, rfl⟩ := yields_get.1 hget
  split at h
  · next j hj =>
    obtain ⟨rfl, rfl⟩ := yields_pure.1 h
    obtain ⟨hlt, heq, -⟩ := List.findIdx?_eq_some_iff_getElem.1 hj
    exact ⟨List.prefix_refl _, _, List.getElem?_eq_getElem hlt, .inr heq⟩
  · rw [yields_bind] at h
    obtain ⟨u, G', hset, h⟩ := h
    rw [yields_set.1 hset] at h
    obtain ⟨rfl, rfl⟩ := yields_pure.1 h
    exact ⟨List.prefix_append _ _, e, by simp, .inl rfl⟩

/-- What each step of a traversal establishes, and later steps keep, holds of all items. -/
lemma Yields.mapM {f : α → Building β} {P : List Expr → α → β → Prop}
    (hkeep : ∀ {G G' a b}, G <+: G' → P G a b → P G' a b) :
    ∀ {xs : List α} {F F' : List Expr} {ys : List β},
    (∀ x ∈ xs, ∀ {G G' y}, F <+: G → Yields (f x) G y G' → G <+: G' ∧ P G' x y) →
    Yields (xs.mapM f) F ys F' → F <+: F' ∧ List.Forall₂ (P F') xs ys
  | [], F, F', ys, _, h => by
    rw [List.mapM_nil] at h
    obtain ⟨rfl, rfl⟩ := yields_pure.1 h
    exact ⟨List.prefix_refl _, .nil⟩
  | x :: xs, F, F', ys, hstep, h => by
    rw [List.mapM_cons, yields_bind] at h
    obtain ⟨y, G, hy, h⟩ := h
    rw [yields_bind] at h
    obtain ⟨zs, G', hzs, h⟩ := h
    obtain ⟨rfl, rfl⟩ := yields_pure.1 h
    obtain ⟨hFG, hxy⟩ := hstep x (by simp) (List.prefix_refl _) hy
    obtain ⟨hGG', hrest⟩ := Yields.mapM (P := P) hkeep
      (fun a ha _ _ _ hpre hya => hstep a (by simp [ha]) (hFG.trans hpre) hya) hzs
    exact ⟨hFG.trans hGG', .cons (hkeep hGG' hxy) hrest⟩

end FormKernel.Factor
