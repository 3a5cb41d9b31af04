import FormKernel.Proofs.Graph.Ordered
import FormKernel.Scalar.Expansion

/-!
# Stored components

The nodes of an expression graph are expanded one after the other, and their components are stored
under numbers.  A number that is once given to a component keeps it.
-/

namespace FormKernel.Scalar

open Form (Builder Expr)
open List

lemma itemAt_eq_ok {α : Type} {xs : List α} {k : Nat} {x : α} : itemAt xs k = .ok x ↔
    xs[k]? = some x :=
  orMisfit_eq_ok

/-! ## Storing components -/

def Named (found : Found) (s : Nat) (w : Expr) : Prop := found[s]? = some (some w)

variable {found : Found} {ws : List Expr} {e : Expr}

lemma Named.eq {s : Nat} {v w : Expr} (hv : Named found s v) (hw : Named found s w) : v = w :=
  Option.some.inj (Option.some.inj (hv.symm.trans hw))

variable {ns : List Nat} {found' : Found} {pairs : List (Nat × Expr)}

lemma mapM_named {c : Category} (h : ns.mapM (fun s =>
      match found[s]? with
      | some (some w) => pure w
      | _ => misfit c) = .ok ws) : Forall₂ (Named found) ns ws := by
  refine (mapM_eq_ok.1 h).imp fun s w hs => ?_
  split at hs
  · next v hv =>
    cases hs
    exact hv
  · cases hs

/-- What storing keeps, and what it adds: the first scalar for each number. -/
lemma foldlM_storeStep {own own' : List Nat}
    (h : pairs.foldlM storeStep (found, own) = .ok (found', own')) :
    (∀ s, s ∉ pairs.map (·.1) → found'[s]? = found[s]?) ∧
    (∀ {s w}, Named found s w → Named found' s w) ∧
    ∀ p ∈ pairs, ∃ w, Named found' p.1 w ∧ ((p.1, w) ∈ pairs ∨ Named found p.1 w ∧ p.1 ∈ own) := by
  induction pairs generalizing found own with
  | nil =>
    cases h
    exact ⟨fun _ _ => rfl, id, by simp⟩
  | cons pair pairs ih =>
    obtain ⟨s, w⟩ := pair
    rw [foldlM_cons, bind_eq_ok] at h
    obtain ⟨⟨next, own₁⟩, hnext, h⟩ := h
    obtain ⟨hother, hkept, hnamed⟩ := ih h
    unfold storeStep at hnext
    dsimp only at hnext
    -- the number is free, or its scalar is one of this step's own and stays
    split at hnext
    · next hs =>
      cases hnext
      have hlt : s < found.length := (List.getElem?_eq_some_iff.1 hs).1
      have hnew : Named (found.set s (some w)) s w := getElem?_set_self hlt
      have hold : ∀ {t v}, t ≠ s → Named (found.set s (some w)) t v → Named found t v := by
        intro t v ht hv
        rwa [Named, getElem?_set_ne (Ne.symm ht)] at hv
      refine ⟨fun t ht => ?_, fun {t v} hv => hkept ?_, fun p hp => ?_⟩
      · rw [map_cons, mem_cons, not_or] at ht
        rw [hother t ht.2, getElem?_set_ne (Ne.symm ht.1)]
      · have hne : t ≠ s := by
          rintro rfl
          rw [Named, hs] at hv
          cases hv
        rwa [Named, getElem?_set_ne (Ne.symm hne)]
      · rcases mem_cons.1 hp with rfl | hp
        · exact ⟨w, hkept hnew, .inl mem_cons_self⟩
        · obtain ⟨v, hv, hmem⟩ := hnamed p hp
          refine ⟨v, hv, ?_⟩
          rcases hmem with hmem | ⟨hv', hown⟩
          · exact .inl (mem_cons_of_mem _ hmem)
          · by_cases hps : p.1 = s
            · rw [hps] at hv' ⊢
              exact .inl (hv'.eq hnew ▸ mem_cons_self)
            · exact .inr ⟨hold hps hv', (mem_cons.1 hown).resolve_left hps⟩
    · next v hs =>
      split at hnext
      · next hown =>
        cases hnext
        refine ⟨fun t ht => ?_, hkept, fun p hp => ?_⟩
        · rw [map_cons, mem_cons, not_or] at ht
          exact hother t ht.2
        · rcases mem_cons.1 hp with rfl | hp
          · exact ⟨v, hkept hs, .inr ⟨hs, by simpa using hown⟩⟩
          · obtain ⟨v, hv, hmem⟩ := hnamed p hp
            exact ⟨v, hv, hmem.imp_left (mem_cons_of_mem _)⟩
      · cases hnext
    · cases hnext

lemma store_eq_ok (h : store found pairs = .ok found') :
    (∀ s, s ∉ pairs.map (·.1) → found'[s]? = found[s]?) ∧
    (∀ {s w}, Named found s w → Named found' s w) ∧
    ∀ p ∈ pairs, ∃ w, Named found' p.1 w ∧ (p.1, w) ∈ pairs := by
  obtain ⟨⟨found₁, own⟩, hfold, h⟩ := bind_eq_ok.1 h
  cases h
  obtain ⟨hother, hkept, hnamed⟩ := foldlM_storeStep hfold
  refine ⟨hother, hkept, fun p hp => ?_⟩
  obtain ⟨w, hw, hmem⟩ := hnamed p hp
  exact ⟨w, hw, hmem.resolve_right (by simp)⟩

variable {exprs : List Expr} {symbols : List (List Nat)} {o : Expr}

lemma operandComponents_eq_ok (h : operandComponents exprs symbols found e o = .ok ws) :
    (o.indices?.isSome = true ∧ (e.head == .operator .indexSum) = true ∧ ws = []) ∨
      ∃ k ns, Graph.numberOf exprs o = some k ∧ symbols[k]? = some ns ∧
        Forall₂ (Named found) ns ws := by
  unfold operandComponents at h
  dsimp only at h
  by_cases hindices : o.indices?.isSome = true
  · rw [if_pos hindices] at h
    split at h
    · next hhead => exact .inl ⟨hindices, hhead, (pure_eq_ok.1 h).symm⟩
    · cases h
  · rw [if_neg hindices] at h
    split at h
    · cases h
    · next k hk =>
      obtain ⟨ns, hns, h⟩ := bind_eq_ok.1 h
      exact .inr ⟨k, ns, hk, itemAt_eq_ok.1 hns, mapM_named h⟩

end FormKernel.Scalar
