import FormKernel.Fault
import Mathlib.Data.List.Forall2

/-!
# Computations that may fail

How a successful computation in `Outcome` is taken apart: a sequence of steps into its steps, and
a traversal of a list into its items.  A loop over a list keeps whatever each of its steps keeps.
-/

namespace FormKernel

open List

variable {α β σ : Type} {a : α} {x : Outcome α} {xs : List α} {ys : List β} {p : α → Outcome Bool}
  {f : σ → α → Outcome σ} {s t : σ}

@[simp] lemma misfit_ne_ok {c : Category} : misfit c ≠ Except.ok a := by
  simp [misfit]

@[simp] lemma orMisfit_eq_ok {o : Option α} {c : Category} : orMisfit o c = .ok a ↔ o = some a := by
  cases o <;> simp [orMisfit]

@[simp] lemma throw_ne_ok {e : Fault} : (throw e : Outcome α) ≠ .ok a := by
  simp [throw, throwThe, MonadExceptOf.throw]

@[simp] lemma pure_eq_ok {b : α} : (pure a : Outcome α) = .ok b ↔ a = b := by
  simp [pure, Except.pure]

lemma bind_eq_ok {f : α → Outcome β} {b : β} : (x >>= f) = .ok b ↔ ∃ a, x = .ok a ∧
    f a = .ok b := by
  cases x with
  | error e | ok a => simp [bind, Except.bind]

section Steps

variable {γ δ ε ζ : Type} {f : α → Outcome β} {g : α → β → Outcome γ} {h : α → β → γ → Outcome δ}
  {k : α → β → γ → δ → Outcome ε} {l : α → β → γ → δ → ε → Outcome ζ}

lemma bind₂_eq_ok {r : γ} :
    (x >>= fun a => f a >>= g a) = .ok r ↔ ∃ a, x = .ok a ∧ ∃ b, f a = .ok b ∧ g a b = .ok r := by
  simp only [bind_eq_ok]

lemma bind₃_eq_ok {r : δ} : (x >>= fun a => f a >>= fun b => g a b >>= h a b) = .ok r ↔
    ∃ a, x = .ok a ∧ ∃ b, f a = .ok b ∧ ∃ c, g a b = .ok c ∧ h a b c = .ok r := by
  simp only [bind_eq_ok]

lemma bind₄_eq_ok {r : ε} :
    (x >>= fun a => f a >>= fun b => g a b >>= fun c => h a b c >>= k a b c) = .ok r ↔
      ∃ a, x = .ok a ∧ ∃ b, f a = .ok b ∧ ∃ c, g a b = .ok c ∧ ∃ d, h a b c = .ok d ∧
        k a b c d = .ok r := by
  simp only [bind_eq_ok]

lemma bind₅_eq_ok {r : ζ} : (x >>= fun a => f a >>= fun b => g a b >>= fun c => h a b c >>= fun d =>
      k a b c d >>= l a b c d) = .ok r ↔
    ∃ a, x = .ok a ∧ ∃ b, f a = .ok b ∧ ∃ c, g a b = .ok c ∧ ∃ d, h a b c = .ok d ∧
      ∃ e, k a b c d = .ok e ∧ l a b c d e = .ok r := by
  simp only [bind_eq_ok]

end Steps

@[simp] lemma require_eq_ok {ok : Bool} {u : Unit} : require ok = .ok u ↔ ok = true := by
  unfold require
  split <;> simp [*]

/-- A computation that is known to succeed with some property. -/
lemma any_toOption {p : α → Bool} : x.toOption.any p = true ↔ ∃ a, x = .ok a ∧ p a = true := by
  cases x with
  | error e | ok a => simp [Except.toOption]

/-- A check that did not fail. -/
lemma ite_throw_eq_ok {c : Prop} [Decidable c] {e : Fault} {f : Unit → Outcome β} {b : β}
    (h : (if c then throw e >>= f else f ()) = .ok b) : ¬c ∧ f () = .ok b := by
  split at h
  · exact absurd h throw_ne_ok
  · next hc => exact ⟨hc, h⟩

/-- A successful traversal gives a result for each item. -/
lemma mapM_eq_ok {f : α → Outcome β} :
    xs.mapM f = .ok ys ↔ Forall₂ (fun x y => f x = .ok y) xs ys := by
  induction xs generalizing ys with
  | nil =>
    rw [mapM_nil, pure_eq_ok]
    constructor
    · rintro rfl
      exact .nil
    · intro h
      exact (forall₂_nil_left_iff.1 h).symm
  | cons x xs ih =>
    rw [mapM_cons, bind_eq_ok, forall₂_cons_left_iff]
    constructor
    · rintro ⟨y, hy, h⟩
      obtain ⟨zs, hzs, h⟩ := bind_eq_ok.1 h
      exact ⟨y, zs, hy, ih.1 hzs, (pure_eq_ok.1 h).symm⟩
    · rintro ⟨y, zs, hy, hzs, rfl⟩
      exact ⟨y, hy, bind_eq_ok.2 ⟨zs, ih.2 hzs, pure_eq_ok.2 rfl⟩⟩

/-- A successful traversal whose results are joined. -/
lemma flatMapM_eq_ok {f : α → Outcome (List β)} (h : xs.flatMapM f = .ok ys) :
    ∃ yss, Forall₂ (fun x y => f x = .ok y) xs yss ∧ ys = yss.flatten := by
  induction xs generalizing ys with
  | nil =>
    rw [flatMapM_nil, pure_eq_ok] at h
    exact ⟨[], .nil, h.symm⟩
  | cons x xs ih =>
    rw [flatMapM_cons, bind_eq_ok] at h
    obtain ⟨y, hy, h⟩ := h
    obtain ⟨zs, hzs, h⟩ := bind_eq_ok.1 h
    obtain ⟨yss, hyss, rfl⟩ := ih hzs
    exact ⟨y :: yss, .cons hy hyss, (pure_eq_ok.1 h).symm⟩

/-- A successful traversal that keeps some results. -/
lemma filterMapM_eq_ok {f : α → Outcome (Option β)} (h : xs.filterMapM f = .ok ys) :
    ∃ zs, Forall₂ (fun x z => f x = .ok z) xs zs ∧ ys = zs.filterMap id := by
  induction xs generalizing ys with
  | nil =>
    rw [filterMapM_nil, pure_eq_ok] at h
    exact ⟨[], .nil, h.symm⟩
  | cons x xs ih =>
    rw [filterMapM_cons, bind_eq_ok] at h
    obtain ⟨z, hz, h⟩ := h
    cases z with
    | none =>
      obtain ⟨zs, hzs, rfl⟩ := ih h
      exact ⟨none :: zs, .cons hz hzs, rfl⟩
    | some y =>
      obtain ⟨ys, hys, h⟩ := bind_eq_ok.1 h
      obtain ⟨zs, hzs, rfl⟩ := ih hys
      exact ⟨some y :: zs, .cons hz hzs, (pure_eq_ok.1 h).symm⟩

/-- What each step of a traversal says about its result, read off all results. -/
lemma map_eq_of_mapM {γ : Type} {f : α → Outcome β} {p : α → γ} {q : β → γ} (h : xs.mapM f = .ok ys)
    (hf : ∀ x ∈ xs, ∀ y, f x = .ok y → q y = p x) : ys.map q = xs.map p := by
  have hall := mapM_eq_ok.1 h
  clear h
  induction hall with
  | nil => rfl
  | cons hxy _ ih =>
    rw [forall_mem_cons] at hf
    rw [map_cons, map_cons, ih hf.2, hf.1 _ hxy]

private lemma filterAuxM_eq_ok {acc ys : List α} (h : xs.filterAuxM p acc = .ok ys) :
    (∀ x ∈ xs, p x = .ok ((p x).toOption.getD false)) ∧
      ys = (xs.filter fun x => (p x).toOption.getD false).reverse ++ acc := by
  induction xs generalizing acc with
  | nil => exact ⟨by simp, (pure_eq_ok.1 h).symm⟩
  | cons x xs ih =>
    obtain ⟨b, hb, h⟩ := bind_eq_ok.1 h
    have hx : (p x).toOption.getD false = b := by rw [hb]; rfl
    obtain ⟨hall, rfl⟩ := ih h
    refine ⟨fun y hy => ?_, by cases b <;> simp [hx]⟩
    rcases mem_cons.1 hy with rfl | hy
    · rw [hx, hb]
    · exact hall y hy

lemma filterM_eq_ok {ys : List α} (h : xs.filterM p = .ok ys) :
    (∀ x ∈ xs, p x = .ok ((p x).toOption.getD false)) ∧
      ys = xs.filter fun x => (p x).toOption.getD false := by
  obtain ⟨zs, hzs, h⟩ := bind_eq_ok.1 h
  obtain ⟨hall, rfl⟩ := filterAuxM_eq_ok hzs
  exact ⟨hall, by simpa using (pure_eq_ok.1 h).symm⟩

/-- A sequence of steps that succeed. -/
lemma bind_exists_ok {f : α → Outcome β} (hx : ∃ a, x = .ok a)
    (hf : ∀ a, x = .ok a → ∃ b, f a = .ok b) : ∃ b, x >>= f = .ok b := by
  obtain ⟨a, ha⟩ := hx
  obtain ⟨b, hb⟩ := hf a ha
  exact ⟨b, bind_eq_ok.2 ⟨a, ha, hb⟩⟩

/-- A traversal whose steps all succeed. -/
lemma exists_mapM {f : α → Outcome β} (h : ∀ x ∈ xs, ∃ y, f x = .ok y) : ∃ ys,
    xs.mapM f = .ok ys := by
  induction xs with
  | nil => exact ⟨[], rfl⟩
  | cons x xs ih =>
    rw [forall_mem_cons] at h
    rw [mapM_cons]
    exact bind_exists_ok h.1 fun y _ => bind_exists_ok (ih h.2) fun ys _ => ⟨_, rfl⟩

/-- A filter whose questions are all answered. -/
lemma exists_filterM (h : ∀ x ∈ xs, ∃ b, p x = .ok b) : ∃ ys, xs.filterM p = .ok ys := by
  have hgo : ∀ acc, ∃ ys, xs.filterAuxM p acc = .ok ys := by
    induction xs with
    | nil => exact fun acc => ⟨acc, rfl⟩
    | cons x xs ih =>
      rw [forall_mem_cons] at h
      intro acc
      obtain ⟨b, hb⟩ := h.1
      obtain ⟨ys, hys⟩ := ih h.2 (bif b then x :: acc else acc)
      exact ⟨ys, bind_eq_ok.2 ⟨b, hb, hys⟩⟩
  obtain ⟨ys, hys⟩ := hgo []
  exact ⟨ys.reverse, bind_eq_ok.2 ⟨ys, hys, rfl⟩⟩

/-- A loop keeps what each of its steps keeps. -/
lemma foldlM_induction (P : σ → Prop) (hs : P s)
    (hstep : ∀ s x t, x ∈ xs → P s → f s x = .ok t → P t) (h : xs.foldlM f s = .ok t) : P t := by
  induction xs generalizing s with
  | nil =>
    rw [foldlM_nil, pure_eq_ok] at h
    exact h ▸ hs
  | cons x xs ih =>
    rw [foldlM_cons, bind_eq_ok] at h
    obtain ⟨u, hu, h⟩ := h
    exact ih (hstep s x u (by simp) hs hu)
      (fun s y t hy => hstep s y t (mem_cons_of_mem _ hy)) h

/-- A loop whose steps succeed as long as they keep a property. -/
lemma exists_foldlM_of_step {P : σ → Prop} (hs : P s)
    (h : ∀ x ∈ xs, ∀ s, P s → ∃ t, f s x = .ok t ∧ P t) : ∃ t, xs.foldlM f s = .ok t := by
  induction xs generalizing s with
  | nil => exact ⟨s, rfl⟩
  | cons x xs ih =>
    rw [forall_mem_cons] at h
    obtain ⟨u, hu, hkept⟩ := h.1 s hs
    obtain ⟨t, ht⟩ := ih hkept h.2
    exact ⟨t, by rw [foldlM_cons, hu]; exact ht⟩

/-- A loop whose steps all succeed. -/
lemma exists_foldlM (h : ∀ x ∈ xs, ∀ s, ∃ t, f s x = .ok t) : ∃ t, xs.foldlM f s = .ok t :=
  exists_foldlM_of_step (P := fun _ => True) trivial fun x hx s _ =>
    (h x hx s).imp fun _ ht => ⟨ht, trivial⟩

/-- A loop keeps what each of its steps keeps, with what has been passed already. -/
lemma foldlM_prefix (P : List α → σ → Prop) (hs : P [] s)
    (hstep : ∀ done x rest s t, xs = done ++ x :: rest → P done s → f s x = .ok t →
      P (done ++ [x]) t)
    (h : xs.foldlM f s = .ok t) : P xs t := by
  have hgo : ∀ rest done s, xs = done ++ rest → P done s → rest.foldlM f s = .ok t → P xs t := by
    intro rest
    induction rest with
    | nil =>
      intro done s hxs hdone h
      rw [foldlM_nil, pure_eq_ok] at h
      rwa [hxs, append_nil, ← h]
    | cons x rest ih =>
      intro done s hxs hdone h
      rw [foldlM_cons, bind_eq_ok] at h
      obtain ⟨u, hu, h⟩ := h
      exact ih (done ++ [x]) u (by simpa using hxs) (hstep done x rest s u hxs hdone hu) h
  exact hgo xs [] s rfl hs h

/-- A loop seen through a part of its state that each step determines. -/
lemma foldlM_project {γ τ : Type} {g : τ → γ → Outcome τ} {p : σ → τ} {q : α → γ}
    (hstep : ∀ s x t, f s x = .ok t → g (p s) (q x) = .ok (p t)) (h : xs.foldlM f s = .ok t) :
    (xs.map q).foldlM g (p s) = .ok (p t) := by
  induction xs generalizing s with
  | nil =>
    rw [foldlM_nil, pure_eq_ok] at h
    exact pure_eq_ok.2 (congrArg p h)
  | cons x xs ih =>
    rw [foldlM_cons, bind_eq_ok] at h
    obtain ⟨u, hu, h⟩ := h
    rw [map_cons, foldlM_cons, hstep s x u hu]
    exact ih h

end FormKernel
