import FormKernel.Proofs.Kernel.Scopes
import FormKernel.Proofs.Kernel.Uses

/-!
# Steps of code

A section that adds to variables runs as a sequence of steps, one for each passage through its
loops.  Where none of two neighbouring steps sets what the other reads or sets, they may be swapped:
every variable keeps its sequence of additions, and so it keeps its value, whatever the sum of two
values is.
-/

namespace FormKernel.Kernel

open List

/-- A passage through a loop: its index and bounds, and the value of the index. -/
structure Passage where
  index : String
  lower : Int
  upper : Int
  value : Int

/-- A step of code.  Of other statements only the names are known. -/
inductive Step where
  | declare (x : String) (value : Expr)
  | add (x : String) (loops : List Passage) (value : Expr)
  | other (s : Stmt)

def Expr.names (e : Expr) : List String := e.uses.map (·.1)

/-- The names in a statement, with those that it declares. -/
def Stmt.names (s : Stmt) : List String := s.uses.map (·.1) ++ (scopes [s]).flatten

namespace Step

def sets : Step → List String
  | declare x _ | add x _ _ => [x]
  | other s => s.names

/-- The names that a step may read or set. -/
def names : Step → List String
  | declare x e | add x _ e => x :: e.names
  | other s => s.names

lemma sets_subset_names (p : Step) : p.sets ⊆ p.names := by
  cases p <;> simp [sets, names]

/-- Steps of which none sets a name that the other reads or sets. -/
def Independent (p q : Step) : Prop := p.sets.Disjoint q.names ∧ q.sets.Disjoint p.names

/-- Whether the step is a declaration or an addition. -/
def isPlain : Step → Bool
  | other _ => false
  | _ => true

end Step

/-! ## Swapped steps -/

/-- Sequences that differ by swaps of independent neighbours. -/
inductive Reordered : List Step → List Step → Prop
  | nil : Reordered [] []
  | cons (p : Step) {l l' : List Step} : Reordered l l' → Reordered (p :: l) (p :: l')
  | swap {p q : Step} (l : List Step) : p.Independent q → Reordered (p :: q :: l) (q :: p :: l)
  | trans {l₁ l₂ l₃ : List Step} : Reordered l₁ l₂ → Reordered l₂ l₃ → Reordered l₁ l₃

/-- Sequences of which all steps of one are independent of all steps of the other. -/
def Apart (xs ys : List Step) : Prop := ∀ p ∈ xs, ∀ q ∈ ys, p.Independent q

lemma Apart.symm {xs ys : List Step} (h : Apart xs ys) : Apart ys xs :=
  fun q hq p hp => (h p hp q hq).symm

namespace Reordered

variable {l l' xs xs' ys ys' : List Step}

lemma refl : ∀ l : List Step, Reordered l l
  | [] => .nil
  | p :: l => .cons p (refl l)

lemma symm (h : Reordered l l') : Reordered l' l := by
  induction h with
  | nil => exact .nil
  | cons p _ ih => exact .cons p ih
  | swap l h => exact .swap l ⟨h.2, h.1⟩
  | trans _ _ ih ih' => exact .trans ih' ih

lemma perm (h : Reordered l l') : l.Perm l' := by
  induction h with
  | nil => exact .nil
  | cons p _ ih => exact ih.cons p
  | swap l _ => exact .swap _ _ l
  | trans _ _ ih ih' => exact ih.trans ih'

lemma append_left (xs : List Step) (h : Reordered ys ys') : Reordered (xs ++ ys) (xs ++ ys') := by
  induction xs with
  | nil => exact h
  | cons p xs ih => exact .cons p ih

lemma append_right (h : Reordered xs xs') (ys : List Step) : Reordered (xs ++ ys) (xs' ++ ys) := by
  induction h with
  | nil => exact .refl ys
  | cons p _ ih => exact .cons p ih
  | swap l h => exact .swap (l ++ ys) h
  | trans _ _ ih ih' => exact .trans ih ih'

lemma append_comm (h : Apart xs ys) : Reordered (xs ++ ys) (ys ++ xs) := by
  induction xs with
  | nil => rw [append_nil]; exact .refl ys
  | cons p xs ih =>
    -- the first step passes one step of `ys` after the other
    have hfirst : Reordered (p :: (ys ++ xs)) (ys ++ p :: xs) := by
      have hp : ∀ q ∈ ys, p.Independent q := h p mem_cons_self
      clear h ih
      induction ys with
      | nil => exact .refl _
      | cons q ys ih =>
        rw [forall_mem_cons] at hp
        exact .trans (.swap _ hp.1) (.cons q (ih hp.2))
    exact .trans (.cons p (ih fun q hq => h q (mem_cons_of_mem p hq))) hfirst

variable {α : Type} {f g : α → List Step}

/-- Two parts of every block are brought together with their like. -/
lemma flatMap_append {as : List α} (h : as.Pairwise fun a b => Apart (g a) (f b)) :
    Reordered (as.flatMap fun a => f a ++ g a) (as.flatMap f ++ as.flatMap g) := by
  induction as with
  | nil => exact .nil
  | cons a as ih =>
    obtain ⟨ha, has⟩ := pairwise_cons.1 h
    have happart : Apart (g a) (as.flatMap f) := fun p hp q hq =>
      let ⟨b, hb, hq⟩ := mem_flatMap.1 hq
      ha b hb p hp q hq
    simp only [flatMap_cons, append_assoc]
    refine .append_left (f a) (.trans (.append_left (g a) (ih has)) ?_)
    rw [← append_assoc, ← append_assoc]
    exact (append_comm happart).append_right _

/-- Some of the blocks are brought to the front. -/
lemma flatMap_filter {as : List α} (p : α → Bool)
    (h : as.Pairwise fun a b => p a = false → p b = true → Apart (f a) (f b)) :
    Reordered (as.flatMap f) ((as.filter p).flatMap f ++ (as.filter fun a => !p a).flatMap f) := by
  induction as with
  | nil => exact .nil
  | cons a as ih =>
    obtain ⟨ha, has⟩ := pairwise_cons.1 h
    rw [flatMap_cons]
    refine .trans (.append_left (f a) (ih has)) ?_
    cases hp : p a with
    | true => simp only [hp, filter_cons_of_pos, flatMap_cons, append_assoc, Bool.not_true,
        Bool.false_eq_true, not_false_eq_true, filter_cons_of_neg]; exact .refl _
    | false =>
      have happart : Apart (f a) ((as.filter p).flatMap f) := fun q hq r hr =>
        let ⟨b, hb, hr⟩ := mem_flatMap.1 hr
        ha b (mem_of_mem_filter hb) hp (of_mem_filter hb) q hq r hr
      rw [filter_cons_of_neg (by simp [hp]), filter_cons_of_pos (by simp [hp]), flatMap_cons,
        ← append_assoc, ← append_assoc]
      exact (append_comm happart).append_right _

lemma flatMap {β : Type} {as : List α} {bs : List β} {g : β → List Step}
    (h : Forall₂ (fun a b => Reordered (f a) (g b)) as bs) : Reordered (as.flatMap f)
    (bs.flatMap g) := by
  induction h with
  | nil => exact .nil
  | cons hab _ ih => exact .trans (hab.append_right _) (.append_left _ ih)

/-- The steps that may set a name keep their order. -/
lemma filter_sets (h : Reordered l l') (x : String) :
    l.filter (fun p => p.sets.contains x) = l'.filter fun p => p.sets.contains x := by
  induction h with
  | nil => rfl
  | cons p _ ih => rw [filter_cons, filter_cons, ih]
  | @swap p q l h =>
    by_cases hp : x ∈ p.sets
    · have hq : x ∉ q.sets := fun hq => h.1 hp (q.sets_subset_names hq)
      simp [hp, hq]
    · simp [filter_cons, hp]
  | trans _ _ ih ih' => exact ih.trans ih'

end Reordered

/-! ## Values -/

/-- A way to run steps over values of any type.  The sum of two values is any function, and so is
    the value of an expression, as long as it depends on nothing but the names in it. -/
structure Machine (V : Type) where
  plus : V → V → V
  value : List Passage → Expr → (String → V) → V
  other : Stmt → (String → V) → String → V
  value_congr : ∀ {loops e σ τ}, (∀ x ∈ e.names, σ x = τ x) → value loops e σ = value loops e τ
  other_congr : ∀ {s σ τ}, (∀ x ∈ s.names, σ x = τ x) → ∀ x ∈ s.names, other s σ x = other s τ x
  other_frame : ∀ {s σ x}, x ∉ s.names → other s σ x = σ x

namespace Machine

variable {V : Type} (M : Machine V) {p q : Step} {σ τ : String → V}

/-- What a step makes of the values of all names. -/
def step : Step → (String → V) → String → V
  | .declare x e, σ => Function.update σ x (M.value [] e σ)
  | .add x loops e, σ => Function.update σ x (M.plus (σ x) (M.value loops e σ))
  | .other s, σ => M.other s σ

/-- What steps make of the values of all names, one after the other. -/
def run (steps : List Step) (σ : String → V) : String → V := steps.foldl (fun σ p => M.step p σ) σ

lemma step_of_notMem {x : String} (hx : x ∉ p.sets) : M.step p σ x = σ x := by
  cases p with
  | other s => exact M.other_frame hx
  | _ => exact Function.update_of_ne (ne_of_not_mem_cons hx) ..

lemma step_congr (h : ∀ y ∈ p.names, σ y = τ y) {x : String} (hx : x ∈ p.sets) :
    M.step p σ x = M.step p τ x := by
  cases p with
  | other s => exact M.other_congr h x hx
  | declare y e =>
    obtain rfl := mem_singleton.1 hx
    simp only [step, Function.update_self]
    exact M.value_congr (forall_mem_cons.1 h).2
  | add y loops e =>
    obtain rfl := mem_singleton.1 hx
    obtain ⟨hx, he⟩ := forall_mem_cons.1 h
    simp only [step, Function.update_self, hx, M.value_congr he]

lemma step_comm (h : p.Independent q) : M.step q (M.step p σ) = M.step p (M.step q σ) := by
  have hp : ∀ y ∈ p.names, M.step q σ y = σ y := fun y hy => M.step_of_notMem fun hq => h.2 hq hy
  have hq : ∀ y ∈ q.names, M.step p σ y = σ y := fun y hy => M.step_of_notMem fun hp => h.1 hp hy
  funext x
  by_cases hxp : x ∈ p.sets
  · have hxq : x ∉ q.sets := fun hx => h.1 hxp (q.sets_subset_names hx)
    rw [M.step_of_notMem hxq, M.step_congr hp hxp]
  · rw [M.step_of_notMem hxp]
    by_cases hxq : x ∈ q.sets
    · rw [M.step_congr hq hxq]
    · rw [M.step_of_notMem hxq, M.step_of_notMem hxq, M.step_of_notMem hxp]

/-- Reordered steps give every name the same value. -/
lemma run_reordered {l l' : List Step} (h : Reordered l l')
    (σ : String → V) : M.run l σ = M.run l' σ := by
  induction h generalizing σ with
  | nil => rfl
  | cons p _ ih => exact ih (M.step p σ)
  | swap l h => exact congrArg (M.run l) (M.step_comm h)
  | trans _ _ ih ih' => exact (ih σ).trans (ih' σ)

end Machine

end FormKernel.Kernel
