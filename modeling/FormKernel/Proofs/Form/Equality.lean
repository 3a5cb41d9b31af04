import FormKernel.Form.Modified
import Mathlib.Data.List.Forall2

/-!
# Equality of expressions

Expressions are compared up to shapes and free indices, and the numbers in them as floating-point
numbers: zeros of both signs are equal, and what is no number is not equal to itself.  The
comparison is symmetric and transitive.
-/

namespace FormKernel.Form

open Float.Model (UnpackedFloat)

/-! ## Floating-point numbers -/

/-- What a floating-point number is compared by. -/
def floatKey (x : Float) : Option UnpackedFloat :=
  match x.toModel.unpack with
  | .notANumber => none
  | .zero _ => some (.zero .positive)
  | a => some a

/-- Floating-point numbers are equal if they are compared by the same. -/
lemma float_beq_iff {x y : Float} : (x == y) = true ↔ ∃ k, floatKey x = some k ∧
    floatKey y = some k := by
  have hbeq : (x == y) = true ↔ x.toModel.unpack.compare y.toModel.unpack = some .eq :=
    beq_iff_eq (α := Option Ordering)
  rw [hbeq]
  unfold floatKey
  generalize x.toModel.unpack = a
  generalize y.toModel.unpack = b
  constructor
  · intro h
    rcases a with (_ | _) | _ | _ | ⟨(_ | _), m, e, hm⟩ <;>
    rcases b with (_ | _) | _ | _ | ⟨(_ | _), n, f, hn⟩ <;> first
      | cases h; done
      | exact ⟨_, rfl, rfl⟩
      | obtain ⟨rfl, rfl⟩ : e = f ∧ m = n := by simpa [Ordering.then_eq_eq] using Option.some.inj h
        exact ⟨_, rfl, rfl⟩
  · rintro ⟨k, ha, hb⟩
    rcases a with (_ | _) | _ | _ | ⟨(_ | _), m, e, hm⟩ <;> cases ha <;> cases b <;> cases hb <;>
      first | rfl | exact congrArg some (by simp)

instance partialEquivBEqFloat : PartialEquivBEq Float where
  symm h := by
    obtain ⟨k, hx, hy⟩ := float_beq_iff.1 h
    exact float_beq_iff.2 ⟨k, hy, hx⟩
  trans hxy hyz := by
    obtain ⟨k, hx, hy⟩ := float_beq_iff.1 hxy
    obtain ⟨l, hy', hz⟩ := float_beq_iff.1 hyz
    obtain rfl : k = l := Option.some.inj (hy.symm.trans hy')
    exact float_beq_iff.2 ⟨k, hx, hz⟩

/-! ## Numbers and terminals -/

lemma Number.equal_symm {m n : Number} (h : m.equal n = true) : n.equal m = true := by
  unfold Number.equal at h
  split at h
  · rw [Number.equal, BEq.comm, h]
  · exact BEq.symm h
  · rw [Bool.and_eq_true] at h
    rw [Number.equal, BEq.symm h.1, BEq.symm h.2, Bool.and_self]
  · exact absurd h Bool.false_ne_true

lemma Number.equal_trans {l m n : Number} (h : l.equal m = true) (h' : m.equal n = true) :
    l.equal n = true := by
  unfold Number.equal at h
  split at h
  · rwa [eq_of_beq h]
  · cases n with
    | float z => exact BEq.trans (a := _) h h'
    | _ => exact h'
  · cases n with
    | complex e f =>
      rw [Bool.and_eq_true] at h
      rw [Number.equal, Bool.and_eq_true] at h'
      rw [Number.equal, BEq.trans h.1 h'.1, BEq.trans h.2 h'.2, Bool.and_self]
    | _ => exact h'
  · exact absurd h Bool.false_ne_true

instance : PartialEquivBEq Domain where
  symm h := BEq.symm (α := Nat) h
  trans h h' := BEq.trans (α := Nat) h h'

instance : PartialEquivBEq Space where
  symm h := BEq.symm (α := Nat) h
  trans h h' := BEq.trans (α := Nat) h h'

instance partialEquivBEqOption {α : Type} [BEq α]
    [PartialEquivBEq α] : PartialEquivBEq (Option α) where
  symm {a b} h := by
    cases a <;> cases b <;> first | exact h | exact BEq.symm (α := α) h
  trans {a b c} h h' := by
    cases a <;> cases b <;> first | cases h; done | skip
    · exact h'
    · cases c with
      | none => exact h'
      | some c => exact BEq.trans (α := α) h h'

namespace Terminal

lemma equal_symm {s t : Terminal} (h : s.equal t = true) : t.equal s = true := by
  unfold Terminal.equal at h
  split at h
  case h_4 => exact Number.equal_symm h
  case h_5 => rfl
  case h_9 => exact absurd h Bool.false_ne_true
  all_goals simp only [Bool.and_eq_true, beq_iff_eq] at h
  case h_6 => simp [Terminal.equal, h.1.1, BEq.symm h.1.2, h.2]
  case h_7 | h_8 => simp [Terminal.equal, h]
  all_goals simp [Terminal.equal, h.1.1.1, h.1.1.2, BEq.symm h.1.2, h.2]

lemma equal_congr {r s : Terminal} (h : r.equal s = true)
    (t : Terminal) : r.equal t = s.equal t := by
  unfold Terminal.equal at h
  split at h
  case h_4 m n => 
    cases t with
    | number l => 
      exact Bool.eq_iff_iff.2 ⟨Number.equal_trans (Number.equal_symm h), Number.equal_trans h⟩
    | _ => rfl
  case h_5 => rfl
  case h_9 => exact absurd h Bool.false_ne_true
  all_goals simp only [Bool.and_eq_true, beq_iff_eq] at h
  case h_6 => cases t <;> simp [Terminal.equal, h.1.1, BEq.congr_left h.1.2, h.2]
  case h_7 | h_8 => rw [h]
  all_goals cases t <;> simp [Terminal.equal, h.1.1.1, h.1.1.2, BEq.congr_left h.1.2, h.2]

instance : PartialEquivBEq Terminal where
  symm h := equal_symm h
  trans h h' := (equal_congr h _).trans h'

end Terminal

/-! ## Expressions -/

namespace Expr

variable {p q : Operator} {as bs : List Expr} {shape shape' : List Nat} {fi fi' : List Int}
  {dims dims' : List Nat}

lemma equalAll_iff : equalAll as bs = true ↔ List.Forall₂ (fun a b => (a == b) = true) as bs := by
  induction as generalizing bs with
  | nil => cases bs <;> simp [equalAll]
  | cons a as ih =>
    cases bs with
    | nil => simp [equalAll]
    | cons b bs =>
      rw [equalAll, Bool.and_eq_true, ih, List.forall₂_cons]
      rfl

lemma equal_operator : (operator p as shape fi dims == operator q bs shape' fi' dims') = true ↔
    p = q ∧ List.Forall₂ (fun a b => (a == b) = true) as bs := by
  rw [← equalAll_iff, ← @beq_iff_eq Operator, ← Bool.and_eq_true]
  rfl

lemma terminal_of_beq {t : Terminal} {e : Expr} (h : (.terminal t == e) = true) :
    ∃ s, e = .terminal s ∧ (t == s) = true := by
  cases e with
  | operator => cases h
  | terminal s => exact ⟨s, rfl, h⟩

section Induction

variable {P : Expr → Expr → Prop}
  (terminal : ∀ s t, s.equal t = true → P (.terminal s) (.terminal t))
  (operator : ∀ p as shape fi dims bs shape' fi' dims',
    (operator p as shape fi dims == operator p bs shape' fi' dims') = true → List.Forall₂ P as bs →
      P (.operator p as shape fi dims) (.operator p bs shape' fi' dims'))

include terminal operator

mutual

theorem equal_induction : ∀ {a b : Expr}, (a == b) = true → P a b
  | .terminal s, .terminal t, h => terminal s t h
  | .operator p as .., .operator q bs .., h => by
    obtain ⟨rfl, hall⟩ := equal_operator.1 h
    exact operator _ _ _ _ _ _ _ _ _ h (equalAll_induction as hall)
  | .terminal _, .operator .., h => by cases h
  | .operator .., .terminal _, h => by cases h

theorem equalAll_induction : ∀ (as : List Expr) {bs : List Expr},
    List.Forall₂ (fun a b => (a == b) = true) as bs → List.Forall₂ P as bs
  | [], _, .nil => .nil
  | _ :: as, _, .cons h hall => .cons (equal_induction h) (equalAll_induction as hall)

end

end Induction

lemma equal_symm {a b : Expr} (h : (a == b) = true) : (b == a) = true := by
  refine equal_induction (P := fun a b => (b == a) = true)
    (fun s t h => BEq.symm (α := Terminal) h) ?_ h
  exact fun p as _ _ _ bs _ _ _ _ hall => equal_operator.2 ⟨rfl, hall.flip⟩

lemma equal_trans {a b c : Expr} (h : (a == b) = true) : (b == c) = true → (a == c) = true := by
  refine equal_induction (P := fun a b => ∀ {c}, (b == c) = true → (a == c) = true) ?_ ?_ h
  · intro s t h c h'
    cases c with
    | terminal u => exact BEq.trans (α := Terminal) h h'
    | operator => cases h'
  · rintro p as _ _ _ bs _ _ _ - hall c h'
    cases c with
    | terminal => cases h'
    | operator r cs =>
      obtain ⟨rfl, hall'⟩ := equal_operator.1 h'
      refine equal_operator.2 ⟨rfl, ?_⟩
      clear h'
      induction hall generalizing cs with
      | nil => exact hall'
      | cons hab _ ih =>
        cases hall' with
        | cons hbc hall' => exact .cons (hab hbc) (ih _ hall')

instance : PartialEquivBEq Expr where
  symm h := equal_symm h
  trans h h' := equal_trans h h'

/-- Equal expressions have equally many nodes. -/
lemma length_nodes_congr {a b : Expr} (h : (a == b) = true) : a.nodes.length = b.nodes.length := by
  refine equal_induction (P := fun a b => a.nodes.length = b.nodes.length) (fun _ _ _ => rfl) ?_ h
  rintro p as _ _ _ bs _ _ _ - hall
  rw [nodes, nodes, List.length_cons, List.length_cons, Nat.add_right_cancel_iff]
  induction hall with
  | nil => rfl
  | cons hab _ ih => rw [nodesOf, nodesOf, List.length_append, List.length_append, hab, ih]

end Expr

end FormKernel.Form
