import FormKernel.Proofs.Form.Equality
import Mathlib.Algebra.Ring.Basic
import Mathlib.Data.Finset.Lattice.Lemmas

/-!
# Values of scalar form expressions

A scalar expression has a value in a commutative ring once its modified terminals have values and
the operations that no ring law speaks of are interpreted: division, functions and comparisons.
Conditions have truth values, so a value is a `Datum`.
-/

namespace FormKernel.Form

variable {R : Type}

/-- A value: a number or a truth value. -/
inductive Datum (R : Type) where
  | number (x : R)
  | truth (b : Bool)

namespace Datum

/-- The number of a value; a truth value has none. -/
def toNumber [Zero R] : Datum R → R
  | .number x => x
  | .truth _ => 0

/-- The truth of a value; a number has none. -/
def toTruth : Datum R → Bool
  | .number _ => false
  | .truth b => b

def number? : Datum R → Option R
  | .number x => some x
  | .truth _ => none

def truth? : Datum R → Option Bool
  | .number _ => none
  | .truth b => some b

end Datum

/-- What the operations stand for that no ring law speaks of.  The floating-point numbers that
    compare equal stand for one number. -/
structure Interpretation (R : Type) [CommRing R] where
  float : Float → R
  complex : Float → Float → R
  divide : R → R → R
  call : String → List R → R
  compare : Operator → R → R → Bool
  float_congr : ∀ {x y}, (x == y) = true → float x = float y
  complex_congr : ∀ {a b c d}, (a == c) = true → (b == d) = true → complex a b = complex c d
  complex_real : ∀ x, complex x 0.0 = float x
  float_zero : float 0.0 = 0
  float_one : float 1.0 = 1
  float_negOne : float (-1.0) = -1

namespace Interpretation

variable [CommRing R] (I : Interpretation R)

def numeral : Number → R
  | .int n => n
  | .float x => I.float x
  | .complex a b => I.complex a b

def apply : Operator → List (Datum R) → Datum R
  | .sum, [a, b] => .number (a.toNumber + b.toNumber)
  | .product, [a, b] => .number (a.toNumber * b.toNumber)
  | .division, [a, b] => .number (I.divide a.toNumber b.toNumber)
  | .conditional, [c, a, b] => if c.toTruth then a else b
  | .andCondition, [a, b] => .truth (a.toTruth && b.toTruth)
  | .orCondition, [a, b] => .truth (a.toTruth || b.toTruth)
  | .notCondition, [a] => .truth !a.toTruth
  | op, args =>
    if op.isCondition then
      match args with
      | [a, b] => .truth (I.compare op a.toNumber b.toNumber)
      | _ => .truth false
    else .number (I.call (Head.operator op).functionName (args.map Datum.toNumber))

lemma numeral_congr {m n : Number} (h : m.equal n = true) : I.numeral m = I.numeral n := by
  unfold Number.equal at h
  split at h
  · next m n => rw [eq_of_beq h]
  · exact I.float_congr h
  · rw [Bool.and_eq_true] at h
    exact I.complex_congr h.1 h.2
  · exact absurd h Bool.false_ne_true

end Interpretation

/-- Values of modified terminals.  Equal terminals have equal values. -/
structure Valuation (R : Type) where
  value : Expr → R
  value_congr : ∀ {a b}, a.equal b = true → value a = value b

namespace Expr

variable [CommRing R] (I : Interpretation R) (τ : Valuation R)

mutual

def datum : Expr → Datum R
  | .terminal (.number n) => .number (I.numeral n)
  | .terminal .zero => .number 0
  | .terminal t => .number (τ.value (.terminal t))
  | .operator op ops shape fi dims =>
    if op.isModifier then .number (τ.value (.operator op ops shape fi dims))
    else I.apply op (data ops)

def data : List Expr → List (Datum R)
  | [] => []
  | e :: es => datum e :: data es

end

/-- The number that a scalar expression stands for. -/
def value (e : Expr) : R := (e.datum I τ).toNumber

/-! ### Values of operators -/

section Operators

variable (a b c : Expr) (shape : List Nat) (fi : List Int) (dims : List Nat)

@[simp] lemma value_zero : (terminal .zero).value I τ = 0 := rfl

@[simp] lemma value_division : (operator .division [a, b] shape fi dims).value I τ =
    I.divide (a.value I τ) (b.value I τ) := rfl

@[simp] lemma value_conj : (operator .conj [a] shape fi dims).value I τ =
    I.call (Head.operator .conj).functionName [a.value I τ] := rfl

@[simp] lemma value_conditional : (operator .conditional [c, a, b] shape fi dims).value I τ =
    if (c.datum I τ).toTruth then a.value I τ else b.value I τ :=
  apply_ite Datum.toNumber _ _ _

end Operators

/-! ### Equal expressions -/

/-- Equal expressions have the same value. -/
lemma datum_congr {a b : Expr} (h : (a == b) = true) : a.datum I τ = b.datum I τ := by
  refine equal_induction (P := fun a b => a.datum I τ = b.datum I τ) ?_ ?_ h
  · intro s t h
    have hst := h
    unfold Terminal.equal at hst
    -- only numbers and zero have values of their own
    split at hst <;>
      first
      | rfl
      | exact congrArg Datum.number (I.numeral_congr hst)
      | exact congrArg Datum.number (τ.value_congr h)
      | exact absurd hst Bool.false_ne_true
  · intro p as _ _ _ bs _ _ _ h hall
    have hdata : data I τ as = data I τ bs := by
      clear h
      induction hall with
      | nil => rfl
      | cons hab _ ih => rw [data, data, hab, ih]
    rw [datum, datum, τ.value_congr h, hdata]

lemma value_congr {a b : Expr} (h : (a == b) = true) : a.value I τ = b.value I τ := by
  rw [value, value, datum_congr I τ h]

end Expr

/-! ### Arguments of expressions -/

def Terminal.argumentNumber? : Terminal → Option Int
  | .argument n .. => some n
  | _ => none

namespace Expr

def argumentNumbers (e : Expr) : Finset Int :=
  (e.terminals.filterMap Terminal.argumentNumber?).toFinset

lemma mem_argumentNumbers {e : Expr} {n : Int} :
    n ∈ e.argumentNumbers ↔ ∃ t ∈ e.terminals, t.argumentNumber? = some n := by
  simp [argumentNumbers]

lemma argumentNumber?_congr {s t : Terminal} (h : s.equal t = true) :
    s.argumentNumber? = t.argumentNumber? := by
  unfold Terminal.equal at h
  split at h
  · next m _ _ _ n _ _ _ =>
    have hmn : m = n := by
      simp only [Bool.and_eq_true, beq_iff_eq] at h
      exact h.1.1.1
    exact congrArg some hmn
  all_goals first | rfl | exact absurd h Bool.false_ne_true

/-- Equal expressions depend on the same arguments. -/
lemma argumentNumbers_congr {a b : Expr}
    (h : (a == b) = true) : a.argumentNumbers = b.argumentNumbers := by
  refine congrArg List.toFinset
    (equal_induction (P := fun a b => a.terminals.filterMap Terminal.argumentNumber? =
    b.terminals.filterMap Terminal.argumentNumber?) ?_ ?_ h)
  · intro s t h
    simp only [terminals, List.filterMap_cons, argumentNumber?_congr h]
  · rintro p as _ _ _ bs _ _ _ - hall
    rw [terminals, terminals]
    induction hall with
    | nil => rfl
    | cons hab _ ih =>
      rw [terminalsOf, terminalsOf, List.filterMap_append, List.filterMap_append, hab, ih]

lemma argumentNumbers_operator (op : Operator) (ops : List Expr) (shape : List Nat)
    (fi : List Int) (dims : List Nat) :
    (operator op ops shape fi dims).argumentNumbers =
      ops.foldr (fun e s => e.argumentNumbers ∪ s) ∅ := by
  induction ops with
  | nil => rfl
  | cons e es ih =>
    rw [List.foldr_cons, ← ih]
    simp only [argumentNumbers, terminals, terminalsOf, List.filterMap_append, List.toFinset_append]

lemma argumentNumbers_eq_empty {op : Operator} {ops : List Expr} {shape : List Nat}
    {fi : List Int} {dims : List Nat} :
    (operator op ops shape fi dims).argumentNumbers = ∅ ↔ ∀ o ∈ ops, o.argumentNumbers = ∅ := by
  rw [argumentNumbers_operator]
  induction ops with
  | nil => simp
  | cons o ops ih => rw [List.foldr_cons, Finset.union_eq_empty, ih, List.forall_mem_cons]

lemma modified?_operator {op : Operator} {ops : List Expr} {shape : List Nat} {fi : List Int}
    {dims : List Nat} (hop : op.isModifier = false) :
    (operator op ops shape fi dims).modified? = .ok none := by
  rw [modified?.eq_def]
  simp [hop]

lemma mem_terminals_of_modified? : ∀ {e : Expr} {t : Terminal},
    e.modified? = .ok (some t) → t ∈ e.terminals
  | .terminal s, t, h => by
    simp only [modified?, Except.ok.injEq, Option.some.injEq] at h
    simp [terminals, h]
  | .operator op [] .., t, h => by
    simp only [modified?] at h
    split at h <;> simp [misfit] at h
  | .operator op (e :: es) .., t, h => by
    simp only [modified?] at h
    split at h
    · rw [terminals, terminalsOf]
      exact List.mem_append_left _ (mem_terminals_of_modified? h)
    · simp at h

end Expr

/-! ### What is assumed of a builder -/

/-- What is built for an operator has its value, and depends on no argument if its operands depend
    on none. -/
structure Builder.Sound [Builder] [CommRing R] (I : Interpretation R) (τ : Valuation R)
    (op : Operator) : Prop where
  value : ∀ ops, (build op ops).value I τ = (Expr.node op ops).value I τ
  free : ∀ {ops}, (∀ o ∈ ops, o.argumentNumbers = ∅) → (build op ops).argumentNumbers = ∅

/-- What is built for an operator is one of its operands, a number, or the operator itself. -/
def Builder.Elementary [Builder] (op : Operator) : Prop :=
  ∀ ops, build op ops ∈ ops ∨
    (∃ t : Terminal, t.isConstantValue = true ∧ (t == t) = true ∧ build op ops = .terminal t) ∨
    ∃ ops' shape fi dims, ops'.Perm ops ∧ build op ops = .operator op ops' shape fi dims

end FormKernel.Form
