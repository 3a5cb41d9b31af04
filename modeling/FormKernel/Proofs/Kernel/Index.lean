import FormKernel.Binding.Access
import FormKernel.Proofs.Outcome
import FormKernel.Proofs.RowMajor
import Mathlib.Algebra.BigOperators.Group.List.Defs

/-!
# Values of index expressions

The indices of an array access are whole-number expressions over loop indices and over arrays of
whole numbers that the kernel is given, such as the numbers of the entities of a cell.  `Expr.whole`
is their value, and `Dense.at?` is the entry of an array that a list of such values selects.
-/

namespace FormKernel

/-- The entry of an array at an index within its shape. -/
def Dense.at? {α : Type} (a : Dense α) (index : List Int) : Option α :=
  if index.length = a.shape.length ∧ ∀ p ∈ index.zip a.shape, 0 ≤ p.1 ∧ p.1 < p.2 then
    a.get? (index.map Int.toNat)
  else none

lemma Dense.at?_of_within {α : Type} {a : Dense α} {i : List Nat} (h : Within a.shape i) :
    a.at? (i.map Int.ofNat) = a.get? i := by
  have hbounds : ∀ p ∈ (i.map Int.ofNat).zip a.shape, 0 ≤ p.1 ∧ p.1 < p.2 := by
    generalize a.shape = s at h
    induction h with
    | nil => simp
    | cons hlt _ ih =>
      rw [List.map_cons, List.zip_cons_cons, List.forall_mem_cons]
      exact ⟨⟨Int.natCast_nonneg _, Int.ofNat_lt.2 hlt⟩, ih⟩
  rw [Dense.at?, if_pos ⟨by simp [h.length_eq], hbounds⟩, List.map_map]
  congr 1
  simp [Function.comp_def]

namespace Kernel

/-- What the whole-number names of a kernel stand for: its loop indices, and the entries of the
    arrays of whole numbers it is given. -/
structure Wholes where
  symbol : String → Option Int
  item : String → List Int → Option Int

/-- The whole number that a literal stands for. -/
def Whole.toInt? : Whole → Option Int
  | .int n => some n
  | .bool b => some (if b then 1 else 0)
  | .word _ _ n => some n
  | .real _ => none

mutual

def Expr.whole (σ : Wholes) : Expr → Option Int
  | .int n => n.toInt?
  | .symbol s => σ.symbol s.name
  | .multiIndex _ _ _ flat => flat.whole σ
  | .neg a => (a.whole σ).map (- ·)
  | .binary .add a b => do return (← a.whole σ) + (← b.whole σ)
  | .binary .sub a b => do return (← a.whole σ) - (← b.whole σ)
  | .binary .mul a b => do return (← a.whole σ) * (← b.whole σ)
  | .nary .sum _ _ args => (Expr.wholes σ args).map List.sum
  | .nary .product _ _ args => (Expr.wholes σ args).map List.prod
  | .access s indices => do σ.item s.name (← Expr.wholes σ indices)
  | _ => none

def Expr.wholes (σ : Wholes) : List Expr → Option (List Int)
  | [] => some []
  | e :: es => do return (← e.whole σ) :: (← Expr.wholes σ es)

end

variable {σ : Wholes}

@[simp] lemma Expr.whole_int (n : Int) : (Expr.int (.int n)).whole σ = some n := rfl

@[simp] lemma Expr.wholes_nil : Expr.wholes σ [] = some [] := rfl

lemma Expr.wholes_cons {e : Expr} {es : List Expr} {n : Int} {ns : List Int}
    (h : e.whole σ = some n)
    (hs : Expr.wholes σ es = some ns) : Expr.wholes σ (e :: es) = some (n :: ns) := by
  simp [Expr.wholes, h, hs]

lemma Expr.whole_access {s : Symbol} {is : List Expr} {ns : List Int}
    (h : Expr.wholes σ is = some ns) : (Expr.access s is).whole σ = σ.item s.name ns := by
  simp [Expr.whole, h]

lemma mapM_toExpr (es : List Expr) : (es.map Operand.expr).mapM Operand.toExpr = .ok es := by
  rw [mapM_eq_ok, List.forall₂_map_left_iff]
  exact List.forall₂_same.2 fun _ _ => rfl

/-- The entry of an array that an access reads, for an array of the given name. -/
def Expr.read {α : Type} (σ : Wholes) (name : String) (a : Dense α) : Expr → Option α
  | .access s indices => do
    let index ← Expr.wholes σ indices
    if s.name = name then a.at? index else none
  | _ => none

end Kernel

namespace Binding

open Kernel (Expr Operand Symbol)

lemma ofItem_access (s : Symbol) (is : List Expr) {o : Operand} {e : Expr}
    (h : o.toExpr = .ok e) : Expr.ofItem (.expr (.access s is))
    [o] = .ok (.access s (is ++ [e])) := by
  have hold := Kernel.mapM_toExpr is
  simp [Expr.ofItem, Expr.ofAccess, List.mapM_append, hold, h, bind, Except.bind, pure, Except.pure]

/-- Indices that are put on in turn are the indices of one access. -/
lemma item_eq_ok {s : Symbol} {o : Operand} {os : List Operand} {is : List Expr}
    (h : (o :: os).mapM Operand.toExpr = .ok is) : item s (o :: os) = .ok (.access s is) := by
  have hall := mapM_eq_ok.1 h
  obtain ⟨e, es, he, hes, rfl⟩ := List.forall₂_cons_left_iff.1 hall
  have hfirst : Expr.ofItem (.expr (.symbol s)) [o] = .ok (.access s [e]) := by
    simp [Expr.ofItem, Expr.ofAccess, he, bind, Except.bind, pure, Except.pure]
  -- the indices that are there already, generalised for the induction
  have hrest : ∀ (before : List Expr), os.foldlM (fun e i => Expr.ofItem (.expr e) [i])
      (.access s before) = .ok (.access s (before ++ es)) := by
    clear h hall
    induction hes with
    | nil => exact fun before => by simp [pure, Except.pure]
    | @cons i x _ xs hx _ ih =>
      intro before
      have hnext := ih (before ++ [x])
      rw [List.append_assoc, List.singleton_append] at hnext
      rwa [List.foldlM_cons, ofItem_access s before hx]
  rw [item, List.foldlM_cons, hfirst]
  exact hrest [e]

end Binding

end FormKernel
