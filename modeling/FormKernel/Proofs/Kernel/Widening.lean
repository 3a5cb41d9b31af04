import FormKernel.Proofs.Kernel.Arithmetic
import FormKernel.Proofs.Kernel.Index

/-!
# Types of lowered expressions

Arithmetic and choices merge the types of their operands.  A function takes the type of its first
argument, by which its name is chosen as well.
-/

namespace FormKernel.Kernel

open CText (formatExpr formatExprs mathName?)
open Form (Head Number)
open List

/-- How wide a type of numbers is. -/
def DType.width? : Option DType → Option Nat
  | some .int => some 1
  | some .real => some 2
  | some .scalar => some 3
  | _ => Option.none

/-- Whether a type is at least as wide as another, if that is a type of numbers. -/
def DType.holds (t u : Option DType) : Bool := (width? u).all fun n => (width? t).any (n ≤ ·)

/-- The types of the operands that are numbers, whatever the sign of the expression. -/
def Expr.operandTypes : Expr → List (Option DType)
  | .neg a => a.operandTypes
  | .binary op a b => if op.isArithmetic then [a.dtype, b.dtype] else []
  | .nary _ _ _ args | .call _ args => args.map dtype
  | .conditional _ yes no => [yes.dtype, no.dtype]
  | _ => []

def Expr.widens (e : Expr) : Bool := e.operandTypes.all (DType.holds e.dtype)

/-- Whether the first argument of a function is at least as wide as the others. -/
def Expr.leads : Expr → Bool
  | .call _ (a :: as) => as.all fun b => DType.holds a.dtype b.dtype
  | _ => true

/-- An expression made by lowering operator after operator, with no function whose first argument is
    narrower than another. -/
inductive Lowered : Expr → Prop where
  | operand {e : Expr} (h : e.operandTypes = []) : Lowered e
  | node {head : Head} {value : Number} {es : List Expr} {e : Expr} (hes : ∀ x ∈ es, Lowered x)
    (hfirst : e.leads = true) (h : lower head value (es.map .expr) = .ok (.expr e)) : Lowered e

variable {e : Expr} {es : List Expr}

lemma holds_merge {t u : Option DType} {r : DType} (h : DType.merge [t, u] = .ok r) :
    [t, u].all (DType.holds (DType.merge [t, u]).toOption) = true := by
  rcases t with _ | t <;> rcases u with _ | u <;> (try cases t) <;> (try cases u) <;>
    cases h <;> rfl

lemma holds_self (t : Option DType) : DType.holds t t = true := by
  unfold DType.holds
  cases DType.width? t <;> simp

lemma eq_scalar_of_holds {t : Option DType}
    (h : DType.holds t (some .scalar) = true) : t = some .scalar := by
  rcases t with _ | _ | _ <;> first | rfl | cases h

lemma widens_ofBinary {op : BinaryOp} {a b : Expr}
    (h : Expr.ofBinary op a b = .ok e) : e.widens = true := by
  unfold Expr.ofBinary at h
  split at h
  · next hop =>
    obtain ⟨_, hr, h⟩ := bind_eq_ok.1 h
    cases h
    rw [Expr.widens, Expr.operandTypes, Expr.dtype, if_pos hop, if_pos hop]
    exact holds_merge hr
  · next hop =>
    cases h
    rw [Expr.widens, Expr.operandTypes, if_neg hop, all_nil]

lemma widens_lowerArith {op : ArithOp} (hes : ∀ x ∈ es, x.widens = true)
    (h : lowerArith op (es.map .expr) = .ok (.expr e)) : e.widens = true := by
  rcases es with _ | ⟨a, _ | ⟨b, _ | _⟩⟩
  case cons.cons.nil =>
    have hb := hes b (by simp)
    obtain ⟨_, hy, e, he, h⟩ := bind₂_eq_ok.1 h
    cases hy
    cases h
    refine (gives_onExprs op a b).preserves (Q := (·.widens = true)) (fun _ _ => widens_ofBinary)
      (fun _ => rfl) id ?_ (hes a (by simp)) hb (fun _ _ => hb) (fun _ _ => hes a (by simp)) he
    cases b <;> first | rfl | exact hb
  all_goals cases h

lemma widens_lowerBinary {op : BinaryOp} {args : List Operand}
    (h : lowerBinary op args = .ok (.expr e)) : e.widens = true := by
  unfold lowerBinary at h
  split at h
  · obtain ⟨x, -, y, -, e, he, h⟩ := bind₃_eq_ok.1 h
    cases h
    exact widens_ofBinary he
  · cases h

lemma widens_lowerFunction {name : String} (hes : ∀ x ∈ es, x.widens = true)
    (hfirst : e.leads = true)
    (h : lowerFunction name (es.map .expr) = .ok (.expr e)) : e.widens = true := by
  cases es with
  | nil => cases h
  | cons a es =>
    obtain ⟨_, -, h⟩ := bind_eq_ok.1 h
    dsimp only at h
    split at h
    · obtain ⟨_, -, h⟩ := bind_eq_ok.1 h
      cases h
      exact hes _ mem_cons_self
    · split at h
      · obtain ⟨_, -, h⟩ := bind_eq_ok.1 h
        cases h
        rfl
      · obtain ⟨_, hargs, e, he, h⟩ := bind₂_eq_ok.1 h
        cases (mapM_toExpr (a :: es)).symm.trans hargs
        cases h
        cases he
        exact all_eq_true.2
          (forall_mem_map.2 (forall_mem_cons.2 ⟨holds_self _, all_eq_true.1 hfirst⟩))

/-- An operator of a form on expressions that are as wide as their operands gives such an
    expression. -/
lemma widens_lower {head : Head} {value : Number} (hes : ∀ x ∈ es, x.widens = true)
    (hfirst : e.leads = true)
    (h : lower head value (es.map .expr) = .ok (.expr e)) : e.widens = true := by
  unfold lower at h
  split at h
  case h_3 =>
    obtain ⟨_, -, h⟩ := bind_eq_ok.1 h
    split at h <;> cases h <;> rfl
  case h_16 =>
    split at h
    · obtain ⟨_, -, h⟩ := bind_eq_ok.1 h
      cases h
      rfl
    · cases h
  case h_17 =>
    split at h
    · obtain ⟨c, -, yes, -, no, -, _, he, h⟩ := bind₄_eq_ok.1 h
      obtain ⟨_, hr, he⟩ := bind_eq_ok.1 he
      cases h
      cases he
      exact holds_merge hr
    · cases h
  all_goals first
    | exact widens_lowerArith hes h
    | exact widens_lowerBinary h
    | exact widens_lowerFunction hes hfirst h
    | (obtain ⟨_, -, _, -, h⟩ := bind₂_eq_ok.1 h
       cases h
       rfl)
    | (obtain ⟨_, -, h⟩ := bind_eq_ok.1 h
       cases h
       rfl)
    | cases h

/-- A lowered expression is at least as wide as its operands.  If it is a function with an argument
    of the type of the element tensor, it is printed with the name that the function has for this
    type. -/
theorem lowered_widens (h : Lowered e) :
    e.widens = true ∧ ∀ f args, e = .call f args → some .scalar ∈ e.operandTypes →
      ∀ (t : CText.Target) name texts, mathName? t.scalar f = some name →
        formatExprs t args = .ok texts →
          formatExpr t e = .ok (name ++ "(" ++ ", ".intercalate texts ++ ")") := by
  have hwidens : e.widens = true := by
    induction h with
    | operand h => rw [Expr.widens, h, all_nil]
    | node _ hfirst h ih => exact widens_lower ih hfirst h
  refine ⟨hwidens, ?_⟩
  rintro f (_ | ⟨a, args⟩) rfl hscalar t name texts hname htexts
  · cases hscalar
  · have ht : a.dtype = some .scalar := eq_scalar_of_holds (all_eq_true.1 hwidens _ hscalar)
    exact CText.formatExpr_call (by rw [CText.callType, ht]; exact hname) htexts

/-- A power of a complex number. -/
theorem lowered_widens_power :
    let e : Expr := .call "power" [.symbol ⟨"z", some .scalar⟩, .symbol ⟨"x", some .real⟩]
    Lowered e ∧ formatExpr ⟨⟨.complex, 128, true, ""⟩, ⟨.real, 64, true, ""⟩⟩ e =
      .ok "cpow(z, x)" := by
  intro e
  have h : Lowered e := by
    refine @Lowered.node (.operator .power) (.int 0) [_, _] _ (fun y hy => .operand ?_) rfl rfl
    rcases mem_pair.1 hy with rfl | rfl <;> rfl
  exact ⟨h, (lowered_widens h).2 _ _ rfl mem_cons_self _ "cpow" ["z", "x"] rfl rfl⟩

/-- A complex power of a real number is taken for a real number. -/
theorem power_narrow :
    let x : Expr := .symbol ⟨"x", some .real⟩
    let z : Expr := .symbol ⟨"z", some .scalar⟩
    let e : Expr := .call "power" [x, z]
    lower (.operator .power) (.int 0) [.expr x, .expr z] = .ok (.expr e) ∧ e.widens = false ∧
      formatExpr ⟨⟨.complex, 128, true, ""⟩, ⟨.real, 64, true, ""⟩⟩ e = .ok "pow(x, z)" :=
  ⟨rfl, rfl, rfl⟩

end FormKernel.Kernel
