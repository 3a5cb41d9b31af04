import FormKernel.Proofs.CText.Formatting
import FormKernel.Proofs.Kernel.Uses

/-!
# Signs in arithmetic

A minus sign in front of a literal that is written with one would be read as a decrement.
Arithmetic changes the sign of a literal in place and puts a sign in front of other expressions
only, but for one case: a literal minus one is left out of a product, and the other factor is
negated whatever it is.
-/

namespace FormKernel.Kernel

open Form (Head)
open List

/-- What arithmetic on two operands gives, at least one of which is an expression. -/
lemma gives_apply (op : ArithOp) {a b : Operand} {x y : Expr} (ha : a.plain.toExpr = .ok x)
    (hb : b.toExpr = .ok y) (htree : (a.isTree || b.isTree) = true) :
    ∃ r, Gives x y op r ∧ op.apply a b = r.map .expr := by
  have hmap : ∀ r : Outcome Expr, (do return Operand.expr (← r)) = r.map Operand.expr := by
    rintro (_ | _) <;> rfl
  cases a with
  | expr x' =>
    obtain rfl := Except.ok.inj ha
    refine ⟨_, gives_onExprs op x' y, ?_⟩
    rw [ArithOp.apply, hb, ← hmap]
    rfl
  | stmt => cases ha
  | _ =>
    -- a plain number in front of an expression
    cases b with
    | expr y' =>
      obtain rfl := Except.ok.inj hb
      refine ⟨_, gives_onPlain op x y', ?_⟩
      rw [ArithOp.apply, ha, ← hmap]
      · rfl
      · nofun
    | stmt => cases hb
    | _ => cases htree

/-- A literal that is written with a minus sign. -/
def Expr.isNegative : Expr → Bool
  | .float x | .int (.real x) => CText.isNegative x
  | .int n => CText.wholeValue n < 0
  | _ => false

mutual

/-- An expression in which no literal with a minus sign is negated. -/
def Expr.isClean : Expr → Bool
  | .neg a => !a.isNegative && a.isClean
  | .not a => a.isClean
  | .multiIndex _ symbols _ flat => Expr.areClean symbols && flat.isClean
  | .binary _ a b | .assign _ a b => a.isClean && b.isClean
  | .nary _ _ _ args | .call _ args | .access _ args => Expr.areClean args
  | .conditional a b c => a.isClean && b.isClean && c.isClean
  | _ => true

/-- Expressions in which no literal with a minus sign is negated. -/
def Expr.areClean : List Expr → Bool
  | [] => true
  | e :: es => e.isClean && Expr.areClean es

end

/-- Whether a literal minus one meets a literal with a minus sign. -/
def Expr.signsMeet (x y : Expr) : Bool :=
  x.isNegativeOne && y.isNegative || y.isNegativeOne && x.isNegative

variable {x y e : Expr}

lemma isClean_neg (hx : x.isClean = true)
    (h : x.isNegative = false) : (Expr.neg x).isClean = true := by
  rw [Expr.isClean, hx, h]
  rfl

lemma isClean_negated (h : x.isClean = true) : x.negated.isClean = true := by
  cases x <;> first | rfl | exact isClean_neg h rfl

lemma isClean_gives {op : ArithOp} {r : Outcome Expr} (hx : x.isClean = true)
    (hy : y.isClean = true)
    (hsigns : op = .mul → x.signsMeet y = false) (hr : Gives x y op r) (h : r = .ok e) :
    e.isClean = true := by
  have hbinary : ∀ {op : BinaryOp} {a b e : Expr}, a.isClean = true → b.isClean = true →
      Expr.ofBinary op a b = .ok e → e.isClean = true := fun ha hb h => by
    rw [ofBinary_eq_ok h, Expr.isClean, ha, hb]
    rfl
  have hneg : ∀ {a : Expr}, (Expr.neg a).isClean = true → a.isClean = true := fun h =>
    (Bool.and_eq_true_iff.1 h).2
  refine hr.preserves (Q := fun e => e.isClean = true) hbinary (fun _ => rfl) hneg
    (isClean_negated hy) hx hy (fun hop hone => ?_) (fun hop hone => ?_) h
  · have hmeet := hsigns hop
    rw [Expr.signsMeet, hone, Bool.true_and, Bool.or_eq_false_iff] at hmeet
    exact isClean_neg hy hmeet.1
  · have hmeet := hsigns hop
    rw [Expr.signsMeet, hone, Bool.true_and, Bool.or_eq_false_iff] at hmeet
    exact isClean_neg hx hmeet.2

/-- The operators of a form that are lowered to arithmetic. -/
def arithmeticHeads : List (Head × ArithOp) :=
  [(.operator .sum, .add), (.operator .product, .mul), (.operator .division, .div)]

/-- Arithmetic on expressions in which no literal with a minus sign is negated gives such an
    expression, and so do the opposite of one and the operators of a form, unless a literal minus
    one is multiplied with a literal with a minus sign. -/
theorem arithmetic_clean {op : ArithOp} {a b : Operand} (ha : a.plain.toExpr = .ok x)
    (hb : b.toExpr = .ok y) (htree : (a.isTree || b.isTree) = true) (hx : x.isClean = true)
    (hy : y.isClean = true) (hsigns : op = .mul → x.signsMeet y = false) :
    (∀ e, op.apply a b = .ok (.expr e) → e.isClean = true) ∧ x.negated.isClean = true ∧
      ∀ head v e, (head, op) ∈ arithmeticHeads → lower head v [a, b] = .ok (.expr e) →
        e.isClean = true := by
  obtain ⟨r, hr, happly⟩ := gives_apply op ha hb htree
  have hclean : ∀ e, op.apply a b = .ok (.expr e) → e.isClean = true := by
    intro e h
    rw [happly] at h
    cases r with
    | error => cases h
    | ok e' =>
      obtain rfl : e' = e := by simpa [Except.map] using h
      exact isClean_gives hx hy hsigns hr rfl
  refine ⟨hclean, isClean_negated hx, fun head v e hhead h => hclean e ?_⟩
  simp only [arithmeticHeads, mem_cons, Prod.mk.injEq, not_mem_nil, or_false] at hhead
  rcases hhead with ⟨rfl, rfl⟩ | ⟨rfl, rfl⟩ | ⟨rfl, rfl⟩ <;> exact h

/-- A product of minus one with a symbol. -/
theorem arithmetic_clean_symbol :
    let t : Expr := .symbol ⟨"t", some .real⟩
    ArithOp.mul.apply (.int (-1)) (.expr t) = .ok (.expr (.neg t)) ∧
      (Expr.neg t).isClean = true := by
  intro t
  exact ⟨rfl,
    (@arithmetic_clean _ t .mul (.int (-1)) (.expr t) rfl rfl rfl rfl rfl fun _ => rfl).1 _ rfl⟩

/-- The product of minus one and minus three is a negated literal with a minus sign. -/
theorem mul_negatives_negated :
    let one : Expr := .int (.int (-1))
    let three : Expr := .int (.int (-3))
    one.isClean = true ∧ three.isClean = true ∧
      ArithOp.mul.apply (.expr one) (.expr three) = .ok (.expr (.neg three)) ∧
      (Expr.neg three).isClean = false ∧
      ∀ t : CText.Target, CText.formatExpr t (.neg three) = .ok "--3" := by
  have htext := CText.text_whole (n := .int (-3)) (by decide +kernel)
  refine ⟨rfl, rfl, rfl, rfl, fun t => ?_⟩
  rw [CText.formatExpr, CText.formatExpr, htext]
  rfl

end FormKernel.Kernel
