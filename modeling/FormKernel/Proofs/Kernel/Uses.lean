import FormKernel.Kernel.Lower
import FormKernel.Kernel.MultiIndex
import FormKernel.Proofs.Kernel.Fusion
import FormKernel.Proofs.List

/-!
# Names that code uses

Every name in an expression stands alone or has a number of indices.  An expression that is made
from others uses no more than they do, and so do statements that are made from expressions.  So
whatever holds of all uses in what a kernel is made from holds of all uses in the kernel.
-/

namespace FormKernel.Kernel

open Form (Head Number)
open List

/-! ## Uses -/

mutual

/-- The names in an expression, each with the number of its indices. -/
def Expr.uses : Expr → List (String × Nat)
  | .symbol s => [(s.name, 0)]
  | .multiIndex _ _ _ flat => flat.uses
  | .neg a | .not a => a.uses
  | .binary _ a b | .assign _ a b => a.uses ++ b.uses
  | .nary _ _ _ args | .call _ args => Expr.usesAll args
  | .access s indices => (s.name, indices.length) :: Expr.usesAll indices
  | .conditional a b c => a.uses ++ b.uses ++ c.uses
  | _ => []

/-- The names in expressions, each with the number of its indices. -/
def Expr.usesAll : List Expr → List (String × Nat)
  | [] => []
  | e :: es => e.uses ++ Expr.usesAll es

end

mutual

/-- The names in the expressions of a statement, each with the number of its indices. -/
def Stmt.uses : Stmt → List (String × Nat)
  | .expr e => e.uses
  | .list body => Stmt.usesAll body
  | .variableDecl _ _ (some value) => value.uses
  | .loop index lower upper body => index.uses ++ lower.uses ++ upper.uses ++ Stmt.usesAll body
  | .part _ _ body declarations .. => Stmt.usesAll declarations ++ Stmt.usesAll body
  | _ => []

/-- The names in the expressions of statements, each with the number of its indices. -/
def Stmt.usesAll : List Stmt → List (String × Nat)
  | [] => []
  | s :: ss => s.uses ++ Stmt.usesAll ss

end

mutual

/-- The names in an operand that is taken as an expression or a statement. -/
def Operand.uses : Operand → List (String × Nat)
  | .expr e => e.uses
  | .stmt s => s.uses
  | .list items => Operand.usesAll items
  | _ => []

/-- The names in operands that are taken as expressions or statements. -/
def Operand.usesAll : List Operand → List (String × Nat)
  | [] => []
  | o :: os => o.uses ++ Operand.usesAll os

end

variable {P : String → Nat → Prop}

def Expr.Fits (P : String → Nat → Prop) (e : Expr) : Prop := ∀ u ∈ e.uses, P u.1 u.2

instance [∀ x n, Decidable (P x n)] (e : Expr) : Decidable (e.Fits P) :=
  inferInstanceAs (Decidable (∀ u ∈ e.uses, P u.1 u.2))

/-- A statement of which all uses have a property. -/
def Stmt.Fits (P : String → Nat → Prop) (s : Stmt) : Prop := ∀ u ∈ s.uses, P u.1 u.2

def Operand.Fits (P : String → Nat → Prop) (o : Operand) : Prop := ∀ u ∈ o.uses, P u.1 u.2

variable {es : List Expr} {u : String × Nat} {ss : List Stmt} {os : List Operand} {sizes : List Int}
  {m : MultiIndex} {tag : Tag} {o : Operand} {s : Stmt}

lemma Expr.mem_usesAll : u ∈ Expr.usesAll es ↔ ∃ e ∈ es, u ∈ e.uses := by
  induction es with
  | nil => simp [usesAll]
  | cons e es ih => simp [usesAll, ih]

lemma Stmt.usesAll_eq_flatMap (ss : List Stmt) : Stmt.usesAll ss = ss.flatMap Stmt.uses := by
  induction ss with
  | nil => rfl
  | cons s ss ih => rw [usesAll, ih, flatMap_cons]

lemma Operand.usesAll_eq_flatMap (os : List Operand) :
    Operand.usesAll os = os.flatMap Operand.uses := by
  induction os with
  | nil => rfl
  | cons o os ih => rw [usesAll, ih, flatMap_cons]

lemma Stmt.mem_usesAll : u ∈ Stmt.usesAll ss ↔ ∃ s ∈ ss, u ∈ s.uses := by
  rw [usesAll_eq_flatMap, mem_flatMap]

lemma Operand.mem_usesAll : u ∈ Operand.usesAll os ↔ ∃ o ∈ os, u ∈ o.uses := by
  rw [usesAll_eq_flatMap, mem_flatMap]

lemma listing_uses : Listing Stmt.uses Operand.uses :=
  ⟨fun _ => rfl, fun _ => rfl, Stmt.usesAll_eq_flatMap, Operand.usesAll_eq_flatMap⟩

/-! ## Expressions -/

namespace Expr

lemma forall_usesAll {es : List Expr} : (∀ u ∈ usesAll es, P u.1 u.2) ↔ ∀ e ∈ es, e.Fits P := by
  simp only [mem_usesAll]
  exact ⟨fun h e he u hu => h u ⟨e, he, hu⟩, fun h u ⟨e, he, hu⟩ => h e he u hu⟩

lemma fits_of_uses_eq_nil {e : Expr} (h : e.uses = []) : e.Fits P := by simp [Fits, h]

lemma fits_symbol {s : Symbol} : (symbol s).Fits P ↔ P s.name 0 := by simp [Fits, uses]

variable {a : Expr}

lemma fits_neg : (neg a).Fits P ↔ a.Fits P := by simp [Fits, uses]

lemma fits_binary {op : BinaryOp} {b : Expr} : (binary op a b).Fits P ↔ a.Fits P ∧ b.Fits P := by
  simp [Fits, uses, or_imp, forall_and]

lemma fits_assign {op : AssignOp} {b : Expr} : (assign op a b).Fits P ↔ a.Fits P ∧ b.Fits P := by
  simp [Fits, uses, or_imp, forall_and]

lemma fits_nary {op : NaryOp} {tag : Tag} {t : DType} {args : List Expr} :
    (nary op tag t args).Fits P ↔ ∀ a ∈ args, a.Fits P := by
  rw [← forall_usesAll]
  simp only [Fits, uses]

lemma fits_access {s : Symbol} {is : List Expr} :
    (access s is).Fits P ↔ P s.name is.length ∧ ∀ i ∈ is, i.Fits P := by
  rw [← forall_usesAll]
  simp only [Fits, uses, forall_mem_cons]

lemma fits_negated (h : a.Fits P) : a.negated.Fits P := by
  cases a <;> first | exact fits_of_uses_eq_nil rfl | exact fits_neg.2 h

end Expr

section Arithmetic

variable {a b e : Expr}

lemma ofBinary_eq_ok {op : BinaryOp} (h : Expr.ofBinary op a b = .ok e) : e = .binary op a b := by
  unfold Expr.ofBinary at h
  split at h
  · obtain ⟨_, -, h⟩ := bind_eq_ok.1 h
    exact (pure_eq_ok.1 h).symm
  · exact (pure_eq_ok.1 h).symm

lemma fits_ofBinary {op : BinaryOp} (ha : a.Fits P) (hb : b.Fits P)
    (h : Expr.ofBinary op a b = .ok e) : e.Fits P := by
  rw [ofBinary_eq_ok h]
  exact Expr.fits_binary.2 ⟨ha, hb⟩

/-- What arithmetic on two expressions may give.  The order in which the cases are tried depends on
    whether the first is a plain number. -/
inductive Gives (a b : Expr) : ArithOp → Outcome Expr → Prop where
  | zeroAdd (h : a.isZero = true) : Gives a b .add (.ok b)
  | addZero (h : b.isZero = true) : Gives a b .add (.ok a)
  | addNeg {c : Expr} (h : b = .neg c) : Gives a b .add (Expr.ofBinary .sub a c)
  | add : Gives a b .add (Expr.ofBinary .add a b)
  | zeroSub (h : a.isZero = true) : Gives a b .sub (.ok b.negated)
  | subZero (h : b.isZero = true) : Gives a b .sub (.ok a)
  | subNeg {c : Expr} (h : b = .neg c) : Gives a b .sub (Expr.ofBinary .add a c)
  | subInt {m n : Whole} (ha : a = .int m)
    (hb : b = .int n) : Gives a b .sub (do return .int (← m.sub n))
  | sub : Gives a b .sub (Expr.ofBinary .sub a b)
  | zeroMul (h : a.isZero = true) : Gives a b .mul (.ok a)
  | mulZero (h : b.isZero = true) : Gives a b .mul (.ok b)
  | oneMul (h : a.isOne = true) : Gives a b .mul (.ok b)
  | mulOne (h : b.isOne = true) : Gives a b .mul (.ok a)
  | negOneMul (h : a.isNegativeOne = true) : Gives a b .mul (.ok (.neg b))
  | mulNegOne (h : b.isNegativeOne = true) : Gives a b .mul (.ok (.neg a))
  | mulInt {m n : Whole} (ha : a = .int m)
    (hb : b = .int n) : Gives a b .mul (do return .int (← m.mul n))
  | mul : Gives a b .mul (Expr.ofBinary .mul a b)
  | quotient {op : ArithOp} (h : op = .div ∨ op = .floorDiv) : Gives a b op (Expr.div a b)

lemma gives_onExprs (op : ArithOp) (a b : Expr) : Gives a b op (op.onExprs a b) := by
  cases op
  case div => exact .quotient (.inl rfl)
  case floorDiv => exact .quotient (.inr rfl)
  all_goals
    simp only [ArithOp.onExprs, Expr.add, Expr.sub, Expr.mul]
    repeat' split
    all_goals first
      | exact .oneMul ‹_›
      | exact .mulOne ‹_›
      | constructor <;> first | assumption | rfl

lemma gives_onPlain (op : ArithOp) (a b : Expr) : Gives a b op (op.onPlain a b) := by
  cases op
  case div => exact .quotient (.inl rfl)
  case floorDiv => exact .quotient (.inr rfl)
  all_goals
    simp only [ArithOp.onPlain, Expr.addPlain, Expr.subPlain, Expr.mulPlain]
    repeat' split
    all_goals first
      | exact .oneMul ‹_›
      | exact .mulOne ‹_›
      | constructor <;> first | assumption | rfl

/-- What is kept by the steps of arithmetic holds of its result. -/
lemma Gives.preserves {Q : Expr → Prop} {op : ArithOp} {r : Outcome Expr}
    (hbinary : ∀ {op a b e}, Q a → Q b → Expr.ofBinary op a b = .ok e → Q e)
    (hint : ∀ n, Q (.int n))
    (hneg : ∀ {a}, Q (.neg a) → Q a) (hnegated : Q b.negated) (ha : Q a) (hb : Q b)
    (hleft : op = .mul → a.isNegativeOne = true → Q (.neg b))
    (hright : op = .mul → b.isNegativeOne = true → Q (.neg a)) (hr : Gives a b op r)
    (h : r = .ok e) : Q e := by
  cases hr with
  | zeroAdd | mulZero | oneMul => exact Except.ok.inj h ▸ hb
  | addZero | subZero | zeroMul | mulOne => exact Except.ok.inj h ▸ ha
  | addNeg hc | subNeg hc => exact hbinary ha (hneg (hc ▸ hb)) h
  | add | sub | mul => exact hbinary ha hb h
  | zeroSub => exact Except.ok.inj h ▸ hnegated
  | negOneMul hone => exact Except.ok.inj h ▸ hleft rfl hone
  | mulNegOne hone => exact Except.ok.inj h ▸ hright rfl hone
  | subInt | mulInt =>
    obtain ⟨n, -, h⟩ := bind_eq_ok.1 h
    exact pure_eq_ok.1 h ▸ hint n
  | quotient =>
    unfold Expr.div at h
    split at h
    · cases h
    · split at h
      · exact Except.ok.inj h ▸ ha
      · exact hbinary ha hb h

lemma fits_gives {op : ArithOp} {r : Outcome Expr} (ha : a.Fits P) (hb : b.Fits P)
    (hr : Gives a b op r) (h : r = .ok e) : e.Fits P :=
  hr.preserves fits_ofBinary (fun _ => Expr.fits_of_uses_eq_nil rfl)
    Expr.fits_neg.1 (Expr.fits_negated hb) ha hb (fun _ _ => Expr.fits_neg.2 hb)
    (fun _ _ => Expr.fits_neg.2 ha) h

end Arithmetic

/-! ## Operands -/

namespace Operand

lemma fits_expr {e : Expr} (h : e.Fits P) : (Operand.expr e).Fits P := h

lemma fits_list {os : List Operand} : (Operand.list os).Fits P ↔ ∀ o ∈ os, o.Fits P := by
  simp only [Fits, uses, mem_usesAll]
  exact ⟨fun h o ho u hu => h u ⟨o, ho, hu⟩, fun h u ⟨o, ho, hu⟩ => h o ho u hu⟩

lemma fits_number (n : Numeral) : (Operand.number n).Fits P := by simp [Fits, uses]

lemma fits_text (s : String) : (Operand.text s).Fits P := by simp [Fits, uses]

lemma Fits.toExpr {o : Operand} {e : Expr} (ho : o.Fits P) (h : o.toExpr = .ok e) : e.Fits P := by
  unfold Operand.toExpr at h
  split at h
  · cases h
    exact ho
  all_goals first
    | (obtain rfl := Except.ok.inj h
       exact Expr.fits_of_uses_eq_nil rfl)
    | exact absurd h misfit_ne_ok
    | (obtain ⟨_, -, h⟩ := bind_eq_ok.1 h
       exact absurd h throw_ne_ok)

lemma fits_plain {o : Operand} (ho : o.Fits P) : o.plain.Fits P := by
  cases o with
  | number n => exact fits_number _
  | _ => exact ho

lemma fits_replicate {os : List Operand} (hos : (Operand.list os).Fits P) (n : Nat) :
    (Operand.list (replicate n os).flatten).Fits P := by
  rw [fits_list] at hos ⊢
  intro o ho
  obtain ⟨part, hpart, ho⟩ := mem_flatten.1 ho
  exact hos o (eq_of_mem_replicate hpart ▸ ho)

end Operand

section Operands

variable {a b : Operand}

/-- Arithmetic uses no more names than its operands. -/
lemma fits_apply {op : ArithOp} (ha : a.Fits P) (hb : b.Fits P)
    (h : op.apply a b = .ok o) : o.Fits P := by
  unfold ArithOp.apply at h
  split at h
  · obtain ⟨y, hy, e, he, h⟩ := bind₂_eq_ok.1 h
    cases h
    exact fits_gives (ha) (hb.toExpr hy) (gives_onExprs ..) he
  · obtain ⟨x, hx, e, he, h⟩ := bind₂_eq_ok.1 h
    cases h
    exact fits_gives ((Operand.fits_plain ha).toExpr hx) (hb) (gives_onPlain ..) he
  · obtain ⟨_, -, h⟩ := bind_eq_ok.1 h
    cases h
    exact Operand.fits_number _
  · cases h
    exact Operand.fits_text _
  · cases h
    exact Operand.fits_list.2
      (forall_mem_append.2 ⟨Operand.fits_list.1 ha, Operand.fits_list.1 hb⟩)
  · obtain ⟨_, -, h⟩ := bind_eq_ok.1 h
    cases h
    exact Operand.fits_text _
  · obtain ⟨_, -, h⟩ := bind_eq_ok.1 h
    cases h
    exact Operand.fits_text _
  · obtain ⟨_, -, h⟩ := bind_eq_ok.1 h
    cases h
    exact Operand.fits_replicate ha _
  · obtain ⟨_, -, h⟩ := bind_eq_ok.1 h
    cases h
    exact Operand.fits_replicate hb _
  · cases h

variable {args : List Operand}

lemma fits_toExprs (hargs : ∀ a ∈ args, a.Fits P) (h : args.mapM Operand.toExpr = .ok es) :
    ∀ e ∈ es, e.Fits P := by
  intro e he
  obtain ⟨a, ha, hae⟩ := exists_of_mapM h he
  exact (hargs a ha).toExpr hae

lemma fits_ofCall {name : String} {e : Expr} (hes : ∀ e ∈ es, e.Fits P)
    (h : Expr.ofCall name es = .ok e) : e.Fits P := by
  unfold Expr.ofCall at h
  dsimp only at h
  split at h
  · cases h
  · cases h
    intro x hx
    obtain ⟨e, he, hx⟩ := Expr.mem_usesAll.1 hx
    exact hes e he x hx

lemma fits_lowerFunction {name : String} (hargs : ∀ a ∈ args, a.Fits P)
    (h : lowerFunction name args = .ok o) : o.Fits P := by
  unfold lowerFunction at h
  split at h
  · cases h
  · dsimp only at h
    split at h
    case h_4 => exact absurd h (by simp [misfit, bind, Except.bind])
    -- whatever the type of the first operand is
    all_goals
      obtain ⟨_, -, h⟩ := bind_eq_ok.1 h
      split at h
      · obtain ⟨_, -, h⟩ := bind_eq_ok.1 h
        cases h
        exact hargs _ mem_cons_self
      · split at h
        · obtain ⟨_, -, h⟩ := bind_eq_ok.1 h
          cases h
          exact Expr.fits_of_uses_eq_nil rfl
        · obtain ⟨es, hes, e, he, h⟩ := bind₂_eq_ok.1 h
          cases h
          exact fits_ofCall (fits_toExprs hargs hes) he

lemma fits_lowerBinary {op : BinaryOp} (hargs : ∀ a ∈ args, a.Fits P)
    (h : lowerBinary op args = .ok o) : o.Fits P := by
  unfold lowerBinary at h
  split at h
  · obtain ⟨x, hx, y, hy, e, he, h⟩ := bind₃_eq_ok.1 h
    cases h
    exact fits_ofBinary ((hargs _ (by simp)).toExpr hx)
      ((hargs _ (by simp)).toExpr hy) he
  · cases h

lemma fits_lowerArith {op : ArithOp} (hargs : ∀ a ∈ args, a.Fits P)
    (h : lowerArith op args = .ok o) : o.Fits P := by
  unfold lowerArith at h
  split at h
  · exact fits_apply (hargs _ (by simp)) (hargs _ (by simp)) h
  · cases h

/-- An operator of a form uses no more names than its operands. -/
lemma fits_lower {head : Head} {value : Number} (hargs : ∀ a ∈ args, a.Fits P)
    (h : lower head value args = .ok o) : o.Fits P := by
  have hliteral : ∀ {e : Expr}, e.uses = [] → (Operand.expr e).Fits P := fun he =>
    Expr.fits_of_uses_eq_nil he
  unfold lower at h
  split at h
  case h_3 =>
    -- a complex number may be real
    obtain ⟨_, -, h⟩ := bind_eq_ok.1 h
    split at h
    · cases h
    · cases h
      exact hliteral rfl
    · cases h
      exact hliteral rfl
  case h_16 =>
    -- negation of a condition
    split at h
    · obtain ⟨e, he, h⟩ := bind_eq_ok.1 h
      cases h
      have ha := (hargs _ mem_cons_self).toExpr he
      exact fun x hx => ha x hx
    · cases h
  case h_17 =>
    -- choice by a condition
    split at h
    · obtain ⟨c, hc, t, ht, f, hf, e, he, h⟩ := bind₄_eq_ok.1 h
      obtain ⟨_, -, he⟩ := bind_eq_ok.1 he
      cases h
      cases he
      have hc := (hargs _ (by simp)).toExpr hc
      have ht := (hargs _ (by simp)).toExpr ht
      have hf := (hargs _ (by simp)).toExpr hf
      exact forall_mem_append.2 ⟨forall_mem_append.2 ⟨hc, ht⟩, hf⟩
    · cases h
  all_goals first
    | exact fits_lowerArith hargs h
    | exact fits_lowerBinary hargs h
    | exact fits_lowerFunction hargs h
    | (obtain ⟨_, -, h⟩ := bind_eq_ok.1 h
       obtain ⟨_, -, h⟩ := bind_eq_ok.1 h
       cases h
       exact hliteral rfl)
    | (obtain ⟨_, -, h⟩ := bind_eq_ok.1 h
       cases h
       exact hliteral rfl)
    | cases h

lemma fits_ofNary {op : NaryOp} {tag : Tag} {e : Expr} (hes : ∀ e ∈ es, e.Fits P)
    (h : Expr.ofNary op es tag = .ok e) : e.Fits P := by
  obtain ⟨t, -, h⟩ := bind_eq_ok.1 h
  cases h
  exact Expr.fits_nary.2 hes

/-- A product uses no more than its factors. -/
lemma fits_product {tag : Tag} (hargs : ∀ a ∈ args, a.Fits P)
    (h : Operand.product args tag = .ok o) : o.Fits P := by
  have hfilter : ∀ a ∈ args.filter (fun f => !Operand.isOne f), a.Fits P := fun a ha =>
    hargs a (mem_of_mem_filter ha)
  rw [Operand.product] at h
  split at h
  · cases h
    exact Expr.fits_of_uses_eq_nil rfl
  · next f hf =>
    obtain rfl := Except.ok.inj h
    exact hfilter f (by simp [hf])
  · split at h
    · next f hf =>
      obtain rfl := Except.ok.inj h
      exact hfilter f (mem_of_find?_eq_some hf)
    · obtain ⟨es, hes, e, he, h⟩ := bind₂_eq_ok.1 h
      cases h
      exact fits_ofNary (fits_toExprs hfilter hes) he

end Operands

/-! ## Multi-indices -/

/-- A multi-index of which all uses have a property. -/
structure MultiIndex.Fits (P : String → Nat → Prop) (m : MultiIndex) : Prop where
  symbols : ∀ e ∈ m.symbols, e.Fits P
  flat : m.flat.Fits P

lemma MultiIndex.Fits.toExpr {m : MultiIndex} (h : m.Fits P) : m.toExpr.Fits P := h.flat

lemma fits_terms (hos : ∀ o ∈ os, o.Fits P) (h : MultiIndex.terms os sizes = .ok es) :
    ∀ e ∈ es, e.Fits P := by
  fun_induction MultiIndex.terms os sizes generalizing es with
  | case1 o os n =>
    obtain ⟨x, hx, e, he, h⟩ := bind₂_eq_ok.1 h
    cases h
    have hx := (hos o (by simp)).toExpr hx
    have he : ArithOp.mul.onExprs (.int (.int 1)) x = .ok e := he
    exact forall_mem_singleton.2
      (fits_gives (Expr.fits_of_uses_eq_nil rfl) hx (gives_onExprs .mul ..) he)
  | case2 o os n sizes hsizes ih =>
    obtain ⟨a, ha, e, he, es, hes, h⟩ := bind₃_eq_ok.1 h
    cases h
    rw [forall_mem_cons] at hos
    exact forall_mem_cons.2
      ⟨(fits_apply (Operand.fits_number _) hos.1 ha).toExpr he, ih hos.2 hes⟩
  | case3 =>
    cases h
    exact forall_mem_nil _

lemma fits_of (hos : ∀ o ∈ os, o.Fits P) (h : MultiIndex.of os sizes tag = .ok m) : m.Fits P := by
  obtain ⟨es, hes, _, -, h⟩ := bind₂_eq_ok.1 h
  have hsymbols := fits_toExprs hos hes
  split at h
  · cases h
    exact ⟨hsymbols, Expr.fits_of_uses_eq_nil rfl⟩
  · obtain ⟨ts, hts, flat, hflat, h⟩ := bind₂_eq_ok.1 h
    cases h
    exact ⟨hsymbols, fits_ofNary (fits_terms hos hts) hflat⟩

lemma fits_ofExprs (hes : ∀ e ∈ es, e.Fits P)
    (h : MultiIndex.ofExprs es sizes tag = .ok m) : m.Fits P :=
  fits_of (forall_mem_map.2 hes) h

lemma MultiIndex.Fits.localIndex {i : Int} {e : Expr} (hm : m.Fits P) (h : m.localIndex i = .ok e) :
    e.Fits P := by
  obtain ⟨_, -, h⟩ := bind_eq_ok.1 h
  dsimp only at h
  generalize (if i < 0 then i + (m.symbols.length : Int) else i) = place at h
  split at h
  · exact absurd h (by simp [misfit, bind, Except.bind])
  · exact hm.symbols _ (mem_of_getElem? (orMisfit_eq_ok.1 h))

/-! ## Statements -/

lemma Stmt.forall_usesAll : (∀ u ∈ Stmt.usesAll ss, P u.1 u.2) ↔ ∀ s ∈ ss, s.Fits P := by
  simp only [Stmt.mem_usesAll]
  exact ⟨fun h s hs u hu => h u ⟨s, hs, hu⟩, fun h u ⟨s, hs, hu⟩ => h s hs u hu⟩

namespace Stmt

variable {body : List Stmt}

lemma fits_of_uses_eq_nil (h : s.uses = []) : s.Fits P := by simp [Fits, h]

lemma fits_list : (Stmt.list body).Fits P ↔ ∀ s ∈ body, s.Fits P := forall_usesAll

lemma fits_loop {index lower upper : Expr} :
    (Stmt.loop index lower upper body).Fits P ↔
      index.Fits P ∧ lower.Fits P ∧ upper.Fits P ∧ ∀ s ∈ body, s.Fits P := by
  rw [← forall_usesAll]
  simp only [Fits, uses, forall_mem_append, and_assoc]
  rfl

lemma fits_part {tag : Tag} {name : String} {declarations : List Stmt} {input output : List Symbol}
    {annotations : List Annotation} :
    (Stmt.part tag name body declarations input output annotations).Fits P ↔
      (∀ s ∈ declarations, s.Fits P) ∧ ∀ s ∈ body, s.Fits P := by
  rw [← forall_usesAll, ← forall_usesAll]
  simp only [Fits, uses, forall_mem_append]

lemma fits_body {t : Stmt} (hs : s.Fits P) (ht : t ∈ s.body) : t.Fits P := by
  cases s with
  | part => exact (fits_part.1 hs).2 t ht
  | _ => cases ht

lemma fits_declarations {t : Stmt} (hs : s.Fits P) (ht : t ∈ s.declarations) : t.Fits P := by
  cases s with
  | part => exact (fits_part.1 hs).1 t ht
  | _ => cases ht

end Stmt

lemma Operand.Fits.toStmt (ho : o.Fits P) (h : o.toStmt = .ok s) : s.Fits P := by
  rwa [Stmt.Fits, listing_uses.toStmt h]

lemma fits_toStmts (hos : ∀ o ∈ os, o.Fits P)
    (h : Operand.toStmts os = .ok ss) : ∀ s ∈ ss, s.Fits P := by
  rw [← Stmt.forall_usesAll, Stmt.usesAll_eq_flatMap, listing_uses.toStmts h,
    ← Operand.usesAll_eq_flatMap]
  exact Operand.fits_list.2 hos

lemma fits_ofVariable {s : Symbol} {value : Option Operand} {t : Stmt}
    (hvalue : ∀ o, value = some o → o.Fits P)
    (h : Stmt.ofVariable s value tag = .ok t) : t.Fits P := by
  obtain ⟨e, rfl, he⟩ := ofVariable_eq_ok h
  cases e with
  | none => exact Stmt.fits_of_uses_eq_nil rfl
  | some e =>
    obtain ⟨o, ho, he⟩ := he e rfl
    exact (hvalue o ho).toExpr he

lemma uses_ofArray {s : Symbol} {sizes : Option (List Int)} {values : Initial}
    {const : Bool} {t : Stmt}
    (h : Stmt.ofArray s sizes values const tag = .ok t) : t.uses = [] := by
  obtain ⟨_, _, rfl⟩ := ofArray_eq_ok h
  rfl

lemma fits_ofLoop {index : Expr} {lower upper : Operand} {body : List Operand}
    (hindex : index.Fits P)
    (hlower : lower.Fits P) (hupper : upper.Fits P) (hbody : ∀ o ∈ body, o.Fits P)
    (h : Stmt.ofLoop index lower upper body = .ok s) : s.Fits P := by
  obtain ⟨_, -, l, hl, u, hu, ss, hss, h⟩ := bind₄_eq_ok.1 h
  cases h
  exact Stmt.fits_loop.2 ⟨hindex, hlower.toExpr hl, hupper.toExpr hu, fits_toStmts hbody hss⟩

lemma fits_ofPart {name : String} {body declarations : List Operand} {input output : List Symbol}
    {annotations : List Annotation} (hbody : ∀ o ∈ body, o.Fits P)
    (hdeclarations : ∀ o ∈ declarations, o.Fits P)
    (h : Stmt.ofPart name body declarations input output annotations tag = .ok s) : s.Fits P := by
  obtain ⟨ss, hss, ds, hds, h⟩ := bind₂_eq_ok.1 h
  cases h
  refine Stmt.fits_part.2 ⟨fun d hd => ?_, fun t ht => ?_⟩
  · obtain ⟨o, ho, hd⟩ := exists_of_mapM hds hd
    have ho := hdeclarations o ho
    split at hd
    · split at hd
      · cases hd
        exact ho
      · cases hd
    · cases hd
  · obtain ⟨o, ho, ht⟩ := exists_of_mapM hss ht
    exact (hbody o ho).toStmt ht

lemma fits_wrapLoops {ranges : List (Expr × Int)} {body : Operand}
    (hranges : ∀ r ∈ ranges, r.1.Fits P)
    (hbody : body.Fits P) (h : wrapLoops ranges body = .ok o) : o.Fits P := by
  induction ranges generalizing o with
  | nil =>
    cases h
    exact hbody
  | cons range ranges ih =>
    rw [forall_mem_cons] at hranges
    obtain ⟨inside, hinside, s, hs, h⟩ := bind₂_eq_ok.1 h
    cases h
    exact fits_ofLoop hranges.1 (Operand.fits_number _) (Operand.fits_number _)
      (forall_mem_singleton.2 (ih hranges.2 hinside)) hs

lemma fits_nestedLoops {indices : List MultiIndex} {body : Operand}
    (hindices : ∀ m ∈ indices, m.Fits P)
    (hbody : body.Fits P) (h : nestedLoops indices body = .ok o) : o.Fits P := by
  obtain ⟨ranges, hranges, h⟩ := bind_eq_ok.1 h
  obtain ⟨all, hall, hranges⟩ := bind_eq_ok.1 hranges
  cases hranges
  refine fits_wrapLoops (fun r hr => ?_) hbody h
  obtain ⟨row, hrow, hr⟩ := mem_flatten.1 hr
  obtain ⟨m, hm, hrow⟩ := exists_of_mapM hall hrow
  obtain ⟨⟨n, i⟩, -, hr⟩ := exists_of_mapM hrow hr
  obtain ⟨e, he, hr⟩ := bind_eq_ok.1 hr
  cases hr
  exact (hindices m hm).localIndex he

lemma fits_commented {code : List Operand} {comments : List String}
    (hcode : ∀ o ∈ code, o.Fits P) : ∀ o ∈ Stmt.commented code comments, o.Fits P := by
  rw [Stmt.commented]
  split
  · exact forall_mem_nil _
  · refine forall_mem_append.2 ⟨fun o ho => ?_, hcode⟩
    obtain ⟨c, -, rfl⟩ := mem_map.1 ho
    exact Stmt.fits_of_uses_eq_nil rfl

end FormKernel.Kernel
