import FormKernel.Factor.Graph
import FormKernel.Proofs.Factor.Combine

/-!
# Factors of multilinear expressions

An expression is multilinear when it is linear in each of the arguments that it depends on.  The
factors of each node of a scalar graph then say what the node is worth: nothing if it depends on no
argument, and otherwise the sum of its terms.
-/

namespace FormKernel.Factor

open Form (Builder Expr FieldInterpretation Interpretation Operator Valuation)
open List

/-- An expression is an argument under modifiers. -/
def IsArgument (e : Expr) (n : Int) : Prop :=
  (∃ part space shape, e.modified? = .ok (some (.argument n part space shape))) ∧
    e.argumentNumbers = {n}

/-- What a form may do with its arguments.  The factors of a product depend on arguments with
    different numbers; terms of a sum and branches of a choice depend on the same ones, but a term
    without arguments may stand beside one with arguments if it is zero; divisors and conditions
    depend on none. -/
inductive Multilinear {K : Type} [CommRing K] (I : Interpretation K) (τ : Valuation K) :
    Expr → Prop where
  | free {e : Expr} (h : e.argumentNumbers = ∅) : Multilinear I τ e
  | argument {e : Expr} {n : Int} (h : IsArgument e n) : Multilinear I τ e
  | sum {a b : Expr} {shape : List Nat} {fi : List Int} {dims : List Nat}
      (ha : Multilinear I τ a) (hb : Multilinear I τ b)
      (h : a.argumentNumbers = b.argumentNumbers) :
      Multilinear I τ (.operator .sum [a, b] shape fi dims)
  | sumZero {a b : Expr} {shape : List Nat} {fi : List Int} {dims : List Nat}
      (ha : Multilinear I τ a) (hb : b.argumentNumbers = ∅) (h : b.value I τ = 0) :
      Multilinear I τ (.operator .sum [a, b] shape fi dims)
  | zeroSum {a b : Expr} {shape : List Nat} {fi : List Int} {dims : List Nat}
      (ha : a.argumentNumbers = ∅) (h : a.value I τ = 0) (hb : Multilinear I τ b) :
      Multilinear I τ (.operator .sum [a, b] shape fi dims)
  | product {a b : Expr} {shape : List Nat} {fi : List Int} {dims : List Nat}
      (ha : Multilinear I τ a) (hb : Multilinear I τ b)
      (h : Disjoint a.argumentNumbers b.argumentNumbers) :
      Multilinear I τ (.operator .product [a, b] shape fi dims)
  | division {a b : Expr} {shape : List Nat} {fi : List Int} {dims : List Nat}
      (ha : Multilinear I τ a) (hb : b.argumentNumbers = ∅) :
      Multilinear I τ (.operator .division [a, b] shape fi dims)
  | conj {a : Expr} {shape : List Nat} {fi : List Int} {dims : List Nat}
      (ha : Multilinear I τ a) : Multilinear I τ (.operator .conj [a] shape fi dims)
  | conditional {c a b : Expr} {shape : List Nat} {fi : List Int} {dims : List Nat}
      (hc : c.argumentNumbers = ∅) (ha : Multilinear I τ a) (hb : Multilinear I τ b)
      (h : a.argumentNumbers = b.argumentNumbers ∨ a.argumentNumbers = ∅ ∨ b.argumentNumbers = ∅) :
      Multilinear I τ (.operator .conditional [c, a, b] shape fi dims)

section

variable {K : Type} [Field K] (I : FieldInterpretation K) (τ : Valuation K) (arg : Nat → K)
  (num : Nat → Int) (isArg : Nat → Prop)

/-- What the factors of a node say about its expression. -/
structure Factored (F : List Expr) (e : Expr) (f : Factors) : Prop where
  eq_nil_iff : f = [] ↔ e.argumentNumbers = ∅
  terms : f ≠ [] → ∃ c, Represents I.toInterpretation τ F f c ∧
    Keyed num isArg e.argumentNumbers (c.map (·.1)) ∧ e.value I.toInterpretation τ = total arg c

variable {I τ arg num isArg} {F F' : List Expr} {e : Expr} {f r : Factors}

lemma Factored.mono (hF : F <+: F') (h : Factored I τ arg num isArg F e f) :
    Factored I τ arg num isArg F' e f where
  eq_nil_iff := h.eq_nil_iff
  terms hf := by
    obtain ⟨c, hc, hrest⟩ := h.terms hf
    exact ⟨c, hc.mono hF, hrest⟩

lemma Factored.congr {e' : Expr} (he : (e == e') = true)
    (h : Factored I τ arg num isArg F e f) : Factored I τ arg num isArg F e' f where
  eq_nil_iff := by rw [h.eq_nil_iff, Expr.argumentNumbers_congr he]
  terms hf := by
    obtain ⟨c, hc, hkeyed, hvalue⟩ := h.terms hf
    rw [Expr.argumentNumbers_congr he] at hkeyed
    exact ⟨c, hc, hkeyed, (Expr.value_congr _ _ he).symm.trans hvalue⟩

variable {N : Finset Int} {dims shape : List Nat} {fi : List Int}
  {ps : List (Factors × Option Expr)} {a b : Expr}

/-- The terms of an operand that depends on the given arguments or is zero. -/
lemma Factored.termsOf (h : Factored I τ arg num isArg F e f) (hNne : N ≠ ∅)
    (hN : e.argumentNumbers = N ∨ e.argumentNumbers = ∅ ∧ e.value I.toInterpretation τ = 0) :
    ∃ c, Represents I.toInterpretation τ F f c ∧ Keyed num isArg N (c.map (·.1)) ∧
      e.value I.toInterpretation τ = total arg c := by
  rcases hN with rfl | ⟨hempty, hzero⟩
  · exact h.terms (mt h.eq_nil_iff.1 hNne)
  · rw [h.eq_nil_iff.2 hempty]
    exact ⟨[], .nil, keyed_nil, hzero⟩

lemma HasTerms.factored
    (h : HasTerms I.toInterpretation τ arg num isArg F F' r N (e.value I.toInterpretation τ))
    (hN : e.argumentNumbers = N) (hne : N ≠ ∅) : F <+: F' ∧ Factored I τ arg num isArg F' e r := by
  obtain ⟨a, hF, hr, hrne, hkeyed, htotal⟩ := h
  exact ⟨hF, iff_of_false hrne (hN ▸ hne), fun _ => ⟨a, hr, hN ▸ hkeyed, htotal.symm⟩⟩

variable (I τ arg num isArg) in
/-- What is known about an operand: its factors and, if it depends on no argument, an equal
    expression. -/
def OperandIs (F : List Expr) (p : Factors × Option Expr) (o : Expr) : Prop :=
  Factored I τ arg num isArg F o p.1 ∧ (p.1 = [] → ∃ x, p.2 = some x ∧ (x == o) = true)

lemma argumentNumbers_pair (op : Operator) (a b : Expr) (shape : List Nat) (fi : List Int)
    (dims : List Nat) : (Expr.operator op [a, b] shape fi dims).argumentNumbers =
      a.argumentNumbers ∪ b.argumentNumbers := by
  simp [Expr.argumentNumbers_operator]

/-- The arguments of an operator whose operands are not all free of arguments. -/
lemma argumentNumbers_ne_empty {op : Operator} {ops : List Expr}
    (hops : Forall₂ (OperandIs I τ arg num isArg F) ps ops) (hne : ∃ p ∈ ps, p.1 ≠ []) :
    (Expr.operator op ops shape fi dims).argumentNumbers ≠ ∅ := by
  obtain ⟨p, hp, hpne⟩ := hne
  obtain ⟨o, ho, hpo⟩ := exists_of_forall₂_right hops.flip hp
  exact fun h => hpne (hpo.1.eq_nil_iff.2 (Expr.argumentNumbers_eq_empty.1 h o ho))

/-- The factors of a sum whose terms depend on the same arguments or vanish. -/
lemma combine_sum [Builder] (hB : Valued I.toInterpretation τ)
    (hops : Forall₂ (OperandIs I τ arg num isArg F) ps [a, b]) (hne : ∃ p ∈ ps, p.1 ≠ [])
    (hN : (Expr.operator .sum [a, b] shape fi dims).argumentNumbers = N)
    (ha : a.argumentNumbers = N ∨ a.argumentNumbers = ∅ ∧ a.value I.toInterpretation τ = 0)
    (hb : b.argumentNumbers = N ∨ b.argumentNumbers = ∅ ∧ b.value I.toInterpretation τ = 0)
    (h : Yields (sum (ps.map (·.1))) F r F') :
    F <+: F' ∧ Factored I τ arg num isArg F' (.operator .sum [a, b] shape fi dims) r := by
  have hNne : N ≠ ∅ := hN ▸ argumentNumbers_ne_empty hops hne
  obtain ⟨p, q, hp, hq, rfl⟩ := forall₂_two hops.flip
  obtain ⟨c, hc, hckeyed, hcvalue⟩ := hp.1.termsOf hNne ha
  obtain ⟨d, hd, hdkeyed, hdvalue⟩ := hq.1.termsOf hNne hb
  have hterms : HasTerms _ τ arg num isArg _ _ r _ _ := sum_factors hB hc hd hckeyed hdkeyed h
  rw [← hcvalue, ← hdvalue] at hterms
  exact hterms.factored hN hNne

/-- The factors of a product of expressions with different arguments. -/
lemma combine_product [Builder] (hB : Valued I.toInterpretation τ)
    (hops : Forall₂ (OperandIs I τ arg num isArg F) ps [a, b]) (hne : ∃ p ∈ ps, p.1 ≠ [])
    (hab : Disjoint a.argumentNumbers b.argumentNumbers)
    (h : Yields (product (ps.map (·.1)) (ps.map (·.2))) F r F') :
    F <+: F' ∧ Factored I τ arg num isArg F' (.operator .product [a, b] shape fi dims) r := by
  have hNne : (Expr.operator .product [a, b] shape fi dims).argumentNumbers ≠ ∅ :=
    argumentNumbers_ne_empty hops hne
  have hN := argumentNumbers_pair .product a b shape fi dims
  obtain ⟨⟨f, x⟩, ⟨g, y⟩, hp, hq, rfl⟩ := forall₂_two hops.flip
  by_cases hf : f = [] <;> by_cases hg : g = []
  · simp [hf, hg] at hne
  · obtain ⟨x, rfl, hxa⟩ := hp.2 hf
    have hafree : a.argumentNumbers = ∅ := hp.1.eq_nil_iff.1 hf
    obtain ⟨d, hd, hkeyed, hvalue⟩ := hq.1.terms hg
    subst hf
    have hterms : HasTerms _ τ arg num isArg _ _ r _ _ := product_factors_left hB rfl
      ((Expr.argumentNumbers_congr hxa).trans hafree) hd hkeyed hg h
    rw [Expr.value_congr _ _ hxa, ← hvalue] at hterms
    exact hterms.factored (by rw [hN, hafree, Finset.empty_union])
      (mt hq.1.eq_nil_iff.2 hg)
  · obtain ⟨y, rfl, hyb⟩ := hq.2 hg
    have hbfree : b.argumentNumbers = ∅ := hq.1.eq_nil_iff.1 hg
    obtain ⟨c, hc, hkeyed, hvalue⟩ := hp.1.terms hf
    subst hg
    have hterms : HasTerms _ τ arg num isArg _ _ r _ _ := product_factors_right hB rfl
      ((Expr.argumentNumbers_congr hyb).trans hbfree) hc hkeyed hf h
    rw [Expr.value_congr _ _ hyb, ← hvalue] at hterms
    exact hterms.factored (by rw [hN, hbfree, Finset.union_empty])
      (mt hp.1.eq_nil_iff.2 hf)
  · obtain ⟨c, hc, hckeyed, hcvalue⟩ := hp.1.terms hf
    obtain ⟨d, hd, hdkeyed, hdvalue⟩ := hq.1.terms hg
    have hterms : HasTerms _ τ arg num isArg _ _ r _ _ :=
      product_factors hB hc hd hckeyed hdkeyed hab hf hg h
    rw [← hcvalue, ← hdvalue] at hterms
    exact hterms.factored hN (hN ▸ hNne)

lemma combine_division [Builder] (hB : Valued I.toInterpretation τ)
    (hops : Forall₂ (OperandIs I τ arg num isArg F) ps [a, b]) (hne : ∃ p ∈ ps, p.1 ≠ [])
    (hb : b.argumentNumbers = ∅) (h : Yields (division (ps.map (·.1)) (ps.map (·.2))) F r F') :
    F <+: F' ∧ Factored I τ arg num isArg F' (.operator .division [a, b] shape fi dims) r := by
  have hNne : (Expr.operator .division [a, b] shape fi dims).argumentNumbers ≠ ∅ :=
    argumentNumbers_ne_empty hops hne
  have hN : (Expr.operator .division [a, b] shape fi dims).argumentNumbers =
      a.argumentNumbers := by
    simp [Expr.argumentNumbers_operator, hb]
  obtain ⟨⟨f, x⟩, ⟨g, y⟩, hp, hq, rfl⟩ := forall₂_two hops.flip
  obtain ⟨y, rfl, hyb⟩ := hq.2 (hq.1.eq_nil_iff.2 hb)
  obtain ⟨c, hc, hkeyed, hvalue⟩ := hp.1.termsOf (hN ▸ hNne) (.inl rfl)
  have hterms : HasTerms _ τ arg num isArg _ _ r _ _ :=
    division_factors hB rfl ((Expr.argumentNumbers_congr hyb).trans hb) hc hkeyed h
  rw [Expr.value_congr _ _ hyb, ← hvalue, ← I.divide_eq] at hterms
  exact hterms.factored hN (hN ▸ hNne)

lemma combine_conj [Builder] (hB : Valued I.toInterpretation τ)
    (hfix : ∀ s, isArg s → I.conj (arg s) = arg s)
    (hops : Forall₂ (OperandIs I τ arg num isArg F) ps [a]) (hne : ∃ p ∈ ps, p.1 ≠ [])
    (h : Yields (conj (ps.map (·.1))) F r F') :
    F <+: F' ∧ Factored I τ arg num isArg F' (.operator .conj [a] shape fi dims) r := by
  have hNne : (Expr.operator .conj [a] shape fi dims).argumentNumbers ≠ ∅ :=
    argumentNumbers_ne_empty hops hne
  have hN : (Expr.operator .conj [a] shape fi dims).argumentNumbers = a.argumentNumbers := by
    simp [Expr.argumentNumbers_operator]
  obtain ⟨⟨f, x⟩, hp, rfl⟩ := forall₂_one hops.flip
  obtain ⟨c, hc, hkeyed, hvalue⟩ := hp.1.termsOf (hN ▸ hNne) (.inl rfl)
  have hterms := conj_factors hB hfix hc hkeyed h
  rw [← hvalue, ← I.call_conj] at hterms
  exact hterms.factored hN (hN ▸ hNne)

/-- The terms of a branch of a choice, which is zero if it depends on no argument. -/
lemma OperandIs.branch {p : Factors × Option Expr} {o : Expr}
    (h : OperandIs I τ arg num isArg F p o) (hN : o.argumentNumbers = N ∨ o.argumentNumbers = ∅) :
    ∃ c, Represents I.toInterpretation τ F p.1 c ∧ Keyed num isArg N (c.map (·.1)) ∧
      ((p.1 = [] → p.2 = some (.terminal .zero)) → o.value I.toInterpretation τ = total arg c) := by
  by_cases hp : p.1 = []
  · refine ⟨[], hp ▸ .nil, keyed_nil, fun hzero => ?_⟩
    obtain ⟨x, hx, hxo⟩ := h.2 hp
    obtain rfl := Option.some.inj (hx.symm.trans (hzero hp))
    rw [← Expr.value_congr _ _ hxo, Expr.value_zero, total_nil]
  · obtain ⟨c, hc, hkeyed, hvalue⟩ := h.1.terms hp
    obtain rfl : o.argumentNumbers = N := hN.resolve_right (mt h.1.eq_nil_iff.2 hp)
    exact ⟨c, hc, hkeyed, fun _ => hvalue⟩

lemma combine_conditional [Builder] (hB : Valued I.toInterpretation τ) {c : Expr}
    (hops : Forall₂ (OperandIs I τ arg num isArg F) ps [c, a, b])
    (hne : ∃ p ∈ ps, p.1 ≠ []) (hc : c.argumentNumbers = ∅)
    (hab : a.argumentNumbers = b.argumentNumbers ∨ a.argumentNumbers = ∅ ∨ b.argumentNumbers = ∅)
    (h : Yields (conditional (ps.map (·.1)) (ps.map (·.2))) F r F') :
    F <+: F' ∧ Factored I τ arg num isArg F' (.operator .conditional [c, a, b] shape fi dims) r :=
  by
  have hNne : (Expr.operator .conditional [c, a, b] shape fi dims).argumentNumbers ≠ ∅ :=
    argumentNumbers_ne_empty hops hne
  have hN : (Expr.operator .conditional [c, a, b] shape fi dims).argumentNumbers =
      a.argumentNumbers ∪ b.argumentNumbers := by
    simp [Expr.argumentNumbers_operator, hc]
  have haN : a.argumentNumbers = a.argumentNumbers ∪ b.argumentNumbers ∨
      a.argumentNumbers = ∅ := by
    rcases hab with hab | hab | hab <;> simp [hab]
  have hbN : b.argumentNumbers = a.argumentNumbers ∪ b.argumentNumbers ∨
      b.argumentNumbers = ∅ := by
    rcases hab with hab | hab | hab <;> simp [hab]
  obtain ⟨⟨f₀, z⟩, _, ho, hops₁, rfl⟩ := forall₂_cons_right_iff.1 hops
  obtain ⟨⟨f, x⟩, _, hp, hops₂, rfl⟩ := forall₂_cons_right_iff.1 hops₁
  obtain ⟨⟨g, y⟩, _, hq, hops₃, rfl⟩ := forall₂_cons_right_iff.1 hops₂
  obtain rfl := forall₂_nil_right_iff.1 hops₃
  have hf₀ : f₀ = [] := ho.1.eq_nil_iff.2 hc
  obtain ⟨z, rfl, hzc⟩ := ho.2 hf₀
  subst hf₀
  obtain ⟨ct, hct, hctkeyed, hctvalue⟩ := hp.branch haN
  obtain ⟨dt, hdt, hdtkeyed, hdtvalue⟩ := hq.branch hbN
  obtain ⟨hx, hy, hterms⟩ := conditional_factors hB (e := z) rfl
    ((Expr.argumentNumbers_congr hzc).trans hc) hct hdt hctkeyed hdtkeyed h
  rw [← hctvalue fun hf => by simpa using hx hf, ← hdtvalue fun hg => by simpa using hy hg,
    Expr.datum_congr _ _ hzc] at hterms
  refine HasTerms.factored ?_ hN (hN ▸ hNne)
  rwa [Expr.value_conditional]

/-- The factors of an operator say what it is worth if those of its operands do. -/
lemma combine_factored [Builder] (hB : Valued I.toInterpretation τ)
    (hfix : ∀ s, isArg s → I.conj (arg s) = arg s) {op : Operator} {ops : List Expr}
    (hmod : op.isModifier = false)
    (hml : Multilinear I.toInterpretation τ (.operator op ops shape fi dims))
    (hops : Forall₂ (OperandIs I τ arg num isArg F) ps ops) (hne : ∃ p ∈ ps, p.1 ≠ [])
    (h : Yields (combine (.operator op ops shape fi dims) (ps.map (·.1)) (ps.map (·.2)))
      F r F') : F <+: F' ∧ Factored I τ arg num isArg F' (.operator op ops shape fi dims) r := by
  cases hml with
  | free hfree => exact absurd hfree (argumentNumbers_ne_empty hops hne)
  | argument harg =>
    obtain ⟨⟨part, space, sh, hmodified⟩, -⟩ := harg
    rw [Expr.modified?_operator hmod] at hmodified
    cases hmodified
  | sum ha hb hab =>
    exact combine_sum hB hops hne (by simp [Expr.argumentNumbers_operator, hab]) (.inl hab)
      (.inl rfl) h
  | sumZero ha hb hzero =>
    exact combine_sum hB hops hne (by simp [Expr.argumentNumbers_operator, hb]) (.inl rfl)
      (.inr ⟨hb, hzero⟩) h
  | zeroSum ha hzero hb =>
    exact combine_sum hB hops hne (by simp [Expr.argumentNumbers_operator, ha])
      (.inr ⟨ha, hzero⟩) (.inl rfl) h
  | product ha hb hab => exact combine_product hB hops hne hab h
  | division ha hb => exact combine_division hB hops hne hb h
  | conj ha => exact combine_conj hB hfix hops hne h
  | conditional hc ha hb hab => exact combine_conditional hB hops hne hc hab h

end

end FormKernel.Factor
