import FormKernel.Proofs.Factor.Closed

/-!
# The factors of all nodes can be found

In a multilinear scalar graph whose edges lead to earlier nodes every node finds the factors of its
operands.  No step fails if zero comes before each choice that depends on arguments: it stands for
the factors that a branch lacks, and nothing else puts it among the factors.  The factors of a node
are numbers of factors for products of as many arguments as the node depends on; a node that depends
on none is itself a factor.
-/

namespace FormKernel.Factor

open Form (Builder Expr FieldInterpretation Operator Valuation)
open FormKernel.Graph (Vertex)

/-! ## Factors of nodes -/

section Nodes

variable {arguments : List Nat} {F F' : List Expr} {e : Expr} {f : Factors}

/-- What the factors of a node are, apart from values: products of as many arguments as the node
    depends on, and none at all if the node is itself a factor. -/
structure Sound (arguments : List Nat) (F : List Expr) (e : Expr) (f : Factors) : Prop where
  eq_nil_iff : f = [] ↔ e.argumentNumbers = ∅
  valid : Valid arguments e.argumentNumbers.card F f
  present : f = [] → ∃ x ∈ F, (x == e) = true

lemma Sound.mono (h : Sound arguments F e f) (hF : F <+: F') : Sound arguments F' e f where
  eq_nil_iff := h.eq_nil_iff
  valid := h.valid.mono hF
  present hf := by
    obtain ⟨x, hx, hxe⟩ := h.present hf
    exact ⟨x, hF.subset hx, hxe⟩

lemma Sound.congr {e' : Expr} (he : (e == e') = true) (h : Sound arguments F e f) :
    Sound arguments F e' f where
  eq_nil_iff := by rw [h.eq_nil_iff, Expr.argumentNumbers_congr he]
  valid := Expr.argumentNumbers_congr he ▸ h.valid
  present hf := by
    obtain ⟨x, hx, hxe⟩ := h.present hf
    exact ⟨x, hx, BEq.trans hxe he⟩

/-- The factors of an operand that depends on the given arguments or on none. -/
lemma Sound.valid_card (h : Sound arguments F e f) {N : Finset Int}
    (hN : e.argumentNumbers = N ∨ e.argumentNumbers = ∅) : Valid arguments N.card F f := by
  rcases hN with rfl | hempty
  · exact h.valid
  · rw [h.eq_nil_iff.2 hempty]
    exact fun p hp => absurd hp List.not_mem_nil

def OperandSound (arguments : List Nat) (F : List Expr) (p : Factors × Option Expr) (o : Expr) :
    Prop :=
  Sound arguments F o p.1 ∧ (p.1 = [] → ∃ x, p.2 = some x ∧ (x == o) = true)

variable {o : Expr}

/-- An operand that depends on no argument is among the factors. -/
lemma OperandSound.scalar {p : Factors × Option Expr} (h : OperandSound arguments F p o)
    (hp : p.1 = []) : ∃ x, p.2 = some x ∧ ∃ y ∈ F, (y == x) = true := by
  obtain ⟨x, hx, hxo⟩ := h.2 hp
  obtain ⟨y, hy, hyo⟩ := h.1.present hp
  exact ⟨x, hx, y, hy, BEq.trans hyo (BEq.symm hxo)⟩

section Combine

variable {a b : Expr} {ps : List (Factors × Option Expr)}

/-- The factors of a sum whose terms depend on the given arguments or on none. -/
lemma ends_combine_sum [Builder] (hB : Elementary) (hF : Closed F)
    (hops : List.Forall₂ (OperandSound arguments F) ps [a, b])
    (hne : ∃ p ∈ ps, p.1 ≠ []) {N : Finset Int} (ha : a.argumentNumbers = N ∨ a.argumentNumbers = ∅)
    (hb : b.argumentNumbers = N ∨ b.argumentNumbers = ∅) :
    Ends (sum (ps.map (·.1))) F fun r G => Valid arguments N.card G r ∧ r ≠ [] := by
  obtain ⟨p, q, hp, hq, rfl⟩ := forall₂_two hops.flip
  exact ends_sum hB hF (hp.1.valid_card ha) (hq.1.valid_card hb) (by simpa using hne)

/-- The factors of a product of expressions with different arguments. -/
lemma ends_combine_product [Builder] (hB : Elementary) (hF : Closed F)
    (hops : List.Forall₂ (OperandSound arguments F) ps [a, b])
    (hne : ∃ p ∈ ps, p.1 ≠ []) (hab : Disjoint a.argumentNumbers b.argumentNumbers) :
    Ends (product (ps.map (·.1)) (ps.map (·.2))) F fun r G =>
      Valid arguments (a.argumentNumbers ∪ b.argumentNumbers).card G r ∧ r ≠ [] := by
  obtain ⟨⟨f, x⟩, ⟨g, y⟩, hp, hq, rfl⟩ := forall₂_two hops.flip
  by_cases hf : f = [] <;> by_cases hg : g = []
  · simp [hf, hg] at hne
  · obtain ⟨x, rfl, hx⟩ := OperandSound.scalar hp hf
    rw [hp.1.eq_nil_iff.1 hf, Finset.empty_union]
    subst hf
    exact ends_product_left hB hF hq.1.valid hg rfl hx
  · obtain ⟨y, rfl, hy⟩ := OperandSound.scalar hq hg
    rw [hq.1.eq_nil_iff.1 hg, Finset.union_empty]
    subst hg
    exact ends_product_right hB hF hp.1.valid hf rfl hy
  · rw [Finset.card_union_of_disjoint hab]
    exact ends_product hB hF hp.1.valid hq.1.valid hf hg

lemma ends_combine_division [Builder] (hB : Elementary) (hF : Closed F)
    (hops : List.Forall₂ (OperandSound arguments F) ps [a, b])
    (hne : ∃ p ∈ ps, p.1 ≠ []) (hb : b.argumentNumbers = ∅) :
    Ends (division (ps.map (·.1)) (ps.map (·.2))) F fun r G =>
      Valid arguments a.argumentNumbers.card G r ∧ r ≠ [] := by
  obtain ⟨⟨f, x⟩, ⟨g, y⟩, hp, hq, rfl⟩ := forall₂_two hops.flip
  have hg : g = [] := hq.1.eq_nil_iff.2 hb
  obtain ⟨y, rfl, hy⟩ := OperandSound.scalar hq hg
  subst hg
  exact ends_division hB hF hp.1.valid (by simpa using hne) rfl hy

lemma eq_zero_of_beq {x : Expr} (h : (x == .terminal .zero) = true) : x = .terminal .zero := by
  cases x with
  | terminal t => cases t <;> first | rfl | cases h
  | operator => cases h

/-- A branch without arguments is recognised as zero. -/
lemma OperandSound.isZero {p : Factors × Option Expr} (h : OperandSound arguments F p o)
    (ho : o.argumentNumbers = ∅ → o = .terminal .zero) (hp : p.1 = []) :
    Factor.isZero p.2 = true := by
  obtain ⟨x, hx, hxo⟩ := h.2 hp
  rw [ho (h.1.eq_nil_iff.1 hp)] at hxo
  rw [hx, eq_zero_of_beq hxo]
  rfl

/-- The factors of a choice between branches with the same arguments or zero. -/
lemma ends_combine_conditional [Builder] (hB : Builder.Elementary .conditional) (hF : Closed F)
    {c : Expr} (hops : List.Forall₂ (OperandSound arguments F) ps [c, a, b])
    (hne : ∃ p ∈ ps, p.1 ≠ []) (hc : c.argumentNumbers = ∅)
    (hab : a.argumentNumbers = b.argumentNumbers ∨ a.argumentNumbers = ∅ ∨ b.argumentNumbers = ∅)
    (hbranches : ∀ o ∈ [a, b], o.argumentNumbers = ∅ → o = .terminal .zero)
    (hzero : ∃ x ∈ F, (x == .terminal .zero) = true) :
    Ends (conditional (ps.map (·.1)) (ps.map (·.2))) F fun r G =>
      Valid arguments (a.argumentNumbers ∪ b.argumentNumbers).card G r ∧ r ≠ [] := by
  obtain ⟨⟨f₀, z⟩, _, ho, hops₁, rfl⟩ := List.forall₂_cons_right_iff.1 hops
  obtain ⟨⟨f, x⟩, ⟨g, y⟩, hp, hq, rfl⟩ := forall₂_two hops₁.flip
  obtain rfl : f₀ = [] := ho.1.eq_nil_iff.2 hc
  obtain ⟨z, rfl, hz⟩ := OperandSound.scalar ho rfl
  have hbranch : f ≠ [] ∨ g ≠ [] := by simpa using hne
  have hcard : (a.argumentNumbers ∪ b.argumentNumbers).card ≠ 0 := by
    rw [Ne, Finset.card_eq_zero, Finset.union_eq_empty, ← hp.1.eq_nil_iff, ← hq.1.eq_nil_iff]
    exact fun hnil => hbranch.elim (· hnil.1) (· hnil.2)
  exact ends_conditional hB hF
    (hp.1.valid_card (by rcases hab with hab | hab | hab <;> simp [hab]))
    (hq.1.valid_card (by rcases hab with hab | hab | hab <;> simp [hab])) hcard hbranch
    (OperandSound.isZero hp (hbranches a (by simp)))
    (OperandSound.isZero hq (hbranches b (by simp))) hz hzero

variable {K : Type} [Field K] {I : FieldInterpretation K} {τ : Valuation K}

/-- The factors of an operator can be found if those of its operands have been. -/
lemma ends_combine [Builder] (hB : Elementary) {op : Operator} {ops : List Expr} {shape : List Nat}
    {fi : List Int} {dims : List Nat}
    (hmod : op.isModifier = false)
    (hml : Multilinear I.toInterpretation τ (.operator op ops shape fi dims))
    (hchoice : op = .conditional → (Expr.operator op ops shape fi dims).argumentNumbers ≠ ∅ →
      Builder.Elementary .conditional ∧
        (∀ o ∈ ops.tail, o.argumentNumbers = ∅ → o = .terminal .zero) ∧
        ∃ x ∈ F, (x == .terminal .zero) = true) (hF : Closed F)
    (hops : List.Forall₂ (OperandSound arguments F) ps ops) (hne : ∃ p ∈ ps, p.1 ≠ []) :
    Ends (combine (.operator op ops shape fi dims) (ps.map (·.1)) (ps.map (·.2))) F
      fun r G => Sound arguments G (.operator op ops shape fi dims) r := by
  have hnums : (Expr.operator op ops shape fi dims).argumentNumbers ≠ ∅ := by
    obtain ⟨p, hp, hpne⟩ := hne
    obtain ⟨o, ho, hpo⟩ := exists_of_forall₂_right hops.flip hp
    exact fun h => hpne (hpo.1.eq_nil_iff.2 (Expr.argumentNumbers_eq_empty.1 h o ho))
  suffices hvalid : Ends (combine (.operator op ops shape fi dims) (ps.map (·.1)) (ps.map (·.2))) F
      fun r G => Valid arguments (Expr.operator op ops shape fi dims).argumentNumbers.card G r ∧
        r ≠ [] from
    hvalid.imp fun r G _ hr => ⟨iff_of_false hr.2 hnums, hr.1, fun hnil => absurd hnil hr.2⟩
  cases hml with
  | free hfree => exact absurd hfree hnums
  | argument harg =>
    obtain ⟨⟨part, space, sh, hmodified⟩, -⟩ := harg
    rw [Expr.modified?_operator hmod] at hmodified
    cases hmodified
  | sum ha hb hab =>
    exact ends_combine_sum hB hF hops hne (.inl (by simp [Expr.argumentNumbers_operator, hab]))
      (.inl (by simp [Expr.argumentNumbers_operator, hab]))
  | sumZero ha hb hzero =>
    exact ends_combine_sum hB hF hops hne (.inl (by simp [Expr.argumentNumbers_operator, hb]))
      (.inr hb)
  | zeroSum ha hzero hb =>
    exact ends_combine_sum hB hF hops hne (.inr ha)
      (.inl (by simp [Expr.argumentNumbers_operator, ha]))
  | @product a b _ _ _ ha hb hab =>
    rw [argumentNumbers_pair]
    exact ends_combine_product hB hF hops hne hab
  | @division a b _ _ _ ha hb =>
    rw [argumentNumbers_pair, hb, Finset.union_empty]
    exact ends_combine_division hB hF hops hne hb
  | @conj a _ _ _ ha =>
    rw [Expr.argumentNumbers_operator, List.foldr_cons, List.foldr_nil, Finset.union_empty]
    obtain ⟨p, hp, rfl⟩ := forall₂_one hops.flip
    exact ends_conj hB hF hp.1.valid (by simpa using hne)
  | @conditional c a b _ _ _ hc ha hb hab =>
    obtain ⟨hbuild, hbranches, hzero⟩ := hchoice rfl hnums
    have hunion : (Expr.operator .conditional [c, a, b] shape fi dims).argumentNumbers =
        a.argumentNumbers ∪ b.argumentNumbers := by
      simp [Expr.argumentNumbers_operator, hc]
    rw [hunion]
    exact ends_combine_conditional hbuild hF hops hne hc hab hbranches hzero

/-! ### One node and all nodes -/

/-- A choice can be made for factors: a branch without arguments is zero, and zero is a node before
    the choice, to stand for the factors that a branch lacks. -/
structure Choosable (S : Graph Nat Vertex) (i : Nat) (e : Expr) : Prop where
  branches : ∀ o ∈ e.operands.tail, o.argumentNumbers = ∅ → o = .terminal .zero
  zero : ∃ j v, (j, v) ∈ S.nodes ∧ j < i ∧ v.expr = .terminal .zero

variable {S : Graph Nat Vertex} {i one : Nat} {v : Vertex} {done : List Factors}

lemma isLeaf_of_isArgumentExpr (he : isArgumentExpr e = true) :
    (e.isTerminal || e.isModifier) = true := by
  cases e with
  | terminal t => rfl
  | operator op ops shape fi dims =>
    cases hop : op.isModifier with
    | true => simp [Expr.isModifier, hop]
    | false => simp [isArgumentExpr_operator hop] at he

/-- Inserting the expression of a node that depends on no argument. -/
lemma ends_free (hF : Closed F) (he : Supported F e) (hfree : e.argumentNumbers = ∅) :
    Ends (do let _ ← insert e; return ([] : Factors)) F fun f G => Sound arguments G e f := by
  refine (ends_insert hF he).bind fun i G _ hG hi => ends_pure hG ?_
  obtain ⟨x, hx, hxe⟩ := hi
  exact ⟨iff_of_true rfl hfree, by simp [Valid], fun _ => ⟨x, List.mem_of_getElem? hx, hxe⟩⟩

/-- The factors of the nodes that a node has edges to. -/
lemma ends_lookups {deps : List Nat} (hF : Closed F) (h : ∀ d ∈ deps, d < done.length) :
    Ends (deps.mapM fun d => match done[d]? with
      | some f => pure f
      | none => throw (.misfit .noEntry)) F fun fac _ =>
        List.Forall₂ (fun d g => done[d]? = some g) deps fac := by
  refine ends_mapM (P := fun d g _ => done[d]? = some g) (fun _ h => h) hF fun d hd G _ hG => ?_
  rw [List.getElem?_eq_getElem (h d hd)]
  exact ends_pure hG rfl

/-- The factors of a node can be found if those of the nodes before it have been. -/
lemma ends_nodeFactors [Builder] (hB : Elementary) (hS : OrderedScalarGraph S)
    (hargs : argumentNodes S = .ok arguments)
    (hmem : (i, v) ∈ S.nodes) (hml : Multilinear I.toInterpretation τ v.expr)
    (hchoice : v.expr.head = .operator .conditional → v.expr.argumentNumbers ≠ ∅ →
      Builder.Elementary .conditional ∧ Choosable S i v.expr) (hF : Closed F)
    (hone : one < F.length) (hi : i = done.length)
    (hdone : ∀ d w g, (d, w) ∈ S.nodes → done[d]? = some g → Sound arguments F w.expr g) :
    Ends (nodeFactors S arguments one done (i, v)) F fun f G => Sound arguments G v.expr f := by
  unfold nodeFactors
  dsimp only
  by_cases hcontains : arguments.contains i = true
  -- an argument is the product of itself with the factor one
  · have hi' : i ∈ arguments := by simpa using hcontains
    have harg := isArgumentExpr_of_mem hS.toScalarGraph hargs hmem hi'
    have hleaf : (S.out i).isEmpty = true := by
      rw [hS.leaf hmem (isLeaf_of_isArgumentExpr harg)]
      rfl
    have hnums := (hml.isArgument harg).2
    rw [if_pos hcontains]
    refine ends_bind_expect hleaf (ends_pure hF ?_)
    exact ⟨by simp [hnums], by simp [Valid, hnums, hone, hi'], by simp⟩
  rw [if_neg hcontains]
  have harg := isArgumentExpr_of_notMem hargs hmem hcontains
  refine (ends_lookups hF fun d hd => hi ▸ hS.earlier hmem hd).bind fun fac G hFG hG hdeps => ?_
  have hdoneG := fun d w g hw hg => (hdone d w g hw hg).mono hFG
  cases hleaf : v.expr.isTerminal || v.expr.isModifier with
  | true =>
    rw [hS.leaf hmem hleaf] at hdeps
    obtain rfl := List.forall₂_nil_left_iff.1 hdeps
    have hsupported : Supported G v.expr := ⟨hS.refl hmem, fun hop => absurd hleaf (by simp [hop])⟩
    exact ends_free hG hsupported (hml.leaf harg hleaf)
  | false =>
    obtain ⟨ps, rfl, hsnd, hps⟩ := operands_of_edges hS.toScalarGraph (R := Sound arguments G)
      (fun he h => h.congr he) hdoneG hdeps (hS.operands hmem hleaf)
    cases hv : v.expr with
    | terminal t => simp [hv, Expr.isTerminal] at hleaf
    | operator op ops shape fi dims =>
      rw [hv] at hml hleaf hps hchoice
      -- an operator on factors is itself a factor
      by_cases hempty : (ps.map (·.1)).all (·.isEmpty) = true
      · have hall : ∀ o ∈ ops, o.argumentNumbers = ∅ ∧ ∃ x ∈ G, (x == o) = true := by
          intro o ho
          obtain ⟨p, hnil, hpo⟩ := free_of_all_isEmpty hps hempty o ho
          exact ⟨hpo.1.eq_nil_iff.1 hnil, hpo.1.present hnil⟩
        rw [if_pos hempty]
        exact ends_free hG (supported_operator fun o ho => (hall o ho).2)
          (Expr.argumentNumbers_eq_empty.2 fun o ho => (hall o ho).1)
      · rw [if_neg hempty, ← hsnd]
        refine ends_combine hB hleaf hml (fun hop hnums => ?_) hG hps (by simpa using hempty)
        obtain ⟨hbuild, hbranches, j, w, hw, hj, hzero⟩ := hchoice (by rw [hop]; rfl) hnums
        have hdonej := hdoneG j w _ hw (List.getElem?_eq_getElem (hi ▸ hj))
        rw [hzero] at hdonej
        exact ⟨hbuild, hbranches, hdonej.present (hdonej.eq_nil_iff.2 rfl)⟩

/-- The factors of all nodes can be found. -/
lemma exists_factorNodes [Builder] (hB : Elementary) (hS : OrderedScalarGraph S)
    (hargs : argumentNodes S = .ok arguments)
    (hml : ∀ i v, (i, v) ∈ S.nodes → Multilinear I.toInterpretation τ v.expr)
    (hchoice : ∀ i v, (i, v) ∈ S.nodes → v.expr.head = .operator .conditional →
      v.expr.argumentNumbers ≠ ∅ → Builder.Elementary .conditional ∧ Choosable S i v.expr)
    {pre ns : List (Nat × Vertex)} (hpre : S.nodes = pre ++ ns)
    (hlen : done.length = pre.length) (hF : Closed F) (hone : one < F.length)
    (hdone : ∀ d w g, (d, w) ∈ S.nodes → done[d]? = some g → Sound arguments F w.expr g) :
    ∃ nodes F', factorNodes (nodeFactors S arguments one) ns done F = (nodes, .ok F') ∧
      F <+: F' ∧ Closed F' ∧
      ∀ d w g, (d, w) ∈ S.nodes → nodes[d]? = some g → Sound arguments F' w.expr g := by
  induction ns generalizing pre done F with
  | nil => exact ⟨done, F, rfl, List.prefix_refl _, hF, hdone⟩
  | cons n ns ih =>
    obtain ⟨i, v⟩ := n
    have hmem : (i, v) ∈ S.nodes := by simp [hpre]
    have hi : i = done.length := by
      have hnodes : S.nodes[pre.length]? = some (i, v) := by simp [hpre]
      rw [hlen, hS.number_eq hnodes]
    obtain ⟨f, G, hstep, hFG, hG, hf⟩ := ends_nodeFactors hB hS hargs hmem (hml i v hmem)
      (hchoice i v hmem) hF hone hi hdone
    have hdone' := done_concat hS.toScalarGraph (R := Sound arguments G) hmem hi
      (fun d w g hw hg => (hdone d w g hw hg).mono hFG) hf
    have hpre' : S.nodes = (pre ++ [(i, v)]) ++ ns := by simp [hpre]
    obtain ⟨nodes, F', hrun, hGF', hF', hall⟩ :=
      ih hpre' (by simp [hlen]) hG (Nat.lt_of_lt_of_le hone hFG.length_le) hdone'
    refine ⟨nodes, F', ?_, hFG.trans hGF', hF', hall⟩
    rwa [factorNodes, hstep]

end Combine

end Nodes

end FormKernel.Factor
