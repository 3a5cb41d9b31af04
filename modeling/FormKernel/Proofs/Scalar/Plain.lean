import FormKernel.Proofs.Scalar.Stored

/-!
# Plain expressions

In the components of an expression modifiers stand on terminals only, and operators have the
numbers of operands that they were given.  The nodes of a scalar graph are these components and
what they are made of, so each node is a target or an operand of another node.
-/

namespace FormKernel

open Form (Builder Expr Operator)
open FormKernel.Graph (Vertex)
open List

/-- The number of operands of an operator whose rule for factors does not ask for it. -/
def arity? : Operator → Option Nat
  | .conj => some 1
  | .division => some 2
  | .conditional => some 3
  | _ => none

/-- Modifiers stand on terminals only, and operators have the right numbers of operands. -/
inductive Plain : Expr → Prop
  | leaf {e : Expr} : e.isModified = true → Plain e
  | node {op : Operator} {ops : List Expr} {shape : List Nat} {fi : List Int} {dims : List Nat} :
    op.isModifier = false → (∀ n ∈ arity? op, ops.length = n) → (∀ o ∈ ops, Plain o) →
    Plain (.operator op ops shape fi dims)

lemma Plain.operand {e o : Expr} (h : Plain e) (hmodified : e.isModified = false)
    (ho : o ∈ e.operands) : Plain o := by
  cases h with
  | leaf h => exact absurd h (by simp [hmodified])
  | node _ _ hops => exact hops o ho

/-- Operators other than modifiers, applied to plain operands, give plain expressions. -/
def KeepsPlain [Builder] : Prop :=
  ∀ (op : Operator) (ops : List Expr), op.isModifier = false →
    (∀ n ∈ arity? op, ops.length = n) → (∀ o ∈ ops, Plain o) → Plain (Builder.build op ops)

lemma keepsPlain_of_elementary [Builder] (h : ∀ op, Builder.Elementary op) : KeepsPlain := by
  intro op ops hop harity hops
  rcases h op ops with hmem | ⟨t, -, -, heq⟩ | ⟨ops', shape, fi, dims, hperm, heq⟩
  · exact hops _ hmem
  · exact heq ▸ .leaf rfl
  · exact heq ▸ .node hop (fun n hn => hperm.length_eq.trans (harity n hn))
      fun o ho => hops o (hperm.subset ho)

namespace Scalar

lemma mem_of_itemAt {α : Type} {xs : List α} {k : Nat} {x : α} (h : itemAt xs k = .ok x) :
    x ∈ xs :=
  mem_of_getElem? (itemAt_eq_ok.1 h)

/-- Components that are made of two components each. -/
lemma plain_zipWith {f : Expr → Expr → Expr} {as bs : List Expr}
    (hf : ∀ a ∈ as, ∀ b ∈ bs, Plain (f a b)) : ∀ w ∈ zipWith f as bs, Plain w := by
  intro w hw
  obtain ⟨k, hk⟩ := mem_iff_getElem?.1 hw
  obtain ⟨a, b, ha, hb, rfl⟩ := getElem?_zipWith_eq_some.1 hk
  exact hf a (mem_of_getElem? ha) b (mem_of_getElem? hb)

variable [Builder] (hB : KeepsPlain) {wss : List (List Expr)} {ws : List Expr}

include hB

lemma plain_sum {a b : Expr} (ha : Plain a) (hb : Plain b) : Plain (Expr.sum a b) :=
  hB _ _ rfl (by simp [arity?]) (by simp [ha, hb])

lemma plain_product {a b : Expr} (ha : Plain a) (hb : Plain b) : Plain (Expr.product a b) :=
  hB _ _ rfl (by simp [arity?]) (by simp [ha, hb])

lemma plain_sumOf (h : ∀ w ∈ ws, Plain w) : Plain (sumOf ws) := by
  cases ws with
  | nil => exact .leaf rfl
  | cons w ws =>
    rw [forall_mem_cons] at h
    exact foldlRecOn ws Expr.sum h.1 fun a ha b hb => plain_sum hB ha (h.2 b hb)

variable {e : Expr} {op : Operator}

lemma plain_productOf (hops : ∀ op ∈ wss, ∀ w ∈ op, Plain w) (h : product e wss = .ok ws) :
    ∀ w ∈ ws, Plain w := by
  unfold product at h
  split at h
  · next as bs =>
    have has : ∀ a ∈ as, Plain a := hops as (by simp)
    have hbs : ∀ b ∈ bs, Plain b := hops bs (by simp)
    split at h
    · next a =>
      rw [← pure_eq_ok.1 h]
      simpa using fun b hb => plain_product hB (has a (by simp)) (hbs b hb)
    · next b _ =>
      rw [← pure_eq_ok.1 h]
      simpa using fun a ha => plain_product hB (has a ha) (hbs b (by simp))
    · obtain ⟨_, -, _, -, _, -, pairs, -, h⟩ := bind₄_eq_ok.1 h
      intro w hw
      obtain ⟨p, -, hp⟩ := exists_of_mapM h hw
      obtain ⟨a, ha, b, hb, hp⟩ := bind₂_eq_ok.1 hp
      exact pure_eq_ok.1 hp ▸ plain_product hB (has a (mem_of_itemAt ha)) (hbs b (mem_of_itemAt hb))
  · cases h

lemma plain_indexSum (hops : ∀ op ∈ wss, ∀ w ∈ op, Plain w) (h : indexSum e wss = .ok ws) :
    ∀ w ∈ ws, Plain w := by
  obtain ⟨⟨summand, multi⟩, -, indices, -, first, -, h⟩ := bind₃_eq_ok.1 h
  dsimp only at h
  split at h
  case h_2 => cases h
  rw [pure_bind] at h
  obtain ⟨place, -, range, -, terms, hterms, h⟩ := bind₃_eq_ok.1 h
  have hplain := hops terms (mem_of_itemAt hterms)
  intro w hw
  obtain ⟨rows, hrows, rfl⟩ := flatMapM_eq_ok (ite_throw_eq_ok h).2
  obtain ⟨row, hrow, hw⟩ := mem_flatten.1 hw
  obtain ⟨i, -, hi⟩ := exists_of_forall₂_right hrows hrow
  obtain ⟨k, -, hik⟩ := exists_of_mapM hi hw
  obtain ⟨parts, hparts, hik⟩ := bind_eq_ok.1 hik
  refine pure_eq_ok.1 hik ▸ plain_sumOf hB fun p hp => ?_
  obtain ⟨j, -, hj⟩ := exists_of_mapM hparts hp
  exact hplain p (mem_of_itemAt hj)

lemma plain_condition (hops : ∀ op ∈ wss, ∀ w ∈ op, Plain w) (hop : op.isModifier = false)
    (harity : arity? op = none) (h : condition op wss = .ok ws) : ∀ w ∈ ws, Plain w := by
  obtain ⟨vs, hvs, h⟩ := bind_eq_ok.1 h
  rw [← pure_eq_ok.1 h]
  intro w hw
  rw [mem_singleton.1 hw]
  refine hB _ _ hop (by simp [harity]) fun v hv => ?_
  obtain ⟨op, hop, hfirst⟩ := exists_of_mapM hvs hv
  exact hops op hop v (mem_of_itemAt hfirst)

lemma plain_scalarNode (hops : ∀ op ∈ wss, ∀ w ∈ op, Plain w) (hop : op.isModifier = false)
    (harity : arity? op = none) (h : scalarNode op e wss = .ok ws) : ∀ w ∈ ws, Plain w := by
  unfold scalarNode at h
  exact plain_condition hB hops hop harity (ite_throw_eq_ok h).2

lemma plain_unary (hops : ∀ op ∈ wss, ∀ w ∈ op, Plain w) (hop : op.isModifier = false)
    (harity : ∀ n ∈ arity? op, n = 1) (h : unary op wss = .ok ws) : ∀ w ∈ ws, Plain w := by
  unfold unary at h
  obtain ⟨as, has, h⟩ := bind_eq_ok.1 (ite_throw_eq_ok h).2
  rw [← pure_eq_ok.1 h]
  intro w hw
  obtain ⟨a, ha, rfl⟩ := mem_map.1 hw
  refine hB _ _ hop (fun n hn => (harity n hn).symm) ?_
  simpa using hops as (mem_of_itemAt has) a ha

lemma plain_pairs (hops : ∀ op ∈ wss, ∀ w ∈ op, Plain w) (h : sum .sum wss = .ok ws) :
    ∀ w ∈ ws, Plain w := by
  unfold sum at h
  split at h
  · next as bs =>
    split at h
    · cases h
    · cases h
      exact plain_zipWith fun a ha b hb =>
        plain_sum hB (hops as (by simp) a ha) (hops bs (by simp) b hb)
  · cases h

lemma plain_division (hops : ∀ op ∈ wss, ∀ w ∈ op, Plain w)
    (h : division .division wss = .ok ws) : ∀ w ∈ ws, Plain w := by
  unfold division at h
  split at h
  · next as bs =>
    split at h
    · next b =>
      cases h
      intro w hw
      obtain ⟨a, ha, rfl⟩ := mem_map.1 hw
      exact hB _ _ rfl (by simp [arity?]) (by simp [hops as (by simp) a ha, hops [b] (by simp) b])
    · cases h
  · cases h

lemma plain_conditional (hops : ∀ op ∈ wss, ∀ w ∈ op, Plain w)
    (h : conditional .conditional wss = .ok ws) : ∀ w ∈ ws, Plain w := by
  obtain ⟨yes, hyes, first, hfirst, h⟩ := bind₂_eq_ok.1 h
  obtain ⟨no, hno, h⟩ := bind_eq_ok.1 (ite_throw_eq_ok h).2
  obtain ⟨c, hc, h⟩ := bind_eq_ok.1 (ite_throw_eq_ok h).2
  rw [← pure_eq_ok.1 h]
  have hplain := hops first (mem_of_itemAt hfirst) c (mem_of_itemAt hc)
  refine plain_zipWith fun a ha b hb => hB _ _ rfl (by simp [arity?]) ?_
  simp [hplain, hops yes (mem_of_itemAt hyes) a ha, hops no (mem_of_itemAt hno) b hb]

lemma plain_componentwise (hops : ∀ op ∈ wss, ∀ w ∈ op, Plain w)
    (h : componentwise e wss = .ok ws) : ∀ w ∈ ws, Plain w := by
  unfold componentwise at h
  split at h
  · cases h
  · split at h
    all_goals first
      | exact plain_scalarNode hB hops rfl rfl h
      | exact plain_condition hB hops rfl rfl h
      | exact plain_unary hB hops rfl (by simp [arity?]) h
      | exact plain_productOf hB hops h
      | exact plain_division hB hops h
      | exact plain_pairs hB hops h
      | exact plain_indexSum hB hops h
      | exact plain_conditional hB hops h
      | cases h

/-! ## Components of an expression -/

variable {exprs : List Expr} {symbols : List (List Nat)} {found found' : Found}

lemma plain_nodeComponents {own : List Nat} (hfound : ∀ {s w}, Named found s w → Plain w)
    (h : nodeComponents exprs symbols found e own = .ok ws) : ∀ w ∈ ws, Plain w := by
  unfold nodeComponents at h
  dsimp only at h
  split at h
  · next hmodified =>
    split at h
    · -- a component of a terminal is again a terminal under modifiers
      rw [← pure_eq_ok.1 h]
      intro w hw
      obtain ⟨c, -, rfl⟩ := mem_map.1 hw
      exact .leaf hmodified
    · rw [← pure_eq_ok.1 (ite_throw_eq_ok h).2]
      simpa using Plain.leaf hmodified
  · obtain ⟨wss, hwss, vs, hvs, h⟩ := bind₂_eq_ok.1 h
    obtain rfl := pure_eq_ok.1 (ite_throw_eq_ok h).2
    refine plain_componentwise hB (fun us hus w hw => ?_) hvs
    obtain ⟨o, -, ho⟩ := exists_of_mapM hwss hus
    rcases operandComponents_eq_ok ho with ⟨-, -, rfl⟩ | ⟨k, ns, -, -, hnamed⟩
    · exact absurd hw not_mem_nil
    · obtain ⟨s, -, hs⟩ := exists_of_forall₂_right hnamed hw
      exact hfound hs

lemma plain_expandNode {own : List Nat} (hfound : ∀ {s w}, Named found s w → Plain w)
    (h : expandNode exprs symbols found (e, own) = .ok found') {s : Nat} {w : Expr}
    (hw : Named found' s w) : Plain w := by
  unfold expandNode at h
  dsimp only at h
  split at h
  · exact hfound (pure_eq_ok.1 h ▸ hw)
  · obtain ⟨ws, hws, h⟩ := bind_eq_ok.1 h
    obtain ⟨hother, -, hnamed⟩ := store_eq_ok h
    by_cases hs : s ∈ (own.zip ws).map (·.1)
    · obtain ⟨p, hp, rfl⟩ := mem_map.1 hs
      obtain ⟨v, hv, hmem⟩ := hnamed p hp
      exact hw.eq hv ▸ plain_nodeComponents hB hfound hws v (of_mem_zip hmem).2
    · exact hfound ((hother s hs).symm.trans hw)

lemma plain_expand (h : expand exprs = .ok ws) : ∀ w ∈ ws, Plain w := by
  obtain ⟨⟨symbols, count⟩, -, found, hfound, h⟩ := bind₂_eq_ok.1 h
  have hplain : ∀ s w, Named found s w → Plain w := by
    refine foldlM_induction (fun found => ∀ s w, Named found s w → Plain w) ?_ ?_ hfound
    · intro s w hw
      rw [Named, getElem?_replicate] at hw
      split at hw <;> cases hw
    · exact fun _ _ _ _ hs hstep s w => plain_expandNode hB (hs _ _) hstep
  split at h
  · cases h
  · intro w hw
    obtain ⟨s, -, hs⟩ := exists_of_forall₂_right (mapM_named h) hw
    exact hplain s w hs

end Scalar

/-! ## Graphs of plain expressions -/

namespace Graph

mutual

/-- What is collected from an expression is the expression or an operand of something collected. -/
theorem parent_collect (whole : Bool) : ∀ (e : Expr) {seen : List Expr} {x : Expr}, Apart seen →
    x ∈ collect whole seen e → x ∈ seen ∨ x = e ∨ ∃ y ∈ collect whole seen e,
      (whole && y.isModified) = false ∧ x ∈ y.operands
  | .terminal t, seen, x, _, h => by
    rw [collect] at h
    split at h
    · exact .inl h
    · simpa [or_assoc] using Or.inl (mem_append.1 h)
  | .operator op ops shape fi dims, seen, x, hseen, h => by
    rw [collect] at h ⊢
    split at h
    · exact .inl h
    · split at h
      · simpa [or_assoc] using Or.inl (mem_append.1 h)
      · next hapart =>
        rw [if_neg ‹_›, if_neg hapart]
        rcases mem_append.1 h with h | h
        · rcases parent_collectAll whole ops hseen h with h | h | ⟨y, hy, hx⟩
          · exact .inl h
          · exact .inr
              (.inr ⟨_, mem_append_right _ (mem_singleton_self _), Bool.eq_false_iff.2 hapart, h⟩)
          · exact .inr (.inr ⟨y, mem_append_left _ hy, hx⟩)
        · exact .inr (.inl (mem_singleton.1 h))

theorem parent_collectAll (whole : Bool) : ∀ (es : List Expr) {seen : List Expr} {x : Expr},
    Apart seen → x ∈ collectAll whole seen es → x ∈ seen ∨ x ∈ es ∨
      ∃ y ∈ collectAll whole seen es, (whole && y.isModified) = false ∧ x ∈ y.operands
  | [], _, _, _, h => .inl h
  | e :: es, seen, x, hseen, h => by
    rw [collectAll] at h ⊢
    have hfirst := collected_collect whole e hseen
    have hrest := collected_collectAll whole es hfirst.apart
    rcases parent_collectAll whole es hfirst.apart h with h | h | h
    · rcases parent_collect whole e hseen h with h | h | ⟨y, hy, hx⟩
      · exact .inl h
      · exact .inr (.inl (h ▸ mem_cons_self))
      · exact .inr (.inr ⟨y, hrest.kept.subset hy, hx⟩)
    · exact .inr (.inl (mem_cons_of_mem _ h))
    · exact .inr (.inr h)

end

end Graph

/-- A scalar graph of plain expressions, each of which is a target or an operand. -/
structure PlainGraph (S : Graph Nat Vertex) : Prop extends OrderedScalarGraph S where
  plain : ∀ {i : Nat} {v : Vertex}, (i, v) ∈ S.nodes → Plain v.expr
  used : ∀ {i : Nat} {v : Vertex}, (i, v) ∈ S.nodes →
    v.components ≠ [] ∨ ∃ j w, (j, w) ∈ S.nodes ∧ i ∈ S.out j

open FormKernel.Graph in
/-- The graph of plain expressions and their subexpressions. -/
lemma plainGraph_of_connect {ws : List Expr} {g S : Graph Nat Vertex} (hplain : ∀ w ∈ ws, Plain w)
    (hg : Graph.ofExprs true ws = .ok g) (h : Scalar.connect g = .ok S) : PlainGraph S := by
  have hS := orderedScalarGraph_of_connect hg h
  have hmem {i v} := mem_nodes_of_connect hg h (i := i) (v := v)
  have hcollected : ∀ x ∈ collectAll true [] ws, Plain x :=
    forall_mem_collectAll (fun e he hnot o ho => he.operand (by simpa using hnot) ho) hplain
      (by simp)
  refine ⟨hS, fun hi => ?_, fun {i v} hi => ?_⟩
  · obtain ⟨e, he, rfl⟩ := hmem.1 hi
    exact hcollected e (mem_of_getElem? he)
  · obtain ⟨e, he, rfl⟩ := hmem.1 hi
    rcases parent_collectAll true ws .nil (mem_of_getElem? he) with hnil | hw | ⟨y, hy, hnot, ho⟩
    · exact absurd hnil not_mem_nil
    · -- a target is at the place where it was given
      obtain ⟨k, hk⟩ := mem_iff_getElem?.1 hw
      refine .inl (ne_nil_of_mem (a := k) (mem_filter.2 ⟨?_, ?_⟩))
      · exact List.mem_range.2 (List.getElem?_eq_some_iff.1 hk).1
      · rw [hk]
        exact hS.refl hi
    · obtain ⟨j, hj⟩ := mem_iff_getElem?.1 hy
      have hnode := hmem.2 ⟨y, hj, rfl⟩
      have hop : (y.isTerminal || y.isModifier) = false := by
        cases hcollected y hy with
        | leaf hleaf => simp [hleaf] at hnot
        | node hop => exact hop
      obtain ⟨d, hd, w, hw, hwe⟩ := exists_of_forall₂_right (hS.operands hnode hop) ho
      exact .inr ⟨j, _, hnode, hS.distinct hw hi hwe ▸ hd⟩

lemma plainGraph_of_scalarGraph [Builder] (hB : KeepsPlain) {e : Expr} {S : Graph Nat Vertex}
    (h : Scalar.scalarGraph e = .ok S) : PlainGraph S := by
  obtain ⟨g, -, ws, hws, g', hg', h⟩ := bind₃_eq_ok.1 h
  exact plainGraph_of_connect (Scalar.plain_expand hB hws) hg' h

end FormKernel
