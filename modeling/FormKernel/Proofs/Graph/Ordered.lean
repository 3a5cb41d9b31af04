import FormKernel.Proofs.Form.Value
import FormKernel.Proofs.Graph.Scalar

/-!
# The order of subexpressions

The subexpressions of an expression are collected so that operands come before the operators on
them, and the expression itself comes last.
-/

namespace FormKernel

open Form (Expr)
open FormKernel.Graph (Vertex)
open List

namespace Graph

/-- An expression or one equal to it is among expressions. -/
def Seen (es : List Expr) (e : Expr) : Prop := ∃ w ∈ es, w = e ∨ (w == e) = true

variable {e : Expr} {es : List Expr}

lemma Seen.mono {es' : List Expr} (h : Seen es e) (hsub : es <+: es') : Seen es' e := by
  obtain ⟨w, hw, hwe⟩ := h
  exact ⟨w, hsub.subset hw, hwe⟩

/-- Each operand comes before its operator, but what stands under modifiers may be taken as a
    whole. -/
def OrderedUpTo (whole : Bool) (es : List Expr) : Prop :=
  ∀ before e after, es = before ++ e :: after → e.isMark = false ∧
    ((whole && e.isModified) = false → ∀ o ∈ e.operands, o.isMark = false → Seen before o)

lemma OrderedUpTo.concat {whole : Bool} (h : OrderedUpTo whole es) (hmark : e.isMark = false)
    (he : (whole && e.isModified) = false →
      ∀ o ∈ e.operands, o.isMark = false → Seen es o) : OrderedUpTo whole (es ++ [e]) := by
  intro before x after heq
  rcases append_eq_append_iff.1 heq with ⟨mid, hbefore, hmid⟩ | ⟨mid, hes, hmid⟩
  · -- the new expression, or what comes before it
    cases mid with
    | nil =>
      rw [append_nil] at hbefore
      cases hmid
      exact ⟨hmark, hbefore ▸ he⟩
    | cons y mid => simp at hmid
  · cases mid with
    | nil =>
      rw [append_nil] at hes
      cases hmid
      exact ⟨hmark, hes ▸ he⟩
    | cons y mid =>
      obtain ⟨rfl, rfl⟩ := cons.inj hmid
      exact h before x mid hes

mutual

theorem orderedUpTo_collect (whole : Bool) : ∀ (e : Expr) {seen : List Expr},
    OrderedUpTo whole seen → seen <+: collect whole seen e ∧
      OrderedUpTo whole (collect whole seen e) ∧
      (e.isMark = false → Seen (collect whole seen e) e)
  | .terminal t, seen, h => by
    rw [collect]
    split
    · next hseen =>
      refine ⟨prefix_refl _, h, fun hmark => ?_⟩
      rw [hmark, Bool.or_false] at hseen
      obtain ⟨w, hw, hwe⟩ := contains_iff_exists_mem_beq.1 hseen
      exact ⟨w, hw, .inr (BEq.symm hwe)⟩
    · next hnew =>
      rw [Bool.or_eq_true, not_or] at hnew
      exact ⟨prefix_append _ _, h.concat (by simpa using hnew.2) (by simp [Expr.operands]),
        fun _ => ⟨_, by simp, .inl rfl⟩⟩
  | .operator op ops shape fi dims, seen, h => by
    rw [collect]
    split
    · next hseen =>
      refine ⟨prefix_refl _, h, fun _ => ?_⟩
      obtain ⟨w, hw, hwe⟩ := contains_iff_exists_mem_beq.1 hseen
      exact ⟨w, hw, .inr (BEq.symm hwe)⟩
    · split
      · next hwhole =>
        exact ⟨prefix_append _ _, h.concat rfl fun hnot => absurd hwhole (by simp [hnot]),
          fun _ => ⟨_, by simp, .inl rfl⟩⟩
      · obtain ⟨hkept, hordered, hops⟩ := orderedUpTo_collectAll whole ops h
        exact ⟨hkept.trans (prefix_append _ _), hordered.concat rfl fun _ => hops,
          fun _ => ⟨_, by simp, .inl rfl⟩⟩

theorem orderedUpTo_collectAll (whole : Bool) : ∀ (es : List Expr) {seen : List Expr},
    OrderedUpTo whole seen → seen <+: collectAll whole seen es ∧
      OrderedUpTo whole (collectAll whole seen es) ∧
      ∀ e ∈ es, e.isMark = false → Seen (collectAll whole seen es) e
  | [], _, h => ⟨prefix_refl _, h, by simp⟩
  | e :: es, seen, h => by
    rw [collectAll]
    obtain ⟨hkept, hordered, he⟩ := orderedUpTo_collect whole e h
    obtain ⟨hkept', hordered', hes⟩ := orderedUpTo_collectAll whole es hordered
    refine ⟨hkept.trans hkept', hordered', forall_mem_cons.2 ⟨fun hmark => ?_, hes⟩⟩
    exact (he hmark).mono hkept'

end

lemma isMark_congr {a b : Expr} (h : (a == b) = true) : a.isMark = b.isMark := by
  cases a with
  | operator =>
    cases b with
    | operator => rfl
    | terminal => cases h
  | terminal s =>
    obtain ⟨t, rfl, hst⟩ := Expr.terminal_of_beq h
    cases s <;> cases t <;> first | rfl | cases hst

lemma isMark_of_same {a b : Expr} (h : a = b ∨ (a == b) = true) : a.isMark = b.isMark := by
  rcases h with rfl | h
  · rfl
  · exact isMark_congr h

lemma beq_of_same {a b c : Expr} (h : a = b ∨ (a == b) = true) (h' : (b == c) = true) :
    (a == c) = true := by
  rcases h with rfl | h
  · exact h'
  · exact BEq.trans h h'

lemma same_trans {a b c : Expr} (h : a = b ∨ (a == b) = true) (h' : b = c ∨ (b == c) = true) :
    a = c ∨ (a == c) = true := by
  rcases h' with rfl | h'
  · exact h
  · exact .inr (beq_of_same h h')

/-- What an ordered list says about the expression at a place. -/
lemma OrderedUpTo.getElem? {whole : Bool} {es : List Expr} (h : OrderedUpTo whole es) {i : Nat}
    {e : Expr} (he : es[i]? = some e) : e.isMark = false ∧ ((whole && e.isModified) = false →
      ∀ o ∈ e.operands, o.isMark = false → Seen (es.take i) o) := by
  obtain ⟨hlt, rfl⟩ := List.getElem?_eq_some_iff.1 he
  refine h (es.take i) es[i] (es.drop (i + 1)) ?_
  rw [← drop_eq_getElem_cons hlt, take_append_drop]

/-- An operand stands at an earlier place. -/
lemma OrderedUpTo.lt_of_operand {whole : Bool} (h : OrderedUpTo whole es)
    (hapart : Apart es) {i k : Nat}
    {o x : Expr} (he : es[i]? = some e) (hwhole : (whole && e.isModified) = false)
    (ho : o ∈ e.operands) (hx : es[k]? = some x) (hxo : (x == o) = true) : k < i := by
  have hmark : o.isMark = false := by rw [← isMark_congr hxo, (h.getElem? hx).1]
  obtain ⟨w, hw, hwo⟩ := (h.getElem? he).2 hwhole o ho hmark
  obtain ⟨j, hj⟩ := mem_iff_getElem?.1 hw
  obtain ⟨hji, hj⟩ := getElem?_take_eq_some hj
  rwa [← hapart.eq_of_beq hj hx (beq_of_same hwo (BEq.symm hxo))]

mutual

theorem forall_mem_collect {P : Expr → Prop} {whole : Bool}
    (hP : ∀ e, P e → (whole && e.isModified) = false → ∀ o ∈ e.operands, P o) :
    ∀ {e : Expr} {seen : List Expr}, P e → (∀ x ∈ seen, P x) → ∀ x ∈ collect whole seen e, P x
  | .terminal t, seen, he, hseen => by
    rw [collect]
    split
    · exact hseen
    · exact forall_mem_append.2 ⟨hseen, by simpa using he⟩
  | .operator op ops shape fi dims, seen, he, hseen => by
    rw [collect]
    split
    · exact hseen
    · split
      · exact forall_mem_append.2 ⟨hseen, by simpa using he⟩
      · next hapart =>
        exact forall_mem_append.2 ⟨forall_mem_collectAll hP
          (hP _ he (Bool.eq_false_iff.2 hapart)) hseen, by simpa using he⟩

theorem forall_mem_collectAll {P : Expr → Prop} {whole : Bool}
    (hP : ∀ e, P e → (whole && e.isModified) = false → ∀ o ∈ e.operands, P o) :
    ∀ {es : List Expr} {seen : List Expr}, (∀ e ∈ es, P e) → (∀ x ∈ seen, P x) →
    ∀ x ∈ collectAll whole seen es, P x
  | [], _, _, hseen => hseen
  | e :: es, seen, hes, hseen => by
    rw [forall_mem_cons] at hes
    rw [collectAll]
    exact forall_mem_collectAll hP hes.2 (forall_mem_collect hP hes.1 hseen)

end

/-- An expression comes after its subexpressions; a multi-index or a label is not collected. -/
lemma collectAll_singleton (whole : Bool) (e : Expr) : e.isMark = true ∧
    collectAll whole [] [e] = [] ∨
    e.isMark = false ∧ ∃ before, collectAll whole [] [e] = before ++ [e] := by
  rw [collectAll, collectAll, ← finish_of, finish, contains_nil, if_neg Bool.false_ne_true,
    reduceOption_of]
  cases e with
  | terminal t =>
    have hnone : visited whole (.terminal t) = [] := by simp [visited, Expr.operands]
    rw [hnone, collectAll]
    cases hmark : (Expr.terminal t).isMark with
    | true => exact .inl ⟨rfl, by simp [Frame.of, hmark]⟩
    | false => exact .inr ⟨rfl, [], by simp [Frame.of, hmark]⟩
  | operator op ops shape fi dims => exact .inr ⟨rfl, _, rfl⟩

/-! ## Which expressions are numbered -/

/-- An expression is reached from another through operands that are visited. -/
def Visits (whole : Bool) : Expr → Expr → Prop :=
  Relation.ReflTransGen fun e o => o ∈ visited whole e

lemma mem_visited {whole : Bool} {o : Expr} :
    o ∈ visited whole e ↔ (whole && e.isModified) = false ∧ o ∈ e.operands := by
  rw [visited]
  split <;> simp_all

lemma isModified_congr {a b : Expr} (h : (a == b) = true) : a.isModified = b.isModified := by
  refine Expr.equal_induction (P := fun a b => a.isModified = b.isModified) (fun _ _ _ => rfl) ?_ h
  rintro p as _ _ _ bs _ _ _ - hall
  cases hall with
  | nil => rfl
  | cons hfirst _ =>
    rw [Expr.isModified, Expr.isModified, Expr.modified?, Expr.modified?]
    by_cases hp : p.isModifier = true
    · rwa [if_pos hp, if_pos hp]
    · rw [if_neg hp, if_neg hp]

lemma operands_congr {a b : Expr} (h : (a == b) = true) :
    Forall₂ (fun a b => (a == b) = true) a.operands b.operands := by
  refine Expr.equal_induction (P := fun a b => Forall₂ _ a.operands b.operands)
    (fun _ _ _ => .nil) ?_ h
  exact fun p as _ _ _ bs _ _ _ h _ => (Expr.equal_operator.1 h).2

/-- Equal expressions have equal operands that are visited. -/
lemma visited_congr {whole : Bool} {a b : Expr} (h : (a == b) = true) :
    Forall₂ (fun a b => (a == b) = true) (visited whole a) (visited whole b) := by
  rw [visited, visited, isModified_congr h]
  split
  · exact .nil
  · exact operands_congr h

/-- Operands of numbered expressions are numbered. -/
lemma OrderedUpTo.seen_visited {whole : Bool} (h : OrderedUpTo whole es) (he : Seen es e) {o : Expr}
    (ho : o ∈ visited whole e) (hmark : o.isMark = false) : Seen es o := by
  obtain ⟨w, hw, hwe⟩ := he
  obtain ⟨before, after, rfl⟩ := append_of_mem hw
  obtain ⟨o', ho', hoo⟩ : ∃ o' ∈ visited whole w, o' = o ∨ (o' == o) = true := by
    rcases hwe with rfl | hwe
    · exact ⟨o, ho, .inl rfl⟩
    · obtain ⟨o', ho', hoo⟩ := exists_of_forall₂_right (visited_congr hwe) ho
      exact ⟨o', ho', .inr hoo⟩
  obtain ⟨hwhole, ho'⟩ := mem_visited.1 ho'
  have hmark' : o'.isMark = false := isMark_of_same hoo ▸ hmark
  obtain ⟨v, hv, hvo⟩ := (h before w after rfl).2 hwhole o' ho' hmark'
  exact ⟨v, mem_append_left _ hv, same_trans hvo hoo⟩

end Graph

/-! ## Ordered scalar graphs -/

/-- A scalar graph whose edges lead to earlier nodes.  Every expression is equal to itself, so it
    can be found. -/
structure OrderedScalarGraph (S : Graph Nat Vertex) : Prop extends ScalarGraph S where
  earlier : ∀ {i d : Nat} {v : Vertex}, (i, v) ∈ S.nodes → d ∈ S.out i → d < i
  refl : ∀ {i : Nat} {v : Vertex}, (i, v) ∈ S.nodes → (v.expr == v.expr) = true

/-- The operands of an expression that is equal to itself are equal to themselves. -/
lemma beq_self_operand {e o : Expr} (he : (e == e) = true)
    (ho : o ∈ e.operands) : (o == o) = true :=
  forall₂_same.1 (Graph.operands_congr he) o ho

open FormKernel.Graph in
lemma orderedScalarGraph_of_connect {ws : List Expr} {g S : Graph Nat Vertex}
    (hg : Graph.ofExprs true ws = .ok g) (h : Scalar.connect g = .ok S) : OrderedScalarGraph S := by
  have hS := scalarGraph_of_connect hg h
  have hself : ∀ w ∈ ws, (w == w) = true := by
    rw [ofExprs_eq] at hg
    split at hg
    · cases hg
    · next hfound =>
      intro w hw
      rw [any_eq_true, not_exists] at hfound
      have hsome : numberOf (collectAll true [] ws) w ≠ none := by simpa [hw] using hfound w
      obtain ⟨k, hk⟩ := Option.ne_none_iff_exists'.1 hsome
      obtain ⟨x, -, hxw⟩ := getElem?_of_numberOf hk
      exact BEq.trans (BEq.symm hxw) hxw
  have hexpr : ∀ {i v}, (i, v) ∈ S.nodes → (collectAll true [] ws)[i]? = some v.expr := by
    intro i v hmem
    obtain ⟨e, he, rfl⟩ := (mem_nodes_of_connect hg h).1 hmem
    exact he
  have hnil : OrderedUpTo true [] := fun before x after h => by simp at h
  have hordered := (orderedUpTo_collectAll true ws hnil).2.1
  refine ⟨hS, fun {i d v} hmem hd => ?_, fun hmem => ?_⟩
  · cases hleaf : v.expr.isTerminal || v.expr.isModifier with
    | true => simp [hS.leaf hmem hleaf] at hd
    | false =>
      obtain ⟨o, ho, w, hw, hwo⟩ := exists_of_forall₂_right (hS.operands hmem hleaf).flip hd
      have hwhole : (true && v.expr.isModified) = false := by
        cases hv : v.expr with
        | terminal t => simp [hv, Expr.isTerminal] at hleaf
        | operator op ops shape fi dims =>
          rw [hv] at hleaf
          rw [Bool.true_and, Expr.isModified, Expr.modified?_operator hleaf]
      exact hordered.lt_of_operand (apart_collectAll true ws) (hexpr hmem) hwhole ho (hexpr hw) hwo
  · exact forall_mem_collectAll (P := fun e => (e == e) = true)
      (fun _ he _ _ ho => beq_self_operand he ho) hself (by simp) _
      (mem_of_getElem? (hexpr hmem))

lemma orderedScalarGraph_of_scalarGraph {e : Expr} {S : Graph Nat Vertex}
    (h : Scalar.scalarGraph e = .ok S) : OrderedScalarGraph S := by
  obtain ⟨g, -, ws, -, g', hg', h⟩ := bind₃_eq_ok.1 h
  exact orderedScalarGraph_of_connect hg' h

namespace Graph

/-- What gets a number: the subexpressions that are reached, without multi-indices and labels. -/
lemma seen_collectAll {whole : Bool} {es : List Expr} {x : Expr} : Seen (collectAll whole [] es) x ↔
    x.isMark = false ∧ ∃ e ∈ es, ∃ y, Visits whole e y ∧ (y = x ∨ (y == x) = true) := by
  have hnil : OrderedUpTo whole [] := fun before x after h => by simp at h
  obtain ⟨-, hordered, hroots⟩ := orderedUpTo_collectAll whole es hnil
  constructor
  · rintro ⟨w, hw, hwx⟩
    obtain ⟨i, hi⟩ := mem_iff_getElem?.1 hw
    obtain ⟨e, he, hvisits⟩ := forall_mem_collectAll (P := fun w => ∃ e ∈ es, Visits whole e w)
      (fun w hw hwhole o ho => by
        obtain ⟨e, he, hvisits⟩ := hw
        exact ⟨e, he, hvisits.tail (mem_visited.2 ⟨hwhole, ho⟩)⟩)
      (fun e he => ⟨e, he, .refl⟩) (forall_mem_nil _) w hw
    exact ⟨isMark_of_same hwx ▸ (hordered.getElem? hi).1, e, he, w, hvisits, hwx⟩
  · rintro ⟨hmark, e, he, y, hvisits, hyx⟩
    have hseen : y.isMark = false → Seen (collectAll whole [] es) y := by
      clear hyx
      -- along the path: what has an operand is no mark, so it is numbered, and then the operand is
      induction hvisits with
      | refl => exact hroots e he
      | @tail z o _ hlast ih =>
        have hz : z.isMark = false := by
          cases z with
          | terminal t => cases (mem_visited.1 hlast).2
          | operator => rfl
        exact hordered.seen_visited (ih hz) hlast
    obtain ⟨w, hw, hwy⟩ := hseen (isMark_of_same hyx ▸ hmark)
    exact ⟨w, hw, same_trans hwy hyx⟩

lemma isSome_numberOf {x : Expr} : (numberOf es x).isSome = true ↔ ∃ w ∈ es, (w == x) = true := by
  rw [numberOf, findIdx?_isSome, any_eq_true]

lemma Apart.numberOf (h : Apart es) {i : Nat} (he : es[i]? = some e) (hself : (e == e) = true) :
    numberOf es e = some i := by
  obtain ⟨k, hk⟩ := Option.isSome_iff_exists.1 (isSome_numberOf.2 ⟨e, mem_of_getElem? he, hself⟩)
  obtain ⟨w, hw, hwe⟩ := getElem?_of_numberOf hk
  rw [hk, h.eq_of_beq hw he hwe]

/-- The numbers that the loop with a stack gives.  They are those of the recursive traversal.  What
    is reached through operands has a number, up to multi-indices and labels; the numbers are the
    places in a list, each given to one expression, and operands have smaller ones.  So an
    expression alone has the largest number, and the edges of a scalar graph lead to smaller
    numbers. -/
theorem traverse_numbers (whole : Bool) (es : List Expr) :
    traverse whole es = collectAll whole [] es ∧
    (∀ x, (numberOf (traverse whole es) x).isSome = true ↔
      x.isMark = false ∧ ∃ e ∈ es, ∃ y, Visits whole e y ∧ (y == x) = true) ∧
    (∀ i x, (traverse whole es)[i]? = some x → (x == x) = true →
      numberOf (traverse whole es) x = some i) ∧
    (∀ i x y, numberOf (traverse whole es) x = some i → numberOf (traverse whole es) y = some i →
      i < (traverse whole es).length ∧ (x == y) = true) ∧
    (∀ x, ∀ o ∈ visited whole x, ∀ i j, numberOf (traverse whole es) x = some i →
      numberOf (traverse whole es) o = some j → j < i) ∧
    (∀ e, es = [e] → e.isMark = false → (traverse whole es).getLast? = some e) ∧
    ∀ e S, Scalar.scalarGraph e = .ok S → ∀ i v, (i, v) ∈ S.nodes → ∀ d ∈ S.out i, d < i := by
  have hnil : OrderedUpTo whole [] := fun before x after h => by simp at h
  have hordered := (orderedUpTo_collectAll whole es hnil).2.1
  have hapart := apart_collectAll whole es
  rw [traverse_eq_collectAll]
  refine ⟨rfl, fun x => ?_, fun i x hx hself => hapart.numberOf hx hself, fun i x y hx hy => ?_,
    fun x o ho i j hi hj => ?_, fun e he hmark => ?_, fun e S hS i v hmem d hd => ?_⟩
  · rw [isSome_numberOf]
    constructor
    · rintro ⟨w, hw, hwx⟩
      obtain ⟨hmark, e, he, y, hvisits, hyw⟩ := seen_collectAll.1 ⟨w, hw, .inl rfl⟩
      exact ⟨isMark_congr hwx ▸ hmark, e, he, y, hvisits, beq_of_same hyw hwx⟩
    · rintro ⟨hmark, e, he, y, hvisits, hyx⟩
      obtain ⟨w, hw, hwy⟩ :=
        seen_collectAll.2 ⟨isMark_congr hyx ▸ hmark, e, he, y, hvisits, .inl rfl⟩
      exact ⟨w, hw, beq_of_same hwy hyx⟩
  · obtain ⟨w, hw, hwx⟩ := getElem?_of_numberOf hx
    obtain ⟨w', hw', hwy⟩ := getElem?_of_numberOf hy
    obtain rfl := Option.some.inj (hw.symm.trans hw')
    exact ⟨(List.getElem?_eq_some_iff.1 hw).1, BEq.trans (BEq.symm hwx) hwy⟩
  · -- the numbers belong to an expression equal to `x` and to one equal to its operand
    obtain ⟨w, hw, hwx⟩ := getElem?_of_numberOf hi
    obtain ⟨u, hu, huo⟩ := getElem?_of_numberOf hj
    obtain ⟨o', ho', hoo⟩ := exists_of_forall₂_right (visited_congr hwx) ho
    obtain ⟨hwhole, ho'⟩ := mem_visited.1 ho'
    exact hordered.lt_of_operand hapart hw hwhole ho' hu (BEq.trans huo (BEq.symm hoo))
  · subst he
    obtain ⟨hmark', -⟩ | ⟨-, before, hlast⟩ := collectAll_singleton whole e
    · rw [hmark] at hmark'
      cases hmark'
    · rw [hlast, getLast?_concat]
  · exact (orderedScalarGraph_of_scalarGraph hS).earlier hmem hd

end Graph

end FormKernel
