import FormKernel.Proofs.Factor.Edges
import FormKernel.Proofs.Factor.Factorize
import FormKernel.Proofs.Factor.Success
import FormKernel.Proofs.Form.Key

/-!
# The order of factors

The factors of a multilinear scalar graph are numbered so that edges lead to earlier factors; one
pass in order meets all operands before the operators on them.  The arguments come first, in the
order of their keys.  Keys are only in part comparable, and without their order there is no graph.
-/

namespace FormKernel.Factor

open Form (Builder Expr FieldInterpretation ModifiedTerminal Valuation rational)
open Form.ModifiedTerminal (Key)
open FormKernel.Graph (Apart Vertex numberOf)
open List

/-! ## The order of arguments -/

section Arguments

variable {S : Graph Nat Vertex} {arguments : List Nat}

def argumentKey (e : Expr) : Outcome Key := do (← ModifiedTerminal.of e).key

lemma keyed_eq_ok {n : Nat × Vertex} {y : Nat × Key} :
    (do return (n.1, ← (← ModifiedTerminal.of n.2.expr).key) : Outcome (Nat × Key)) = .ok y ↔
      y.1 = n.1 ∧ argumentKey n.2.expr = .ok y.2 := by
  constructor
  · intro h
    obtain ⟨m, hm, k, hk, h⟩ := bind₂_eq_ok.1 h
    rw [← pure_eq_ok.1 h]
    exact ⟨rfl, bind_eq_ok.2 ⟨m, hm, hk⟩⟩
  · rintro ⟨hn, h⟩
    obtain ⟨m, hm, hk⟩ := bind_eq_ok.1 h
    exact bind_eq_ok.2 ⟨m, hm, bind_eq_ok.2 ⟨y.2, hk, by rw [← hn]; rfl⟩⟩

lemma mapM_argumentKey (hS : ScalarGraph S) {keyed : List (Nat × Key)}
    (h : ∀ y ∈ keyed, ∃ v, (y.1, v) ∈ S.nodes ∧ argumentKey v.expr = .ok y.2) :
    (argumentExprs S (keyed.map (·.1))).mapM argumentKey = .ok (keyed.map (·.2)) := by
  rw [mapM_eq_ok]
  induction keyed with
  | nil => exact .nil
  | cons y keyed ih =>
    rw [forall_mem_cons] at h
    obtain ⟨v, hv, hkey⟩ := h.1
    have hcons : argumentExprs S ((y :: keyed).map (·.1)) =
        v.expr :: argumentExprs S (keyed.map (·.1)) := by
      simp [argumentExprs, hS.data?_eq_some.2 hv]
    rw [hcons]
    exact .cons hkey (ih h.2)

lemma inOrder_argumentExprs (hS : ScalarGraph S) (hargs : argumentNodes S = .ok arguments) :
    ∃ ks, (argumentExprs S arguments).mapM argumentKey = .ok ks ∧ ks.Pairwise Key.InOrder := by
  unfold argumentNodes at hargs
  obtain ⟨nodes, hnodes, keyed, hkeyed, sorted, hsorted, h⟩ := bind₃_eq_ok.1 hargs
  cases h
  have hsource : ∀ y ∈ sorted, ∃ v, (y.1, v) ∈ S.nodes ∧ argumentKey v.expr = .ok y.2 := by
    intro y hy
    obtain ⟨⟨i, v⟩, hn, hstep⟩ := exists_of_mapM hkeyed
      ((sortWith_perm hsorted).mem_iff.1 hy)
    rw [(filterM_eq_ok hnodes).2] at hn
    obtain ⟨hy, hkey⟩ := keyed_eq_ok (n := (i, v)).1 hstep
    exact ⟨v, hy ▸ mem_of_mem_filter hn, hkey⟩
  have hdecides : Decides (fun a b : Nat × Key => Key.before a.2 b.2)
      fun a b => Key.InOrder a.2 b.2 :=
    ⟨Key.decides_before.trans, Key.decides_before.of_true, Key.decides_before.of_false⟩
  exact ⟨sorted.map (·.2), mapM_argumentKey hS hsource,
    pairwise_map.2 (pairwise_sortWith hdecides hsorted)⟩

/-- All arguments of the graph are there. -/
lemma argumentExprs_perm (hS : ScalarGraph S) (hargs : argumentNodes S = .ok arguments) :
    (argumentExprs S arguments).Perm ((S.nodes.map (·.2.expr)).filter isArgumentExpr) := by
  refine ((argumentNodes_perm hargs).filterMap _).trans (.of_eq ?_)
  have hdata : ∀ ns : List (Nat × Vertex), (∀ n ∈ ns, n ∈ S.nodes) →
      (ns.map (·.1)).filterMap (fun i => (S.data? i).map (·.expr)) = ns.map (·.2.expr) := by
    intro ns hns
    induction ns with
    | nil => rfl
    | cons n ns ih =>
      rw [forall_mem_cons] at hns
      simp [hS.data?_eq_some.2 hns.1, ← ih hns.2]
  rw [hdata _ fun n hn => mem_of_mem_filter hn, filter_map]
  rfl

/-- The arguments can be found, and of two that have the same number both or neither have a part, an
    average and a side. -/
structure Sortable (S : Graph Nat Vertex) : Prop where
  modified : ∀ {i : Nat} {v : Vertex}, (i, v) ∈ S.nodes → ∃ t, v.expr.modified? = .ok t
  comparable : ∀ {i j : Nat} {v w : Vertex}, (i, v) ∈ S.nodes → (j, w) ∈ S.nodes →
    isArgumentExpr v.expr = true → isArgumentExpr w.expr = true →
    ∃ k l, argumentKey v.expr = .ok k ∧ argumentKey w.expr = .ok l ∧
      (k.number = l.number → k.Matches l)

instance (S : Graph Nat Vertex) : Decidable (Sortable S) :=
  decidable_of_iff ((∀ n ∈ S.nodes, (n.2.expr.modified?).toOption.any (fun _ => true) = true) ∧
    ∀ n ∈ S.nodes, ∀ m ∈ S.nodes, isArgumentExpr n.2.expr = true → isArgumentExpr m.2.expr = true →
      (argumentKey n.2.expr).toOption.any (fun k => (argumentKey m.2.expr).toOption.any fun l =>
        decide (k.number = l.number → k.Matches l)) = true) <| by
    simp only [any_toOption, decide_eq_true_eq]
    constructor
    · rintro ⟨hmodified, hcomparable⟩
      refine ⟨fun hv => ?_, fun hv hw hva hwa => ?_⟩
      · obtain ⟨t, ht, -⟩ := hmodified _ hv
        exact ⟨t, ht⟩
      · obtain ⟨k, hk, l, hl, hkl⟩ := hcomparable _ hv _ hw hva hwa
        exact ⟨k, l, hk, hl, hkl⟩
    · refine fun h => ⟨fun n hn => ?_, fun n hn m hm hna hma => ?_⟩
      · obtain ⟨t, ht⟩ := h.modified hn
        exact ⟨t, ht, trivial⟩
      · obtain ⟨k, l, hk, hl, hkl⟩ := h.comparable hn hm hna hma
        exact ⟨k, hk, l, hl, hkl⟩

lemma exists_argumentNodes (h : Sortable S) : ∃ arguments, argumentNodes S = .ok arguments := by
  unfold argumentNodes
  refine bind_exists_ok (exists_filterM fun n hn => ?_) fun nodes hnodes => ?_
  · obtain ⟨t, ht⟩ := h.modified hn
    rw [ht]
    rcases t with _ | t
    · exact ⟨false, rfl⟩
    · cases t <;> exact ⟨_, rfl⟩
  have hargument : ∀ n ∈ nodes, n ∈ S.nodes ∧ isArgumentExpr n.2.expr = true := by
    rw [eq_filter_isArgumentExpr hnodes]
    exact fun n hn => mem_filter.1 hn
  refine bind_exists_ok (exists_mapM fun n hn => ?_) fun keyed hkeyed => ?_
  · obtain ⟨hmem, harg⟩ := hargument n hn
    obtain ⟨k, -, hk, -⟩ := h.comparable hmem hmem harg harg
    exact ⟨(n.1, k), keyed_eq_ok.2 ⟨rfl, hk⟩⟩
  refine bind_exists_ok (exists_sortWith fun y hy z hz => ?_) fun sorted _ => ⟨_, rfl⟩
  obtain ⟨n, hn, hny⟩ := exists_of_mapM hkeyed hy
  obtain ⟨n', hn', hnz⟩ := exists_of_mapM hkeyed hz
  obtain ⟨hmem, harg⟩ := hargument n hn
  obtain ⟨hmem', harg'⟩ := hargument n' hn'
  obtain ⟨k, l, hk, hl, hkl⟩ := h.comparable hmem hmem' harg harg'
  have hky := Except.ok.inj (hk.symm.trans (keyed_eq_ok.1 hny).2)
  have hlz := Except.ok.inj (hl.symm.trans (keyed_eq_ok.1 hnz).2)
  exact Key.exists_before (hky ▸ hlz ▸ hkl)

end Arguments

/-! ## The graph of factors -/

section Graph

variable {arguments : List Nat} {rank : Nat} {F : List Expr} {f : Factors}

/-- The factors of a target can be given places for arguments. -/
lemma exists_targetFactors {v : Vertex} (hf : Sound arguments F v.expr f)
    (out : List (Nat × Factors)) : ∃ out', targetFactors arguments rank F v f out = .ok out' := by
  unfold targetFactors
  by_cases hnil : f = []
  · subst hnil
    rw [if_pos isEmpty_nil]
    by_cases hrank : (rank == 0) = true
    · obtain ⟨x, hx, hxv⟩ := hf.present rfl
      obtain ⟨i, hi⟩ : ∃ i, F.findIdx? (· == v.expr) = some i :=
        Option.isSome_iff_exists.1 (findIdx?_isSome.trans (any_eq_true.2 ⟨x, hx, hxv⟩))
      rw [if_pos hrank, hi]
      exact ⟨_, rfl⟩
    · rw [if_neg hrank]
      exact ⟨_, rfl⟩
  · rw [if_neg (by simpa using hnil)]
    refine bind_exists_ok (exists_mapM fun p hp => ?_) fun placed _ => ⟨_, rfl⟩
    refine bind_exists_ok (exists_mapM fun s hs => ?_) fun ks _ => ⟨_, rfl⟩
    obtain ⟨k, hk⟩ : ∃ k, arguments.findIdx? (· == s) = some k :=
      Option.isSome_iff_exists.1 (findIdx?_isSome.trans
        (any_eq_true.2 ⟨s, (hf.valid p hp).2.2 s hs, beq_self_eq_true s⟩))
    rw [argumentPlace, hk]
    exact ⟨k, rfl⟩

/-! ### The first factors -/

variable {S : Graph Nat Vertex}

/-- Different expressions without edges are closed. -/
lemma closed_of_leaves (hF : Apart F)
    (h : ∀ e ∈ F, (e == e) = true ∧ (e.isTerminal || e.isModifier) = true) : Closed F where
  apart := hF
  supported {i e} he := by
    obtain ⟨hself, hleaf⟩ := h e (mem_of_getElem? he)
    exact ⟨hself, fun hop => absurd hleaf (by simp [hop])⟩

lemma closed_start (hS : OrderedScalarGraph S) (hargs : argumentNodes S = .ok arguments) :
    Closed (argumentExprs S arguments ++ [one]) := by
  refine closed_of_leaves (pairwise_start hS.toScalarGraph hargs) fun e he => ?_
  rcases mem_append.1 he with he | he
  · obtain ⟨i, -, v, hv, rfl, harg⟩ :=
      exists_of_forall₂_right (forall₂_argumentExprs hS.toScalarGraph hargs) he
    exact ⟨hS.refl hv, isLeaf_of_isArgumentExpr harg⟩
  · rw [mem_singleton.1 he]
    exact ⟨by decide +kernel, rfl⟩

/-! ### The whole graph -/

def factorExprs (G : Graph Nat FactorVertex) : List Expr := G.nodes.map (·.2.expr)

/-- A graph of the factors of a scalar graph in which one pass in order meets all operands of a
    factor before the factor itself. -/
structure OrderedFactors (S : Graph Nat Vertex) (G : Graph Nat FactorVertex) : Prop where
  /-- Factors are numbered in order. -/
  numbered : G.nodes.map (·.1) = range G.size
  arguments : ∃ es ks, es <+: factorExprs G ∧
    es.Perm ((S.nodes.map (·.2.expr)).filter isArgumentExpr) ∧
    es.mapM argumentKey = .ok ks ∧ ks.Pairwise Key.InOrder
  numberOf_expr : ∀ {i : Nat} {v : FactorVertex}, (i, v) ∈ G.nodes →
    numberOf (factorExprs G) v.expr = some i
  /-- and what is found under a number is the factor. -/
  expr_of_numberOf : ∀ {i : Nat} {e : Expr}, numberOf (factorExprs G) e = some i →
    ∃ v, (i, v) ∈ G.nodes ∧ (v.expr == e) = true
  /-- Terminals under modifiers have no edges. -/
  leaf : ∀ {i : Nat} {v : FactorVertex}, (i, v) ∈ G.nodes →
    (v.expr.isTerminal || v.expr.isModifier) = true → G.out i = []
  /-- The edges of an operator lead to its operands in order. -/
  operands : ∀ {i : Nat} {v : FactorVertex}, (i, v) ∈ G.nodes →
    (v.expr.isTerminal || v.expr.isModifier) = false →
    v.expr.operands.map (numberOf (factorExprs G)) = (G.out i).map some
  earlier : ∀ {i j : Nat} {v : FactorVertex}, (i, v) ∈ G.nodes → j ∈ G.out i → j < i
  /-- An edge that goes out somewhere comes in elsewhere, as often as it is repeated. -/
  transposed : ∀ j, G.into j = (range G.size).flatMap fun i =>
    replicate ((G.out i).count j) i

/-- A factor is found under its number. -/
lemma Closed.numberOf_eq (hF : Closed F) {i : Nat} {e : Expr} (he : F[i]? = some e) :
    numberOf F e = some i := by
  have hself := (hF.supported he).refl
  obtain ⟨j, hj⟩ : ∃ j, numberOf F e = some j := Option.isSome_iff_exists.1
    (findIdx?_isSome.trans (any_eq_true.2 ⟨e, mem_of_getElem? he, hself⟩))
  obtain ⟨x, hx, hxe⟩ := Graph.getElem?_of_numberOf hj
  rw [hj, hF.apart.eq_of_beq hx he hxe]

lemma Closed.operandNumbers_lt (hF : Closed F) {i j : Nat} {e : Expr} (he : F[i]? = some e)
    (hj : j ∈ operandNumbers F e) : j < i := by
  rw [operandNumbers] at hj
  split at hj
  · exact absurd hj not_mem_nil
  · next hop =>
    obtain ⟨o, ho, hjo⟩ := mem_filterMap.1 hj
    obtain ⟨x, hx, hxo⟩ := (hF.supported he).operands (by simpa using hop) o ho
    obtain ⟨k, hk⟩ := mem_iff_getElem?.1 hx
    obtain ⟨hki, hk⟩ := getElem?_take_eq_some hk
    obtain ⟨y, hy, hyo⟩ := Graph.getElem?_of_numberOf hjo
    rwa [hF.apart.eq_of_beq hy hk (BEq.trans hyo (BEq.symm hxo))]

lemma map_numberOf_operands {exprs : List Expr} {e : Expr}
    (hop : (e.isTerminal || e.isModifier) = false)
    (he : Resolved exprs e) : e.operands.map (numberOf exprs) = (operandNumbers exprs e).map some :=
  by
  have hfound := he hop
  rw [operandNumbers, if_neg (by simp [hop])]
  generalize e.operands = ops at hfound
  induction ops with
  | nil => rfl
  | cons o ops ih =>
    rw [forall_mem_cons] at hfound
    obtain ⟨⟨k, hk⟩, hrest⟩ := hfound
    rw [map_cons, ih hrest, filterMap_cons_some hk, map_cons, hk]

/-- Closed factors that start with the arguments in order make an ordered graph. -/
lemma orderedFactors_of_connect {vs : List FactorVertex} {G : Graph Nat FactorVertex}
    (hS : ScalarGraph S) (hargs : argumentNodes S = .ok arguments) (hF : Closed (vs.map (·.expr)))
    (hstart : argumentExprs S arguments ++ [one] <+: vs.map (·.expr)) (h : connect vs = .ok G) :
    OrderedFactors S G := by
  have hnodes : G.nodes = (Graph.ofVertices vs).nodes := nodes_connect h
  obtain ⟨hresolved, hout, hinto⟩ := connect_eq_ok h
  have hexprs : factorExprs G = vs.map (·.expr) := by
    rw [factorExprs, hnodes]
    exact map_snd_zip_range FactorVertex.expr vs
  have hsize : G.size = vs.length := by
    rw [Graph.size, hnodes]
    simp [Graph.ofVertices]
  have hget : ∀ {i v}, (i, v) ∈ G.nodes → (vs.map (·.expr))[i]? = some v.expr := by
    intro i v hmem
    rw [hnodes, Graph.mem_nodes_ofVertices] at hmem
    rw [getElem?_map, hmem]
    rfl
  have houtOf : ∀ {i v}, (i, v) ∈ G.nodes → G.out i = operandNumbers (vs.map (·.expr)) v.expr := by
    intro i v hmem
    rw [hout, getElem?_map, hget hmem]
    rfl
  obtain ⟨ks, hks, hsorted⟩ := inOrder_argumentExprs hS hargs
  rw [← hexprs] at hstart
  refine ⟨?_, ⟨_, ks, (prefix_append _ _).trans hstart, argumentExprs_perm hS hargs, hks,
    hsorted⟩, ?_, ?_, ?_, ?_, ?_, ?_⟩
  · rw [hsize, hnodes, Graph.ofVertices]
    exact map_fst_zip (by simp)
  · intro i v hmem
    rw [hexprs]
    exact hF.numberOf_eq (hget hmem)
  · intro i e hi
    rw [hexprs] at hi
    obtain ⟨x, hx, hxe⟩ := Graph.getElem?_of_numberOf hi
    rw [getElem?_map, Option.map_eq_some_iff] at hx
    obtain ⟨v, hv, rfl⟩ := hx
    exact ⟨v, hnodes ▸ Graph.mem_nodes_ofVertices.2 hv, hxe⟩
  · intro i v hmem hleaf
    rw [houtOf hmem, operandNumbers, if_pos hleaf]
  · intro i v hmem hop
    rw [houtOf hmem, hexprs]
    exact map_numberOf_operands hop (hresolved _ (mem_of_getElem? (hget hmem)))
  · intro i j v hmem hj
    rw [houtOf hmem] at hj
    exact hF.operandNumbers_lt (hget hmem) hj
  · rwa [hsize]

variable {K : Type} [Field K] {I : FieldInterpretation K} {τ : Valuation K}

/-- A multilinear graph whose arguments can be sorted has an ordered graph of factors, if each
    choice that depends on arguments can be made for factors. -/
lemma exists_orderedFactors_of_choosable [Builder] (hB : Elementary)
    (hS : MultilinearGraph I τ S rank) (hordered : OrderedScalarGraph S)
    (hchoice : ∀ i v, (i, v) ∈ S.nodes → v.expr.head = .operator .conditional →
      v.expr.argumentNumbers ≠ ∅ → Builder.Elementary .conditional ∧ Choosable S i v.expr)
    (hkeys : Sortable S) :
    ∃ G, (factorize S rank).graph = .ok G ∧ OrderedFactors S G := by
  obtain ⟨arguments, hargs⟩ := exists_argumentNodes hkeys
  have hone : ((argumentExprs S arguments ++ [one]).findIdx? (· == one)).getD 0 <
      (argumentExprs S arguments ++ [one]).length := by
    obtain ⟨x, hx, -⟩ := factorIs_one (I := I) (τ := τ) (argumentExprs S arguments)
    exact (List.getElem?_eq_some_iff.1 hx).1
  obtain ⟨nodes, F, hrun, hstart, hF, hsound⟩ := exists_factorNodes hB hordered hargs hS.multilinear
    hchoice (List.nil_append _).symm (rfl : ([] : List Factors).length = 0)
    (closed_start hordered hargs) hone (by simp)
  obtain ⟨out, hout⟩ : ∃ out, ((S.nodes.zip nodes).filter fun n =>
      !n.1.2.components.isEmpty).foldlM
        (fun out n => targetFactors arguments rank F n.1.2 n.2 out) [] = .ok out := by
    refine exists_foldlM fun n hn out => ?_
    obtain ⟨hmem, hf, -⟩ := (mem_targets_iff hordered.toScalarGraph).1 hn
    exact exists_targetFactors (hsound _ _ _ hmem hf) out
  have hexprs : (markTargets (F.map fun e => { expr := e }) out).map (·.expr) = F := by
    rw [map_markTargets _ fun _ _ _ => rfl, List.map_map]
    exact List.map_id F
  have hclosed : Closed ((markTargets (F.map fun e => { expr := e }) out).map (·.expr)) := by
    rwa [hexprs]
  obtain ⟨G, hG⟩ := exists_connect hclosed
  refine ⟨G, graph_factorize hordered.toScalarGraph hargs hrun hout hG, ?_⟩
  exact orderedFactors_of_connect hordered.toScalarGraph hargs hclosed (by rwa [hexprs]) hG

/-- A multilinear graph in which no choice depends on an argument, and whose arguments can be
    sorted, has an ordered graph of factors. -/
theorem exists_orderedFactors [Builder] (hB : Elementary) (hS : MultilinearGraph I τ S rank)
    (hordered : OrderedScalarGraph S)
    (hchoice : ∀ i v, (i, v) ∈ S.nodes → v.expr.head = .operator .conditional →
      v.expr.argumentNumbers = ∅) (hkeys : Sortable S) :
    ∃ G, (factorize S rank).graph = .ok G ∧ OrderedFactors S G :=
  exists_orderedFactors_of_choosable hB hS hordered
    (fun i v hv hop hnums => absurd (hchoice i v hv hop) hnums) hkeys

lemma orderedScalarGraph_of_integrand {e : Expr}
    (h : Graph.ofExprs true [e] >>= Scalar.connect = .ok S) : OrderedScalarGraph S := by
  obtain ⟨g, hg, hS⟩ := bind_eq_ok.1 h
  exact orderedScalarGraph_of_connect hg hS

lemma orderedScalarGraph_linearGraph : OrderedScalarGraph linearGraph :=
  orderedScalarGraph_of_integrand (e := linearIntegrand)
    (by rw [linearGraph, Graph.ofExprs_eq]; rfl)

/-- The graph of factors of `w conj(v) + v / w`, in which `w conj(1)` is simplified to `w`. -/
theorem exists_orderedFactors_linearGraph :
    MultilinearGraph rational linearValues linearGraph 1 ∧ OrderedScalarGraph linearGraph ∧
      Sortable linearGraph ∧
      ∃ G, (@factorize .folding linearGraph 1).graph = .ok G ∧ OrderedFactors linearGraph G := by
  have hchoice : ∀ n ∈ linearGraph.nodes, n.2.expr.head = .operator .conditional →
      n.2.expr.argumentNumbers = ∅ := by decide +kernel
  have hkeys : Sortable linearGraph := by decide +kernel
  exact ⟨multilinearGraph_linearGraph, orderedScalarGraph_linearGraph, hkeys,
    @exists_orderedFactors _ _ _ _ _ _ .folding (fun op _ => Builder.elementary_folding op)
      multilinearGraph_linearGraph orderedScalarGraph_linearGraph
      (fun i v hv => hchoice (i, v) hv) hkeys⟩

/-! ### An argument and its average -/

/-- The integrand `v + avg(v)`. -/
def averagedIntegrand : Expr := .sum testFunction (.node .cellAvg [testFunction])

def averagedGraph : Graph Nat Vertex :=
  ((Graph.ofExprs true [averagedIntegrand] >>= Scalar.connect).toOption).getD {}

lemma orderedScalarGraph_averagedGraph : OrderedScalarGraph averagedGraph :=
  orderedScalarGraph_of_integrand (e := averagedIntegrand)
    (by rw [averagedGraph, Graph.ofExprs_eq]; rfl)

lemma multilinearGraph_averagedGraph :
    MultilinearGraph rational linearValues averagedGraph 1 where
  toScalarGraph := orderedScalarGraph_averagedGraph.toScalarGraph
  multilinear i v hv := by
    have hexprs : averagedGraph.nodes.map (·.2.expr) =
        [testFunction, .node .cellAvg [testFunction], averagedIntegrand] := by
      rw [averagedGraph, Graph.ofExprs_eq]
      rfl
    have hmem : v.expr ∈ averagedGraph.nodes.map (·.2.expr) := mem_map_of_mem hv
    rw [hexprs] at hmem
    have hv : Multilinear rational.toInterpretation linearValues testFunction :=
      .argument ⟨⟨none, default, none, rfl⟩, by decide⟩
    have havg : Multilinear rational.toInterpretation linearValues
        (.node .cellAvg [testFunction]) := .argument ⟨⟨none, default, none, rfl⟩, by decide⟩
    simp only [mem_cons, not_mem_nil, or_false] at hmem
    rcases hmem with h | h | h
    · exact h ▸ hv
    · exact h ▸ havg
    · exact h ▸ .sum hv havg (by decide)
  targets := targets_of_card (by decide +kernel)

/-- An argument and its average cannot be sorted, so `v + avg(v)` has no graph of factors. -/
theorem factorize_averagedGraph :
    MultilinearGraph rational linearValues averagedGraph 1 ∧ OrderedScalarGraph averagedGraph ∧
      (∀ i v, (i, v) ∈ averagedGraph.nodes → v.expr.head ≠ .operator .conditional) ∧
      ¬ ∃ G, (factorize averagedGraph 1).graph = .ok G := by
  have hchoice : ∀ n ∈ averagedGraph.nodes, n.2.expr.head ≠ .operator .conditional := by
    decide +kernel
  have hnone : (factorize averagedGraph 1).graph.toOption.isNone = true := by decide +kernel
  refine ⟨multilinearGraph_averagedGraph, orderedScalarGraph_averagedGraph,
    fun i v hv => hchoice (i, v) hv, ?_⟩
  rintro ⟨G, hG⟩
  rw [hG] at hnone
  cases hnone

end Graph

end FormKernel.Factor
