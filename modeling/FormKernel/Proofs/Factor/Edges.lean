import FormKernel.Proofs.Factor.Closed

/-!
# Edges between factors

Each factor that is an operator has edges to the numbers of its operands, in order.  Edges can be
added if every operand is a factor, which is so in a closed list.
-/

namespace FormKernel.Factor

open Form (Expr)
open FormKernel.Graph (numberOf)
open List

/-! ## Edges between factors -/

section Edges

def edgesFrom (exprs : List Expr) (p : Nat × Expr) : Outcome (List (Nat × Nat)) :=
  if p.2.isTerminal || p.2.isModifier then pure []
  else p.2.operands.mapM fun o =>
    match exprs.findIdx? (· == o) with
    | some k => pure (p.1, k)
    | none => misfit .noEntry

lemma connect_eq (vs : List FactorVertex) :
    connect vs = ((range (vs.map (·.expr)).length).zip (vs.map (·.expr))).flatMapM
      (edgesFrom (vs.map (·.expr))) >>= fun edges =>
        edges.foldlM (fun g e => g.addEdge e.1 e.2) (Graph.ofVertices vs) := rfl

def operandNumbers (exprs : List Expr) (e : Expr) : List Nat :=
  if e.isTerminal || e.isModifier then [] else e.operands.filterMap (numberOf exprs)

def Resolved (exprs : List Expr) (e : Expr) : Prop :=
  (e.isTerminal || e.isModifier) = false → ∀ o ∈ e.operands, ∃ k, numberOf exprs o = some k

variable {edges : List (Nat × Nat)} {exprs : List Expr}

lemma edgesFrom_eq_ok {i : Nat} {e : Expr} :
    edgesFrom exprs (i, e) = .ok edges ↔
      Resolved exprs e ∧ edges = (operandNumbers exprs e).map (Prod.mk i) := by
  unfold edgesFrom operandNumbers Resolved
  dsimp only
  cases hleaf : e.isTerminal || e.isModifier with
  | true =>
    rw [if_pos rfl, if_pos rfl, pure_eq_ok]
    simp [eq_comm]
  | false =>
    rw [if_neg Bool.false_ne_true, if_neg Bool.false_ne_true, mapM_eq_ok, forall_prop_of_true rfl]
    generalize e.operands = ops
    induction ops generalizing edges with
    | nil => simp
    | cons o ops ih =>
      rw [forall₂_cons_left_iff, forall_mem_cons]
      cases ho : numberOf exprs o with
      | none =>
        have ho' : exprs.findIdx? (· == o) = none := ho
        simp [ho']
      | some k =>
        have ho' : exprs.findIdx? (· == o) = some k := ho
        simp only [ho', pure_eq_ok, ih, filterMap_cons, ho, map_cons]
        constructor
        · rintro ⟨_, _, rfl, ⟨hops, rfl⟩, rfl⟩
          exact ⟨⟨⟨k, rfl⟩, hops⟩, rfl⟩
        · rintro ⟨⟨-, hops⟩, rfl⟩
          exact ⟨_, _, rfl, ⟨hops, rfl⟩, rfl⟩

/-- All edges, with the numbers of the operands of each factor. -/
def allEdges (exprs : List Expr) : List (Nat × Nat) :=
  ((range exprs.length).zip exprs).flatMap fun p =>
    (operandNumbers exprs p.2).map (Prod.mk p.1)

lemma flatMapM_edgesFrom {ps : List (Nat × Expr)} :
    ps.flatMapM (edgesFrom exprs) = .ok edges ↔ (∀ p ∈ ps, Resolved exprs p.2) ∧
      edges = ps.flatMap fun p => (operandNumbers exprs p.2).map (Prod.mk p.1) := by
  induction ps generalizing edges with
  | nil =>
    rw [flatMapM_nil, pure_eq_ok]
    simp [eq_comm]
  | cons p ps ih =>
    rw [flatMapM_cons, bind_eq_ok, forall_mem_cons, flatMap_cons]
    constructor
    · rintro ⟨first, hfirst, h⟩
      obtain ⟨rest, hrest, h⟩ := bind_eq_ok.1 h
      obtain ⟨hp, rfl⟩ := edgesFrom_eq_ok.1 hfirst
      obtain ⟨hps, rfl⟩ := ih.1 hrest
      exact ⟨⟨hp, hps⟩, (pure_eq_ok.1 h).symm⟩
    · rintro ⟨⟨hp, hps⟩, rfl⟩
      exact ⟨_, edgesFrom_eq_ok.2 ⟨hp, rfl⟩, bind_eq_ok.2 ⟨_, ih.2 ⟨hps, rfl⟩, rfl⟩⟩

lemma edges_eq_ok :
    ((range exprs.length).zip exprs).flatMapM (edgesFrom exprs) = .ok edges ↔
      (∀ e ∈ exprs, Resolved exprs e) ∧ edges = allEdges exprs := by
  rw [flatMapM_edgesFrom, allEdges, and_congr_left_iff]
  rintro -
  constructor
  · intro h e he
    obtain ⟨i, hi⟩ := mem_iff_getElem?.1 he
    exact h (i, e) (Graph.mem_nodes_ofVertices.2 hi)
  · exact fun h p hp => h p.2 (of_mem_zip (a := p.1) (b := p.2) hp).2

section Filter

variable {ps : List (Nat × List Nat)}

lemma filter_fst_edges (hps : (ps.map (·.1)).Nodup) (c : Nat) :
    ((ps.flatMap fun p => p.2.map (Prod.mk p.1)).filter (·.1 == c)).map (·.2) =
      (ps.lookup c).getD [] := by
  induction ps with
  | nil => rfl
  | cons p ps ih =>
    rw [map_cons, nodup_cons] at hps
    rw [flatMap_cons, filter_append, map_append, ih hps.2, filter_map, map_map, lookup_cons]
    by_cases hc : p.1 = c
    · subst hc
      rw [lookup_eq_none_of_notMem hps.1]
      simp [Function.comp_def]
    · simp [hc, beq_false_of_ne (Ne.symm hc), Function.comp_def]

/-- The sources of the edges to one node, once for each edge. -/
lemma filter_snd_edges (c : Nat) :
    ((ps.flatMap fun p => p.2.map (Prod.mk p.1)).filter (·.2 == c)).map (·.1) =
      ps.flatMap fun p => replicate (p.2.count c) p.1 := by
  induction ps with
  | nil => rfl
  | cons p ps ih =>
    rw [flatMap_cons, filter_append, map_append, ih, filter_map, map_map, flatMap_cons]
    congr 1
    exact map_const.trans (by rw [← countP_eq_length_filter]; rfl)

end Filter

section Connect

variable {vs : List FactorVertex} {G : Graph Nat FactorVertex}

lemma allEdges_eq (exprs : List Expr) : allEdges exprs =
    ((range exprs.length).zip (exprs.map (operandNumbers exprs))).flatMap fun p =>
      p.2.map (Prod.mk p.1) := by
  rw [zip_map_right, flatMap_map]
  rfl

lemma connect_eq_ok (h : connect vs = .ok G) :
    (∀ e ∈ vs.map (·.expr), Resolved (vs.map (·.expr)) e) ∧
      (∀ i, G.out i = (((vs.map (·.expr)).map (operandNumbers (vs.map (·.expr))))[i]?).getD []) ∧
      ∀ j, G.into j = (range vs.length).flatMap fun i =>
        replicate ((G.out i).count j) i := by
  rw [connect_eq] at h
  obtain ⟨edges, hedges, hfold⟩ := bind_eq_ok.1 h
  obtain ⟨hresolved, rfl⟩ := edges_eq_ok.1 hedges
  have hlen : vs.length = (vs.map (·.expr)).length := (length_map _).symm
  have hlisted : Graph.Listed (Graph.turned (Graph.ofVertices vs)) := Graph.listed_ofVertices vs
  have hempty : ∀ c, (Graph.ofVertices vs).into c = [] := Graph.out_ofVertices vs
  have hout := (Graph.out_addEdges (Graph.listed_ofVertices vs) hfold).2.2
  have hinto := Graph.into_addEdges hlisted hfold
  rw [hlen]
  generalize vs.map (·.expr) = exprs at *
  have houts : ∀ i, G.out i = ((exprs.map (operandNumbers exprs))[i]?).getD [] := by
    intro i
    have hkeys : (((range exprs.length).zip
        (exprs.map (operandNumbers exprs))).map (·.1)).Nodup := by
      rw [map_fst_zip (by simp)]
      exact nodup_range
    have hlookup := lookup_zip_range (exprs.map (operandNumbers exprs)) i
    rw [length_map] at hlookup
    rw [hout, Graph.out_ofVertices, nil_append, allEdges_eq, filter_fst_edges hkeys, hlookup]
  refine ⟨hresolved, houts, fun j => ?_⟩
  have hzip : (range exprs.length).zip (exprs.map (operandNumbers exprs)) =
      (range exprs.length).map fun i => (i, G.out i) := by
    have hmap : exprs.map (operandNumbers exprs) = (range exprs.length).map G.out := by
      refine ext_getElem (by simp) fun i hi _ => ?_
      simp [houts, (by simpa using hi : i < exprs.length)]
    rw [hmap]
    exact (zip_of_prod (by simp [Function.comp_def]) (by simp [Function.comp_def])).symm
  rw [hinto, hempty, nil_append, allEdges_eq, filter_snd_edges, hzip, flatMap_map]

/-- Edges can be added between closed factors. -/
lemma exists_connect (h : Closed (vs.map (·.expr))) : ∃ G, connect vs = .ok G := by
  have hresolved : ∀ e ∈ vs.map (·.expr), Resolved (vs.map (·.expr)) e := by
    intro e he hop o ho
    obtain ⟨i, hi⟩ := mem_iff_getElem?.1 he
    obtain ⟨x, hx, hxo⟩ := (h.supported hi).operands hop o ho
    refine Option.isSome_iff_exists.1 (findIdx?_isSome.trans ?_)
    exact any_eq_true.2 ⟨x, mem_of_mem_take hx, hxo⟩
  have hhas : ∀ e ∈ allEdges (vs.map (·.expr)), (Graph.ofVertices vs).has e.1 = true ∧
      (Graph.ofVertices vs).has e.2 = true := by
    intro e he
    obtain ⟨p, hp, he⟩ := mem_flatMap.1 he
    obtain ⟨k, hk, rfl⟩ := mem_map.1 he
    obtain ⟨o, hko⟩ : ∃ o, numberOf (vs.map (·.expr)) o = some k := by
      rw [operandNumbers] at hk
      split at hk
      · exact absurd hk not_mem_nil
      · obtain ⟨o, -, hko⟩ := mem_filterMap.1 hk
        exact ⟨o, hko⟩
    have hplt : p.1 < vs.length := by
      simpa using mem_range.1 (of_mem_zip (a := p.1) (b := p.2) hp).1
    have hklt : k < vs.length := by
      simpa using (findIdx?_eq_some_iff_getElem.1 hko).1
    simp [Graph.has, Graph.ofVertices, lookup_zip_range, hplt, hklt]
  obtain ⟨G, hG⟩ := Graph.exists_addEdges hhas
  rw [connect_eq]
  exact ⟨G, bind_eq_ok.2 ⟨_, edges_eq_ok.2 ⟨hresolved, rfl⟩, hG⟩⟩

end Connect

end Edges

end FormKernel.Factor
