import FormKernel.Proofs.Graph.PostOrder
import FormKernel.Proofs.List
import FormKernel.Scalar.Expansion

/-!
# Scalar graphs

A scalar graph has a numbered node for each subexpression.  Terminals under modifiers are leaves;
the edges of an operator lead to its operands in order.
-/

namespace FormKernel

open Form (Expr)
open FormKernel.Graph (Vertex)
open List

/-- Edges do not change nodes. -/
lemma Graph.nodes_addEdge {κ α : Type} [BEq κ] {g g' : Graph κ α} {a b : κ}
    (h : g.addEdge a b = .ok g') : g'.nodes = g.nodes := by
  unfold Graph.addEdge at h
  split at h
  · cases h
    rfl
  · cases h

/-- A graph of the different subexpressions of scalar expressions. -/
structure ScalarGraph (S : Graph Nat Vertex) : Prop where
  /-- Nodes are numbered in order. -/
  numbered : S.nodes.map (·.1) = range S.nodes.length
  distinct : ∀ {i j : Nat} {v w : Vertex}, (i, v) ∈ S.nodes → (j, w) ∈ S.nodes →
    (v.expr == w.expr) = true → i = j
  /-- Terminals under modifiers have no edges. -/
  leaf : ∀ {i : Nat} {v : Vertex}, (i, v) ∈ S.nodes →
    (v.expr.isTerminal || v.expr.isModifier) = true → S.out i = []
  operands : ∀ {i : Nat} {v : Vertex}, (i, v) ∈ S.nodes →
    (v.expr.isTerminal || v.expr.isModifier) = false →
    Forall₂ (fun d o => ∃ w, (d, w) ∈ S.nodes ∧ (w.expr == o) = true) (S.out i)
      v.expr.operands
  components : (S.nodes.flatMap (·.2.components)).Nodup

namespace ScalarGraph

variable {S : Graph Nat Vertex}

lemma nodup_keys (h : ScalarGraph S) : (S.nodes.map (·.1)).Nodup := h.numbered ▸ nodup_range

variable {i : Nat} {v : Vertex}

lemma data?_eq_some (h : ScalarGraph S) : S.data? i = some v ↔ (i, v) ∈ S.nodes :=
  ⟨mem_of_lookup_eq_some, lookup_eq_some_of_mem h.nodup_keys⟩

lemma number_eq (h : ScalarGraph S) {k : Nat} (hk : S.nodes[k]? = some (i, v)) : k = i := by
  have hlt : k < S.nodes.length := (List.getElem?_eq_some_iff.1 hk).1
  have hkey : (S.nodes.map (·.1))[k]? = some i := by rw [getElem?_map, hk]; rfl
  rw [h.numbered, getElem?_range hlt] at hkey
  exact Option.some.inj hkey

/-- A node stands at the place of its number. -/
lemma getElem?_nodes (h : ScalarGraph S) (hmem : (i, v) ∈ S.nodes) : S.nodes[i]? = some (i, v) := by
  obtain ⟨k, hk⟩ := mem_iff_getElem?.1 hmem
  exact h.number_eq hk ▸ hk

end ScalarGraph

/-! ## The subexpressions of expressions -/

namespace Graph

variable {es : List Expr} {i : Nat} {g : Graph Nat Vertex} {e : Expr} {n : Nat}
  {seen ws : List Expr} {S : Graph Nat Vertex}

/-! ## Edges -/

section Edges

variable {α : Type} {g g' : Graph Nat α}

def Listed (g : Graph Nat α) : Prop := g.outEdges.map (·.1) = g.nodes.map (·.1)

variable {a b : Nat} {es : List (Nat × Nat)}

lemma addEdge_listed (hg : Listed g) (h : g.addEdge a b = .ok g') : Listed g' := by
  unfold Graph.addEdge at h
  split at h
  · cases h
    rwa [Listed, keys_alter]
  · cases h

lemma out_addEdge (hg : Listed g) (h : g.addEdge a b = .ok g') (c : Nat) :
    g'.out c = if c = a then g.out c ++ [b] else g.out c := by
  unfold Graph.addEdge at h
  split at h
  · next hhas =>
    cases h
    simp only [Graph.out, lookup_alter]
    by_cases hca : c = a
    · subst hca
      rw [Bool.and_eq_true, Graph.has] at hhas
      cases hc : g.outEdges.lookup c with
      | some ks => simp
      | none =>
        obtain ⟨v, hv⟩ := Option.isSome_iff_exists.1 hhas.1
        have hmem : c ∈ g.outEdges.map (·.1) := hg ▸ mem_map_of_mem (mem_of_lookup_eq_some hv)
        obtain ⟨p, hp, rfl⟩ := mem_map.1 hmem
        simp [lookup_eq_none_iff] at hc
        exact absurd rfl (hc p.1 p.2 hp)
    · simp [hca]
  · cases h

lemma out_addEdges (hg : Listed g) (h : es.foldlM (fun g e => g.addEdge e.1 e.2) g = .ok g') :
    Listed g' ∧ g'.nodes = g.nodes ∧ ∀ c, g'.out c = g.out c ++ (es.filter (·.1 == c)).map (·.2) :=
  by
  induction es generalizing g with
  | nil =>
    rw [foldlM_nil, pure_eq_ok] at h
    subst h
    simp [hg]
  | cons e es ih =>
    rw [foldlM_cons] at h
    obtain ⟨mid, hmid, hrest⟩ := bind_eq_ok.1 h
    obtain ⟨hlisted, hnodes, hout⟩ := ih (addEdge_listed hg hmid) hrest
    refine ⟨hlisted, hnodes.trans (nodes_addEdge hmid), fun c => ?_⟩
    rw [hout, out_addEdge hg hmid]
    by_cases hc : c = e.1
    · simp [hc]
    · simp [hc, Ne.symm hc]

lemma addEdges_from {i : Nat} {ks : List Nat} (hg : Listed g)
    (h : ks.foldlM (fun g k => g.addEdge i k) g = .ok g') :
    Listed g' ∧ g'.nodes = g.nodes ∧ ∀ c, g'.out c = if c = i then g.out c ++ ks else g.out c := by
  have hpairs : (ks.map fun k => (i, k)).foldlM (fun g e => g.addEdge e.1 e.2) g = .ok g' := by
    rwa [foldlM_map]
  obtain ⟨hlisted, hnodes, hout⟩ := out_addEdges hg hpairs
  refine ⟨hlisted, hnodes, fun c => ?_⟩
  rw [hout, filter_map, map_map]
  by_cases hc : c = i
  · simp [hc, Function.comp_def]
  · simp [hc, Ne.symm hc, Function.comp_def]

/-- The graph with all edges turned around. -/
def turned (g : Graph Nat α) : Graph Nat α :=
  { g with outEdges := g.inEdges, inEdges := g.outEdges }

lemma addEdge_turned (h : g.addEdge a b = .ok g') : (turned g).addEdge b a = .ok (turned g') := by
  unfold Graph.addEdge at h ⊢
  split at h
  · next hhas =>
    cases h
    have hturned : ((turned g).has b && (turned g).has a) = true := by
      rwa [Bool.and_comm]
    rw [if_pos hturned]
    rfl
  · cases h

/-- The edges that come in, after adding edges in sequence. -/
lemma into_addEdges (hg : Listed (turned g))
    (h : es.foldlM (fun g e => g.addEdge e.1 e.2) g = .ok g')
    (c : Nat) : g'.into c = g.into c ++ (es.filter (·.2 == c)).map (·.1) := by
  have hturned : (es.map Prod.swap).foldlM (fun g e => g.addEdge e.1 e.2) (turned g) =
      .ok (turned g') := foldlM_project (fun _ _ _ => addEdge_turned) h
  have hout := (out_addEdges hg hturned).2.2 c
  rwa [filter_map, map_map] at hout

/-- Edges between known nodes can be added. -/
lemma exists_addEdges (h : ∀ e ∈ es, g.has e.1 = true ∧ g.has e.2 = true) :
    ∃ g', es.foldlM (fun g e => g.addEdge e.1 e.2) g = .ok g' := by
  induction es generalizing g with
  | nil => exact ⟨g, rfl⟩
  | cons e es ih =>
    rw [forall_mem_cons] at h
    obtain ⟨mid, hmid⟩ : ∃ mid, g.addEdge e.1 e.2 = .ok mid := by
      unfold Graph.addEdge
      rw [h.1.1, h.1.2]
      exact ⟨_, rfl⟩
    obtain ⟨g', hg'⟩ := ih (g := mid) fun e' he' => by
      simpa only [Graph.has, nodes_addEdge hmid] using h.2 e' he'
    exact ⟨g', by rw [foldlM_cons, hmid]; exact hg'⟩

lemma addEdges {ps : List (Nat × List Nat)} (hps : (ps.map (·.1)).Nodup) (hg : Listed g)
    (h : ps.foldlM (fun g p => p.2.foldlM (fun g k => g.addEdge p.1 k) g) g = .ok g') :
    g'.nodes = g.nodes ∧ ∀ c, g'.out c = g.out c ++ (ps.lookup c).getD [] := by
  induction ps generalizing g with
  | nil =>
    rw [foldlM_nil, pure_eq_ok] at h
    subst h
    simp
  | cons p ps ih =>
    rw [map_cons, nodup_cons] at hps
    rw [foldlM_cons] at h
    obtain ⟨mid, hmid, hrest⟩ := bind_eq_ok.1 h
    obtain ⟨hlisted, hnodes, hout⟩ := addEdges_from hg hmid
    obtain ⟨hnodes', hout'⟩ := ih hps.2 hlisted hrest
    refine ⟨hnodes'.trans hnodes, fun c => ?_⟩
    rw [hout', hout, lookup_cons]
    by_cases hc : c = p.1
    · subst hc
      rw [lookup_eq_none_of_notMem hps.1]
      simp
    · simp [hc, beq_false_of_ne hc]

end Edges

/-! ## The graph of the subexpressions of scalars -/

/-- Nodes are numbered by their places. -/
lemma mem_nodes_ofVertices {α : Type} {vs : List α} {v : α} :
    (i, v) ∈ (ofVertices vs).nodes ↔ vs[i]? = some v := by
  have hkeys : ((ofVertices vs).nodes.map (·.1)).Nodup := by
    rw [ofVertices, map_fst_zip (by simp)]
    exact nodup_range
  rw [← lookup_zip_range]
  exact ⟨lookup_eq_some_of_mem hkeys, mem_of_lookup_eq_some⟩

lemma listed_ofVertices {α : Type} (vs : List α) : Listed (ofVertices vs) := by
  simp [Listed, ofVertices, map_fst_zip, Function.comp_def]

lemma out_ofVertices {α : Type} (vs : List α) (c : Nat) : (ofVertices vs).out c = [] := by
  unfold Graph.out
  cases h : (ofVertices vs).outEdges.lookup c with
  | none => rfl
  | some ks =>
    obtain ⟨i, -, hi⟩ := mem_map.1 (mem_of_lookup_eq_some h)
    cases hi
    rfl

/-- No place belongs to two different expressions. -/
lemma nodup_placesOf (hes : Apart es) (ws : List Expr) : (es.flatMap (placesOf ws)).Nodup := by
  induction es with
  | nil => exact nodup_nil
  | cons e es ih =>
    rw [Apart, pairwise_cons] at hes
    rw [flatMap_cons, nodup_append]
    refine ⟨nodup_range.filter _, ih hes.2, ?_⟩
    rintro i hi j hj rfl
    obtain ⟨x, hx, hj⟩ := mem_flatMap.1 hj
    simp only [placesOf, mem_filter, Option.any_eq_true] at hi hj
    obtain ⟨-, w, hw, hwe⟩ := hi
    obtain ⟨-, w', hw', hwx⟩ := hj
    obtain rfl : w = w' := Option.some.inj (hw.symm.trans hw')
    have hne := hes.1 x hx
    simp [BEq.trans (BEq.symm hwx) hwe] at hne

lemma ofExprs_eq (whole : Bool) (ws : List Expr) :
    ofExprs whole ws = if ws.any fun e =>
      (numberOf (collectAll whole [] ws) e).isNone then misfit .noEntry
      else .ok (ofVertices ((collectAll whole [] ws).map fun e =>
        { expr := e, components := placesOf ws e })) := by
  rw [ofExprs, traverse_eq_collectAll]
  rfl

lemma ofExprs_eq_ok {whole : Bool} (h : ofExprs whole ws = .ok g) :
    g = ofVertices ((collectAll whole [] ws).map fun e =>
      { expr := e, components := placesOf ws e }) := by
  rw [ofExprs_eq] at h
  split at h
  · cases h
  · exact (Except.ok.inj h).symm

lemma exprs_ofVertices (es : List Expr) (places : Expr → List Nat) :
    (ofVertices (es.map fun e => { expr := e, components := places e })).exprs = es := by
  rw [exprs, ofVertices, map_snd_zip_range Vertex.expr, map_map]
  exact map_id es

lemma getElem?_of_numberOf {o : Expr} {k : Nat} (h : numberOf es o = some k) :
    ∃ w, es[k]? = some w ∧ (w == o) = true := by
  obtain ⟨hlt, heq, -⟩ := findIdx?_eq_some_iff_getElem.1 h
  exact ⟨_, getElem?_eq_getElem hlt, heq⟩

/-- The edges of a node lead to the nodes of its operands. -/
lemma connect_spec (hg : Listed g) (hempty : ∀ c, g.out c = []) (h : Scalar.connect g = .ok S) :
    S.nodes = g.nodes ∧ ∀ i e, g.exprs[i]? = some e →
      ((e.isTerminal || e.isModifier) = true → S.out i = []) ∧
      ((e.isTerminal || e.isModifier) = false → Forall₂ (fun d o =>
        ∃ w, g.exprs[d]? = some w ∧ (w == o) = true) (S.out i) e.operands) := by
  unfold Scalar.connect at h
  dsimp only at h
  obtain ⟨targets, htargets, hfold⟩ := bind_eq_ok.1 h
  let ps := ((range targets.length).zip targets).map fun p => (p.1, p.2.filter (· != p.1))
  have hkeys : (ps.map (·.1)).Nodup := by
    have hfst : ps.map (·.1) = range targets.length := by
      rw [map_map]
      exact map_fst_zip (by simp)
    exact hfst ▸ nodup_range
  have hlookup : ∀ i, ps.lookup i = (targets[i]?).map fun ks => ks.filter (· != i) := fun i => by
    rw [lookup_map_snd (fun i (ks : List Nat) => ks.filter (· != i)), lookup_zip_range]
  have hfold' : ps.foldlM (fun g p => p.2.foldlM (fun g k => g.addEdge p.1 k) g) g = .ok S := by
    rwa [foldlM_map]
  obtain ⟨hnodes, hout⟩ := addEdges hkeys hg hfold'
  refine ⟨hnodes, fun i e he => ?_⟩
  obtain ⟨ks, hks, hke⟩ := getElem?_of_forall₂ (mapM_eq_ok.1 htargets) he
  rw [hout, hempty, nil_append, hlookup, hks, Option.map_some, Option.getD_some]
  constructor
  · intro hleaf
    rw [if_pos hleaf, pure_eq_ok] at hke
    rw [← hke]
    rfl
  · intro hop
    rw [if_neg (by simp [hop]), mapM_eq_ok] at hke
    have hfound : Forall₂ (fun o k => ∃ w, g.exprs[k]? = some w ∧ (w == o) = true)
        e.operands ks := hke.imp fun o k hk => getElem?_of_numberOf (orMisfit_eq_ok.1 hk)
    -- an operand is smaller than the node, so no edge leads back to it
    have hself : ∀ k ∈ ks, (k != i) = true := by
      intro k hk
      obtain ⟨o, ho, w, hw, hwo⟩ := exists_of_forall₂_right hfound hk
      rw [bne_iff_ne]
      rintro rfl
      obtain rfl : w = e := Option.some.inj (hw.symm.trans he)
      have hlt := length_nodes_operand ho
      rw [Expr.length_nodes_congr hwo] at hlt
      exact Nat.lt_irrefl _ hlt
    rw [filter_eq_self.2 hself]
    exact List.Forall₂.flip hfound

/-- The nodes of the graph of scalar expressions: the subexpressions with the places at which they
    stand. -/
lemma mem_nodes_of_connect (hg : ofExprs true ws = .ok g) (h : Scalar.connect g = .ok S)
    {v : Vertex} : (i, v) ∈ S.nodes ↔ ∃ e, (collectAll true [] ws)[i]? = some e ∧
      { expr := e, components := placesOf ws e } = v := by
  obtain rfl := ofExprs_eq_ok hg
  rw [(connect_spec (listed_ofVertices _) (out_ofVertices _) h).1, mem_nodes_ofVertices,
    getElem?_map, Option.map_eq_some_iff]

end Graph

open FormKernel.Graph in
lemma scalarGraph_of_connect {ws : List Expr} {g S : Graph Nat Vertex}
    (hg : Graph.ofExprs true ws = .ok g) (h : Scalar.connect g = .ok S) : ScalarGraph S := by
  have hmem {i v} := mem_nodes_of_connect hg h (i := i) (v := v)
  obtain rfl := ofExprs_eq_ok hg
  obtain ⟨hnodes, hout⟩ := connect_spec (listed_ofVertices _) (out_ofVertices _) h
  rw [exprs_ofVertices] at hout
  have hapart := apart_collectAll true ws
  generalize collectAll true [] ws = es at hmem hnodes hout hapart
  have hkeys : S.nodes.map (·.1) = range es.length := by
    rw [hnodes, ofVertices, map_fst_zip (by simp), length_map]
  refine ⟨?_, ?_, ?_, ?_, ?_⟩
  · have hlen : S.nodes.length = es.length := by
      rw [hnodes]
      simp [ofVertices]
    rw [hkeys, hlen]
  · intro i j v w hi hj hvw
    obtain ⟨a, ha, rfl⟩ := hmem.1 hi
    obtain ⟨b, hb, rfl⟩ := hmem.1 hj
    exact hapart.eq_of_beq ha hb hvw
  · intro i v hi hleaf
    obtain ⟨a, ha, rfl⟩ := hmem.1 hi
    exact (hout i a ha).1 hleaf
  · intro i v hi hop
    obtain ⟨a, ha, rfl⟩ := hmem.1 hi
    refine ((hout i a ha).2 hop).imp fun d o hd => ?_
    obtain ⟨w, hw, hwo⟩ := hd
    exact ⟨_, hmem.2 ⟨w, hw, rfl⟩, hwo⟩
  · have hflat : S.nodes.flatMap (·.2.components) = es.flatMap (placesOf ws) := by
      rw [flatMap_def, hnodes, ofVertices, map_snd_zip_range Vertex.components, map_map]
      rfl
    rw [hflat]
    exact nodup_placesOf hapart ws

end FormKernel
