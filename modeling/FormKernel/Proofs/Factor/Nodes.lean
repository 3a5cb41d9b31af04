import FormKernel.Proofs.Factor.Multilinear
import FormKernel.Proofs.Graph.Scalar
import FormKernel.Proofs.Sorting

/-!
# Factors of the nodes of a scalar graph

The nodes are visited operands first.  After each node the factors of all nodes so far say what the
nodes are worth: `factorNodes_factored` is this invariant for the whole graph.
-/

namespace FormKernel.Factor

open Form (Builder Expr FieldInterpretation Valuation)
open FormKernel.Graph (Vertex)
open List

def isArgumentExpr (e : Expr) : Bool :=
  match e.modified? with
  | .ok (some (.argument ..)) => true
  | _ => false

def argumentNumber (e : Expr) : Int :=
  match e.modified? with
  | .ok (some (.argument n ..)) => n
  | _ => 0

lemma isArgument_iff {e : Expr} {n : Int} :
    IsArgument e n ↔ isArgumentExpr e = true ∧ argumentNumber e = n ∧ e.argumentNumbers = {n} := by
  unfold IsArgument isArgumentExpr argumentNumber
  constructor
  · rintro ⟨⟨part, space, shape, h⟩, hn⟩
    simp [h, hn]
  · rintro ⟨h, hn, hnums⟩
    split at h
    · next m part space shape hm =>
      simp only [hm] at hn
      exact ⟨⟨part, space, shape, hn ▸ hm⟩, hnums⟩
    · exact absurd h Bool.false_ne_true

/-! ## Which nodes are arguments -/

lemma eq_filter_isArgumentExpr {ns nodes : List (Nat × Vertex)} (h : (ns.filterM fun n => do
      match ← n.2.expr.modified? with
      | some (.argument ..) => return true
      | _ => return false) = Except.ok nodes) : nodes =
        ns.filter fun n => isArgumentExpr n.2.expr := by
  refine (filterM_eq_ok h).2.trans (filter_congr fun n _ => ?_)
  unfold isArgumentExpr
  rcases n.2.expr.modified? with e | _ | t
  · rfl
  · rfl
  · cases t <;> rfl

/-- The nodes that are taken for arguments, in some order. -/
lemma argumentNodes_perm {S : Graph Nat Vertex} {arguments : List Nat}
    (h : argumentNodes S = .ok arguments) :
    arguments.Perm ((S.nodes.filter fun n => isArgumentExpr n.2.expr).map (·.1)) := by
  unfold argumentNodes at h
  obtain ⟨nodes, hnodes, keyed, hkeyed, sorted, hsorted, h⟩ := bind₃_eq_ok.1 h
  rw [pure_eq_ok] at h
  subst h
  have hfst : keyed.map (·.1) = nodes.map (·.1) := by
    refine map_eq_of_mapM hkeyed fun n _ y hy => ?_
    obtain ⟨m, -, hy'⟩ := bind_eq_ok.1 hy
    obtain ⟨k, -, hy''⟩ := bind_eq_ok.1 hy'
    rw [← pure_eq_ok.1 hy'']
  rw [← eq_filter_isArgumentExpr hnodes, ← hfst]
  exact (sortWith_perm hsorted).map _

section Nodes

variable {S : Graph Nat Vertex} {arguments : List Nat}

lemma mem_argumentNodes (hargs : argumentNodes S = .ok arguments) {i : Nat} :
    i ∈ arguments ↔ ∃ v, (i, v) ∈ S.nodes ∧ isArgumentExpr v.expr = true := by
  rw [(argumentNodes_perm hargs).mem_iff]
  simp

lemma nodup_argumentNodes (hS : ScalarGraph S) (hargs : argumentNodes S = .ok arguments) :
    arguments.Nodup := by
  rw [(argumentNodes_perm hargs).nodup_iff]
  exact hS.nodup_keys.sublist (filter_sublist.map _)

end Nodes

/-! ## Factors of a node -/

section Values

variable {K : Type} [Field K] (I : FieldInterpretation K) (τ : Valuation K) (S : Graph Nat Vertex)

def nodeValue (i : Nat) : K := ((S.data? i).map fun v => v.expr.value I.toInterpretation τ).getD 0

def nodeNumber (i : Nat) : Int := ((S.data? i).map fun v => argumentNumber v.expr).getD 0

variable {I τ S} {i one : Nat} {v : Vertex} {e : Expr} {ops F F' : List Expr} {done : List Factors}

lemma nodeValue_eq (hS : ScalarGraph S) (hmem : (i, v) ∈ S.nodes) :
    nodeValue I τ S i = v.expr.value I.toInterpretation τ := by
  rw [nodeValue, hS.data?_eq_some.2 hmem]
  rfl

lemma nodeNumber_eq (hS : ScalarGraph S) (hmem : (i, v) ∈ S.nodes) :
    nodeNumber S i = argumentNumber v.expr := by
  rw [nodeNumber, hS.data?_eq_some.2 hmem]
  rfl

lemma isArgumentExpr_eq_false (h : e.argumentNumbers = ∅) : isArgumentExpr e = false := by
  unfold isArgumentExpr
  split
  · next n part space shape hm =>
    have hmem : n ∈ e.argumentNumbers :=
      Expr.mem_argumentNumbers.2 ⟨_, Expr.mem_terminals_of_modified? hm, rfl⟩
    simp [h] at hmem
  · rfl

variable {dims shape deps : List Nat} {fi : List Int} {op : Form.Operator}
  {R : Expr → Factors → Prop} {fac : List Factors} {f : Factors}

lemma isArgumentExpr_operator (hop : op.isModifier = false) :
    isArgumentExpr (.operator op ops shape fi dims) = false := by
  rw [isArgumentExpr, Expr.modified?_operator hop]

lemma Multilinear.isArgument (h : Multilinear I.toInterpretation τ e)
    (he : isArgumentExpr e = true) : IsArgument e (argumentNumber e) := by
  cases h with
  | free hfree => exact absurd he (by simp [isArgumentExpr_eq_false hfree])
  | argument harg =>
    have hn := (isArgument_iff.1 harg).2.1
    exact hn ▸ harg
  | _ => exact absurd he (by rw [isArgumentExpr_operator rfl]; exact Bool.false_ne_true)

/-- A leaf of a multilinear graph that is no argument depends on none. -/
lemma Multilinear.leaf (h : Multilinear I.toInterpretation τ e) (he : isArgumentExpr e = false)
    (hleaf : (e.isTerminal || e.isModifier) = true) : e.argumentNumbers = ∅ := by
  cases h with
  | free hfree => exact hfree
  | argument harg => exact absurd (isArgument_iff.1 harg).1 (by simp [he])
  | _ => exact absurd hleaf Bool.false_ne_true

variable {arguments : List Nat}

lemma isArgumentExpr_of_mem (hS : ScalarGraph S) (hargs : argumentNodes S = .ok arguments)
    (hmem : (i, v) ∈ S.nodes) (hi : i ∈ arguments) : isArgumentExpr v.expr = true := by
  obtain ⟨w, hw, hwarg⟩ := (mem_argumentNodes hargs).1 hi
  obtain rfl : v = w := Option.some.inj
    ((hS.data?_eq_some.2 hmem).symm.trans (hS.data?_eq_some.2 hw))
  exact hwarg

lemma isArgumentExpr_of_notMem (hargs : argumentNodes S = .ok arguments) (hmem : (i, v) ∈ S.nodes)
    (hi : ¬ arguments.contains i = true) : isArgumentExpr v.expr = false := by
  rw [← Bool.not_eq_true]
  exact fun harg => hi (by simpa using (mem_argumentNodes hargs).2 ⟨v, hmem, harg⟩)

lemma factored_argument (hS : ScalarGraph S) (hargs : argumentNodes S = .ok arguments)
    (hmem : (i, v) ∈ S.nodes) (hml : Multilinear I.toInterpretation τ v.expr) (hi : i ∈ arguments)
    (hone : FactorIs I.toInterpretation τ F one 1) :
    Factored I τ (nodeValue I τ S) (nodeNumber S) (· ∈ arguments) F v.expr [([i], one)] := by
  have hnums := (hml.isArgument (isArgumentExpr_of_mem hS hargs hmem hi)).2
  refine ⟨by simp [hnums], fun _ => ⟨[([i], 1)], .cons ⟨rfl, hone⟩ .nil, ?_, ?_⟩⟩
  · constructor <;> simp [hi, hnums, nodeNumber_eq hS hmem]
  · simp [total, monomial, nodeValue_eq hS hmem]

/-- Inserting the expression of a node that depends on no argument. -/
lemma factored_free {u : Nat} (he : e.argumentNumbers = ∅) (h : Yields (insert e) F u F') :
    F <+: F' ∧ Factored I τ (nodeValue I τ S) (nodeNumber S) (· ∈ arguments) F' e [] :=
  ⟨h.insert.1, iff_of_true rfl he, fun hne => absurd rfl hne⟩

/-- The operands of a node, with what has been found about them. -/
lemma operands_of_edges (hS : ScalarGraph S)
    (hcongr : ∀ {e e' f}, (e == e') = true → R e f → R e' f)
    (hdone : ∀ d w g, (d, w) ∈ S.nodes → done[d]? = some g → R w.expr g)
    (hfac : Forall₂ (fun d g => done[d]? = some g) deps fac)
    (hops : Forall₂ (fun d o => ∃ w, (d, w) ∈ S.nodes ∧ (w.expr == o) = true) deps ops) :
    ∃ ps : List (Factors × Option Expr), ps.map (·.1) = fac ∧
      ps.map (·.2) = ((deps.zip fac).map fun (d, f) =>
        if f.isEmpty then (S.data? d).map (·.expr) else none) ∧
      Forall₂ (fun p o => R o p.1 ∧ (p.1 = [] → ∃ x, p.2 = some x ∧ (x == o) = true))
        ps ops := by
  induction hfac generalizing ops with
  | nil => exact ⟨[], rfl, rfl, forall₂_nil_left_iff.1 hops ▸ .nil⟩
  | @cons d g deps fac hdg _ ih =>
    obtain ⟨o, ops, ⟨w, hw, hwo⟩, hrest, rfl⟩ := forall₂_cons_left_iff.1 hops
    obtain ⟨ps, hfst, hsnd, hps⟩ := ih hrest
    refine ⟨(g, if g.isEmpty then (S.data? d).map (·.expr) else none) :: ps, ?_, ?_, ?_⟩
    · rw [map_cons, hfst]
    · rw [map_cons, hsnd, zip_cons_cons, map_cons]
    · refine .cons ⟨hcongr hwo (hdone d w g hw hdg), fun hg => ⟨w.expr, ?_, hwo⟩⟩ hps
      have hg' : g = [] := hg
      simp [hg', hS.data?_eq_some.2 hw]

lemma free_of_all_isEmpty {R : Factors × Option Expr → Expr → Prop}
    {ps : List (Factors × Option Expr)}
    (hps : Forall₂ R ps ops) (hempty : (ps.map (·.1)).all (·.isEmpty) = true) :
    ∀ o ∈ ops, ∃ p, p.1 = [] ∧ R p o := by
  intro o ho
  obtain ⟨p, hp, hpo⟩ := exists_of_forall₂_right hps ho
  rw [all_eq_true] at hempty
  exact ⟨p, by simpa using hempty p.1 (mem_map_of_mem hp), hpo⟩

/-- What has been found about the nodes so far, and about the next one. -/
lemma done_concat (hS : ScalarGraph S) (hmem : (i, v) ∈ S.nodes) (hi : i = done.length)
    (hdone : ∀ d w g, (d, w) ∈ S.nodes → done[d]? = some g → R w.expr g) (hf : R v.expr f) :
    ∀ d w g, (d, w) ∈ S.nodes → (done ++ [f])[d]? = some g → R w.expr g := by
  intro d w g hw hg
  rcases getElem?_concat hg with hg | ⟨hd, rfl⟩
  · exact hdone d w g hw hg
  · obtain rfl := hi.trans hd.symm
    obtain rfl : v = w := Option.some.inj
      ((hS.data?_eq_some.2 hmem).symm.trans (hS.data?_eq_some.2 hw))
    exact hf

/-- Reading what has been found for the operands of a node. -/
lemma yields_deps (h : Yields (deps.mapM fun d =>
      match done[d]? with
      | some f => pure f
      | none => throw (.misfit .noEntry)) F fac F') :
    F <+: F' ∧ Forall₂ (fun d g => done[d]? = some g) deps fac :=
  Yields.mapM (P := fun _ d g => done[d]? = some g) (fun _ h => h) (fun d _ G₁ G₂ g _ hg => by
    split at hg
    · next g' hg' =>
      obtain ⟨rfl, rfl⟩ := yields_pure.1 hg
      exact ⟨prefix_refl _, hg'⟩
    · exact absurd hg yields_throw) h

/-- What one node after the other preserves holds for all nodes. -/
lemma factorNodes_run (hS : ScalarGraph S) {step : List Factors → Nat × Vertex → Building Factors}
    {P : List Expr → List Factors → Prop}
    (hstep : ∀ {i v done f F G}, (i, v) ∈ S.nodes → i = done.length → P F done →
      Yields (step done (i, v)) F f G → F <+: G ∧ P G (done ++ [f])) {pre ns : List (Nat × Vertex)}
    (hpre : S.nodes = pre ++ ns) {nodes : List Factors} (hlen : done.length = pre.length)
    (hdone : P F done) (h : factorNodes step ns done F = (nodes, .ok F')) :
    F <+: F' ∧ nodes.length = S.nodes.length ∧ P F' nodes := by
  induction ns generalizing pre done F with
  | nil =>
    simp only [factorNodes, Prod.mk.injEq, Except.ok.injEq] at h
    obtain ⟨rfl, rfl⟩ := h
    exact ⟨prefix_refl _, by simp [hpre, hlen], hdone⟩
  | cons n ns ih =>
    obtain ⟨i, v⟩ := n
    have hnodes : S.nodes[pre.length]? = some (i, v) := by simp [hpre]
    rw [factorNodes] at h
    split at h
    · next f G hf =>
      obtain ⟨hFG, hdone'⟩ := hstep (by simp [hpre]) (by rw [hlen, hS.number_eq hnodes]) hdone hf
      have hpre' : S.nodes = (pre ++ [(i, v)]) ++ ns := by simp [hpre]
      exact (ih hpre' (by simp [hlen]) hdone' h).imp_left hFG.trans
    · simp at h

/-- The factors of a node say what it is worth if those of the nodes before it do. -/
lemma nodeFactors_factored [Builder] (hB : Valued I.toInterpretation τ) (hS : ScalarGraph S)
    (hargs : argumentNodes S = .ok arguments)
    (hfix : ∀ s ∈ arguments, I.conj (nodeValue I τ S s) = nodeValue I τ S s)
    (hmem : (i, v) ∈ S.nodes)
    (hml : Multilinear I.toInterpretation τ v.expr) (hone : FactorIs I.toInterpretation τ F one 1)
    (hdone : ∀ d w g, (d, w) ∈ S.nodes → done[d]? = some g →
      Factored I τ (nodeValue I τ S) (nodeNumber S) (· ∈ arguments) F w.expr g)
    (h : Yields (nodeFactors S arguments one done (i, v)) F f F') :
    F <+: F' ∧ Factored I τ (nodeValue I τ S) (nodeNumber S) (· ∈ arguments) F' v.expr f := by
  unfold nodeFactors at h
  dsimp only at h
  by_cases hi : arguments.contains i = true
  · rw [if_pos hi, yields_bind] at h
    obtain ⟨_, _, hexpect, hf⟩ := h
    obtain ⟨-, rfl⟩ := yields_expect.1 hexpect
    obtain ⟨rfl, rfl⟩ := yields_pure.1 hf
    exact ⟨prefix_refl _, factored_argument hS hargs hmem hml (by simpa using hi) hone⟩
  rw [if_neg hi, yields_bind] at h
  obtain ⟨fac, G, hfac, hf⟩ := h
  have harg := isArgumentExpr_of_notMem hargs hmem hi
  obtain ⟨hFG, hdeps⟩ := yields_deps hfac
  have hdoneG := fun d w g hw hg => (hdone d w g hw hg).mono hFG
  cases hleaf : v.expr.isTerminal || v.expr.isModifier with
  | true =>
    rw [hS.leaf hmem hleaf] at hdeps
    obtain rfl := forall₂_nil_left_iff.1 hdeps
    obtain ⟨u, G', hu, hf'⟩ := yields_bind.1 hf
    obtain ⟨rfl, rfl⟩ := yields_pure.1 hf'
    exact (factored_free (hml.leaf harg hleaf) hu).imp_left hFG.trans
  | false =>
    obtain ⟨ps, rfl, hsnd, hps⟩ := operands_of_edges hS
      (R := Factored I τ (nodeValue I τ S) (nodeNumber S) (· ∈ arguments) G)
      (fun he h => h.congr he) hdoneG hdeps (hS.operands hmem hleaf)
    cases hv : v.expr with
    | terminal t => simp [hv, Expr.isTerminal] at hleaf
    | operator op ops shape fi dims =>
      rw [hv] at hml hleaf hps hf
      by_cases hempty : (ps.map (·.1)).all (·.isEmpty) = true
      · have hfree : ∀ o ∈ ops, o.argumentNumbers = ∅ := by
          intro o ho
          obtain ⟨p, hnil, hpo⟩ := free_of_all_isEmpty hps hempty o ho
          exact hpo.1.eq_nil_iff.1 hnil
        rw [if_pos hempty] at hf
        obtain ⟨u, G', hu, hf'⟩ := yields_bind.1 hf
        obtain ⟨rfl, rfl⟩ := yields_pure.1 hf'
        exact (factored_free (Expr.argumentNumbers_eq_empty.2 hfree) hu).imp_left hFG.trans
      · have hne : ∃ p ∈ ps, p.1 ≠ [] := by
          simpa using hempty
        rw [if_neg hempty, ← hsnd] at hf
        exact (combine_factored hB hfix hleaf hml hps hne hf).imp_left hFG.trans

/-- The factors of all nodes say what the nodes are worth. -/
lemma factorNodes_factored [Builder] (hB : Valued I.toInterpretation τ) (hS : ScalarGraph S)
    (hargs : argumentNodes S = .ok arguments)
    (hfix : ∀ s ∈ arguments, I.conj (nodeValue I τ S s) = nodeValue I τ S s)
    (hml : ∀ i v, (i, v) ∈ S.nodes → Multilinear I.toInterpretation τ v.expr) {nodes : List Factors}
    (hone : FactorIs I.toInterpretation τ F one 1)
    (h : factorNodes (nodeFactors S arguments one) S.nodes [] F = (nodes, .ok F')) :
    F <+: F' ∧ nodes.length = S.nodes.length ∧ ∀ d w g, (d, w) ∈ S.nodes → nodes[d]? = some g →
      Factored I τ (nodeValue I τ S) (nodeNumber S) (· ∈ arguments) F' w.expr g := by
  refine (factorNodes_run hS (P := fun F done => FactorIs I.toInterpretation τ F one 1 ∧
    ∀ d w g, (d, w) ∈ S.nodes → done[d]? = some g →
      Factored I τ (nodeValue I τ S) (nodeNumber S) (· ∈ arguments) F w.expr g)
    (fun {i v done f F G} hmem hi hdone hstep => ?_)
    (nil_append _).symm rfl ⟨hone, by simp⟩ h).imp_right
      (And.imp_right And.right)
  obtain ⟨hFG, hf⟩ :=
    nodeFactors_factored hB hS hargs hfix hmem (hml i v hmem) hdone.1 hdone.2 hstep
  exact ⟨hFG, hdone.1.mono hFG, done_concat hS hmem hi
    (fun d w g hw hg => (hdone.2 d w g hw hg).mono hFG) hf⟩

end Values

end FormKernel.Factor
