import FormKernel.Proofs.Factor.Order

/-!
# Choices between branches with arguments

A product of arguments that one branch of a choice lacks has the factor zero there.  Nothing makes
this zero a factor: the choice finds it if zero is a node of the scalar graph before the choice, and
otherwise there is no graph of factors.
-/

namespace FormKernel.Factor

open Form (Builder Expr FieldInterpretation Valuation rational)
open FormKernel.Graph (Vertex numberOf)
open List

section

variable {S : Graph Nat Vertex} {rank : Nat} {K : Type} [Field K] {I : FieldInterpretation K}
  {τ : Valuation K}

/-- A multilinear graph has a graph of factors in which every operand of an operator is a node, if
    zero is a node before each choice that depends on arguments, and is the only branch without
    arguments of such a choice. -/
theorem exists_node_of_operand [Builder] (hB : Elementary)
    (hbuild : Builder.Elementary .conditional)
    (hS : MultilinearGraph I τ S rank) (hordered : OrderedScalarGraph S) (hkeys : Sortable S)
    (hchoice : ∀ i v, (i, v) ∈ S.nodes → v.expr.head = .operator .conditional →
      v.expr.argumentNumbers ≠ ∅ → Choosable S i v.expr) :
    ∃ G, (factorize S rank).graph = .ok G ∧ ∀ i v, (i, v) ∈ G.nodes →
      (v.expr.isTerminal || v.expr.isModifier) = false → ∀ o ∈ v.expr.operands,
        ∃ j w, j ∈ G.out i ∧ (j, w) ∈ G.nodes ∧ (w.expr == o) = true := by
  obtain ⟨G, hG, hfactors⟩ := exists_orderedFactors_of_choosable hB hS hordered
    (fun i v hv hop hnums => ⟨hbuild, hchoice i v hv hop hnums⟩) hkeys
  refine ⟨G, hG, fun i v hv hop o ho => ?_⟩
  have hmem : numberOf (factorExprs G) o ∈ (G.out i).map some := by
    rw [← hfactors.operands hv hop]
    exact mem_map_of_mem ho
  obtain ⟨j, hj, hjo⟩ := mem_map.1 hmem
  obtain ⟨w, hw, hwo⟩ := hfactors.expr_of_numberOf hjo.symm
  exact ⟨j, w, hj, hw, hwo⟩

end

/-! ## Choices between components -/

/-- A component of a test function with two components. -/
def testComponent (k : Int) : Expr :=
  .node .indexed [.terminal (.argument 0 none default (some [2])),
    .terminal (.multiIndex [.fixed k])]

/-- The first component where `w < 1`, and another expression elsewhere. -/
def chosen (other : Expr) : Expr :=
  .node .conditional [.node .lt [weightFunction, one], testComponent 0, other]

/-- A choice between a component and zero, and then one between the components. -/
def choiceIntegrand : Expr := .sum (chosen (.terminal .zero)) (chosen (testComponent 1))

def choiceGraph : Graph Nat Vertex :=
  ((Graph.ofExprs true [choiceIntegrand] >>= Scalar.connect).toOption).getD {}

lemma multilinear_choiceIntegrand {x : Expr} (hx : x ∈ Graph.collectAll true [] [choiceIntegrand]) :
    Multilinear rational.toInterpretation linearValues x := by
  have hcollected : Graph.collectAll true [] [choiceIntegrand] =
      [weightFunction, one, .node .lt [weightFunction, one], testComponent 0, .terminal .zero,
        chosen (.terminal .zero), testComponent 1, chosen (testComponent 1), choiceIntegrand] := rfl
  have hcomponent : ∀ k, Multilinear rational.toInterpretation linearValues (testComponent k) :=
    fun k => .argument ⟨⟨none, default, some [2], rfl⟩, rfl⟩
  have hzero : Multilinear rational.toInterpretation linearValues (chosen (.terminal .zero)) :=
    .conditional (by decide) (hcomponent 0) (.free rfl) (.inr (.inr rfl))
  have hother : Multilinear rational.toInterpretation linearValues (chosen (testComponent 1)) :=
    .conditional (by decide) (hcomponent 0) (hcomponent 1) (.inl (by decide))
  rw [hcollected] at hx
  simp only [mem_cons, not_mem_nil, or_false] at hx
  rcases hx with rfl | rfl | rfl | rfl | rfl | rfl | rfl | rfl | rfl
  · exact .free (by decide)
  · exact .free (by decide)
  · exact .free (by decide)
  · exact hcomponent 0
  · exact .free rfl
  · exact hzero
  · exact hcomponent 1
  · exact hother
  · exact .sum hzero hother (by decide)

lemma orderedScalarGraph_choiceGraph : OrderedScalarGraph choiceGraph :=
  orderedScalarGraph_of_integrand (e := choiceIntegrand)
    (by rw [choiceGraph, Graph.ofExprs_eq]; rfl)

lemma multilinearGraph_choiceGraph : MultilinearGraph rational linearValues choiceGraph 1 where
  toScalarGraph := orderedScalarGraph_choiceGraph.toScalarGraph
  multilinear i v hv := by
    have hexprs : choiceGraph.nodes.map (·.2.expr) =
        Graph.collectAll true [] [choiceIntegrand] := by
      rw [choiceGraph, Graph.ofExprs_eq]
      rfl
    exact multilinear_choiceIntegrand (hexprs ▸ mem_map_of_mem hv)
  targets := targets_of_card (by decide +kernel)

/-- With zero before it, the choice between different components has factors. -/
theorem exists_node_of_operand_choiceGraph :
    MultilinearGraph rational linearValues choiceGraph 1 ∧
      ∃ G, (@factorize .folding choiceGraph 1).graph = .ok G ∧
        ∀ i v, (i, v) ∈ G.nodes → (v.expr.isTerminal || v.expr.isModifier) = false →
          ∀ o ∈ v.expr.operands, ∃ j w, j ∈ G.out i ∧ (j, w) ∈ G.nodes ∧ (w.expr == o) = true := by
  have hzero : (4, { expr := .terminal .zero }) ∈ choiceGraph.nodes :=
    mem_of_getElem? (i := 4) (by rw [choiceGraph, Graph.ofExprs_eq]; rfl)
  have hchoices : ∀ n ∈ choiceGraph.nodes, n.2.expr.head = .operator .conditional →
      4 < n.1 ∧ ∀ o ∈ n.2.expr.operands.tail, o.argumentNumbers = ∅ →
        (o == .terminal .zero) = true := by decide +kernel
  refine ⟨multilinearGraph_choiceGraph, @exists_node_of_operand _ _ _ _ _ _ .folding
    (fun op _ => Builder.elementary_folding op) (Builder.elementary_folding _)
    multilinearGraph_choiceGraph orderedScalarGraph_choiceGraph (by decide +kernel)
    fun i v hv hop _ => ?_⟩
  obtain ⟨hlater, hbranches⟩ := hchoices (i, v) hv hop
  exact ⟨fun o ho hfree => eq_zero_of_beq (hbranches o ho hfree), 4, _, hzero, hlater, rfl⟩

end FormKernel.Factor
