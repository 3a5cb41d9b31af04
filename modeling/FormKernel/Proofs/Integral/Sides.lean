import FormKernel.Proofs.Integral.Resolution

/-!
# Sides of facets

An integral over interior facets needs the permutations of facets as soon as the integrand of one of
its rules has terminals on both sides.  The flag of a representation says so of the last rule only.
-/

namespace FormKernel.Integral

open Form (Expr Side)
open Quadrature (Rule)

/-- The sides that the modified terminals of an integrand are seen from. -/
def sidesOf (e : Expr) : Outcome (List (Option Side)) := do
  let terminals ← modifiedTerminals (← Scalar.scalarGraph (withoutWeight e))
  return terminals.map (·.2.restriction)

/-- An integrand with terminals on both sides of a facet. -/
def TwoSided (e : Expr) : Prop :=
  ∃ sides, sidesOf e = .ok sides ∧ some .plus ∈ sides ∧ some .minus ∈ sides

lemma twoSided_of_any {e : Expr} (h : (sidesOf e).toOption.any
    (fun sides => decide (some .plus ∈ sides ∧ some .minus ∈ sides)) = true) : TwoSided e := by
  obtain ⟨sides, hsides, hboth⟩ := any_toOption.1 h
  exact ⟨sides, hsides, of_decide_eq_true hboth⟩

/-- Representing the integrand of one more rule records whether it is seen from both sides. -/
lemma sides_addIntegrand {task : Task} {done rep : Representation} {rule : Rule} {e : Expr}
    (h : addIntegrand task done rule e = .ok rep) :
    ∃ new, rep.integrands = done.integrands ++ [new] ∧ (new.twoSided = true ↔ TwoSided e) := by
  obtain ⟨scalar, hscalar, terminals, hterminals, tables, -, scalar', -, h⟩ := bind₄_eq_ok.1 h
  obtain ⟨-, h⟩ := ite_throw_eq_ok h
  obtain ⟨g, -, products, -, g₁, -, g₂, -, blocks, -, h⟩ := bind₅_eq_ok.1 h
  obtain ⟨_, -, h⟩ := bind_eq_ok.1 h
  cases h
  have hsides : sidesOf e = .ok (terminals.map (·.2.restriction)) :=
    bind_eq_ok.2 ⟨scalar, hscalar, bind_eq_ok.2 ⟨terminals, hterminals, rfl⟩⟩
  refine ⟨_, rfl, ?_⟩
  rw [Bool.and_eq_true, List.contains_iff_mem, List.contains_iff_mem]
  constructor
  · exact fun hboth => ⟨_, hsides, hboth⟩
  · rintro ⟨sides, hsides', hboth⟩
    obtain rfl := Except.ok.inj (hsides.symm.trans hsides')
    exact hboth

/-- The integrands of a representation belong to the rules in order. -/
lemma sides_represent {task : Task} {rules : List (Rule × Expr)} {rep : Representation}
    (h : rules.foldlM (fun done p => addIntegrand task done p.1 p.2) {} = .ok rep) :
    List.Forall₂ (fun p i => i.twoSided = true ↔ TwoSided p.2) rules rep.integrands := by
  refine foldlM_prefix (fun (passed : List (Rule × Expr)) (done : Representation) =>
    List.Forall₂ (fun p i => i.twoSided = true ↔ TwoSided p.2) passed done.integrands) .nil ?_ h
  intro passed p rest done next _ hdone hadd
  obtain ⟨new, hnew, htwo⟩ := sides_addIntegrand hadd
  rw [hnew]
  exact List.rel_append hdone (.cons htwo .nil)

/-- The last rule decides whether facets are permuted.  Its answer is right for all rules exactly if
    it is two-sided whenever another rule is. -/
theorem facetPermutations_iff_exists_twoSided {task : Task} {integrands rules : List (Rule × Expr)}
    {rep : Representation} (hrules : byRule integrands = .ok rules)
    (hrep : represent task integrands = .ok rep) :
    (rep.facetPermutations = true ↔ ∃ p ∈ rules.getLast?, TwoSided p.2) ∧
      ((rep.facetPermutations = true ↔ ∃ p ∈ rules, TwoSided p.2) ↔
        ((∃ p ∈ rules, TwoSided p.2) → ∃ p ∈ rules.getLast?, TwoSided p.2)) := by
  obtain ⟨rules', hrules', hrun⟩ := bind_eq_ok.1 hrep
  obtain rfl := Except.ok.inj (hrules.symm.trans hrules')
  have hlast : rep.facetPermutations = true ↔ ∃ p ∈ rules.getLast?, TwoSided p.2 := by
    have hreverse := List.forall₂_reverse_iff.2 (sides_represent hrun)
    rw [Representation.facetPermutations, List.getLast?_eq_head?_reverse,
      List.getLast?_eq_head?_reverse]
    generalize rules.reverse = ps at hreverse ⊢
    generalize rep.integrands.reverse = is at hreverse ⊢
    cases hreverse with
    | nil => simp
    | cons htwo _ => simpa using htwo
  refine ⟨hlast, fun hall => hall.symm.trans hlast |>.1, fun hsome => hlast.trans ⟨?_, hsome⟩⟩
  rintro ⟨p, hp, htwo⟩
  exact ⟨p, List.mem_of_getLast? hp, htwo⟩

/-! ### Two rules on the facets of a triangle -/

def facetPointRule (x : Float) : Rule where
  points := ⟨[1, 1], #[x]⟩
  weights := ⟨[1], #[1.0]⟩

/-- The coefficient `x` on one side of a facet. -/
def onSide (side : Form.Operator) : Expr :=
  .operator side [triangleCoefficient [(1.0, [1, 0])]] [] [] []

def onBothSides : Expr := .sum (onSide .positiveRestricted) (onSide .negativeRestricted)

/-- A rule that sees both sides, and one that sees one side only. -/
def bothThenOne : List (Rule × Expr) :=
  [(facetPointRule 0.25, onBothSides), (facetPointRule 0.5, onSide .positiveRestricted)]

lemma twoSided_onBothSides : TwoSided onBothSides := twoSided_of_any (by decide +kernel)

/-- The flag is right if the rule that sees both sides comes last. -/
theorem facetPermutations_oneThenBoth :
    ∃ rep, byRule bothThenOne.reverse = .ok bothThenOne.reverse ∧
      represent (triangleTask .interiorFacet .facet) bothThenOne.reverse = .ok rep ∧
      (rep.facetPermutations = true ↔ ∃ p ∈ bothThenOne.reverse, TwoSided p.2) := by
  have hbytes : ((facetPointRule 0.5).bytes == (facetPointRule 0.25).bytes) = false := by
    decide +kernel
  have hrun : (represent (triangleTask .interiorFacet .facet) bothThenOne.reverse).toOption.any
      (fun _ => true) = true := by decide +kernel
  obtain ⟨rep, hrep, -⟩ := any_toOption.1 hrun
  refine ⟨rep, byRule_pair hbytes, hrep, ?_⟩
  refine (facetPermutations_iff_exists_twoSided (byRule_pair hbytes) hrep).2.2 fun _ => ?_
  exact ⟨_, rfl, twoSided_onBothSides⟩

/-- The flag is wrong if it comes first. -/
theorem facetPermutations_bothThenOne :
    ∃ rep, represent (triangleTask .interiorFacet .facet) bothThenOne = .ok rep ∧
      (∃ p ∈ bothThenOne, TwoSided p.2) ∧ rep.facetPermutations = false := by
  have hrun : (represent (triangleTask .interiorFacet .facet) bothThenOne).toOption.any
      (fun rep => rep.facetPermutations == false) = true := by decide +kernel
  obtain ⟨rep, hrep, hflag⟩ := any_toOption.1 hrun
  exact ⟨rep, hrep, ⟨_, List.mem_cons_self, twoSided_onBothSides⟩, eq_of_beq hflag⟩

end FormKernel.Integral
