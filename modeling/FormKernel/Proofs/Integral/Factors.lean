import FormKernel.Proofs.Integral.Resolution
import FormKernel.Proofs.Table.Factors

/-!
# Factors find their tables

With sum factorisation the tables of factors are stored beside those of elements.  The factors of
each rule are numbered from zero, so factors of different rules have the same names.  As long as
factors of one name have the same values everywhere, every factor that a kernel reads is stored,
even where the table of another terminal has taken its name.
-/

namespace FormKernel.Integral

open Form (Expr)
open Quadrature (Rule)
open Table (Factored IsFactorName Numbered TableFactor TableKind Tables factored_buildTables
  factorsOf numbered_factorsOf)

/-- The factors whose tables an integrand needs for a rule. -/
def neededFactors (task : Task) (p : Rule × Expr) : Outcome (List TableFactor) := do
  factorsOf (task.setting p.1) (← neededElements p.2)

/-- Factors that the integrands of two rules need have the same values if they have one name. -/
def FactorsAgree (task : Task) (p q : Rule × Expr) : Prop :=
  ∀ fs gs, neededFactors task p = .ok fs → neededFactors task q = .ok gs →
    ∀ f ∈ fs, ∀ g ∈ gs, f.name = g.name → f.values = g.values

/-- A representation that keeps factors out of a collection: what is stored under the name of a
    factor is one of them, and each factor that a kernel reads is one of them and has its name
    stored. -/
structure FactorsKept (among : TableFactor → Prop) (rep : Representation) : Prop where
  tables : ∀ a ∈ rep.tables, IsFactorName a.1 → among ⟨a.1, a.2⟩
  uses : ∀ i ∈ rep.integrands, ∀ t, i.Uses t → ∀ fs, t.factors = some fs → ∀ f ∈ fs,
    among f ∧ (rep.tables.lookup f.name).isSome

section Run

variable {task : Task} {done rep : Representation} {rule : Rule} {e : Expr}
  {among : TableFactor → Prop} {tables : Tables} {names : List String}

/-- Arrays under the name of a factor are factors or have been known. -/
lemma mem_of_lookup_arraysOf {known : List (String × Dense Float)} (h : Factored known tables)
    {name : String} {a : Option TableKind × Dense Float} (hname : IsFactorName name)
    (ha : (arraysOf tables).lookup name = some a) :
    a.1 = none ∧ ⟨name, a.2⟩ ∈ tables.factors ∨ (name, a.2) ∈ known := by
  obtain ⟨x, hx, rfl, rfl⟩ := array_of_lookup_arraysOf ha
  cases x with
  | factor f => exact .inl ⟨rfl, (h.entry f).1 hx⟩
  | terminal m t => exact .inr (h.taken m t hx hname)

/-- A factor whose name is read is stored. -/
lemma isSome_lookup_factor (h : Factored done.tables tables) {f : TableFactor}
    (hf : f ∈ tables.factors) (hname : f.name ∈ names) :
    (((storedArrays tables names).foldl (fun out x => assign x.1 x.2.2 out)
      done.tables).lookup f.name).isSome := by
  rw [isSome_lookup_foldl_assign]
  have hentry : ∃ x ∈ tables.entries, x.name = f.name := ⟨_, (h.entry f).2 hf, rfl⟩
  obtain ⟨a, ha⟩ : ∃ a, (arraysOf tables).lookup f.name = some a := by
    rw [← Option.isSome_iff_exists, arraysOf, isSome_lookup_foldl_assign]
    exact .inl hentry
  rcases mem_of_lookup_arraysOf h (h.numbered.isFactorName hf) ha with ⟨hkind, -⟩ | hknown
  · exact .inl ⟨(f.name, a), mem_storedArrays.2 ⟨hname, ha, by simp [hkind], by simp [hkind]⟩, rfl⟩
  · -- another table has taken the name, under which it was stored before
    exact .inr (isSome_lookup_of_mem hknown)

/-- Representing the integrand of one more rule keeps all factors. -/
lemma FactorsKept.addIntegrand (h : FactorsKept among done)
    (hamong : ∀ fs, neededFactors task (rule, e) = .ok fs → ∀ f ∈ fs, among f)
    (hadd : addIntegrand task done rule e = .ok rep) : FactorsKept among rep := by
  obtain ⟨scalar, terminals, tables, new, hscalar, hterminals, htables, -, hrefers, hintegrands,
    hstored, -⟩ := addIntegrand_eq_ok hadd
  obtain ⟨hfactored, es, hes, hfactors⟩ := factored_buildTables htables
  have hneeded : neededFactors task (rule, e) = .ok tables.factors :=
    bind_eq_ok.2
      ⟨es, bind_eq_ok.2 ⟨scalar, hscalar, bind_eq_ok.2 ⟨terminals, hterminals, hes⟩⟩, hfactors⟩
  refine ⟨fun a ha hname => ?_, fun i hi t ht fs hfs f hf => ?_⟩
  · rw [hstored] at ha
    rcases mem_foldl_assign ha with ⟨x, hx, rfl⟩ | hdone
    · obtain ⟨-, hlookup, -, -⟩ := mem_storedArrays.1 hx
      rcases mem_of_lookup_arraysOf hfactored hname hlookup with ⟨-, hfactor⟩ | hknown
      · exact hamong _ hneeded _ hfactor
      · exact h.tables _ hknown hname
    · exact h.tables a hdone hname
  · rw [hintegrands, List.mem_append, List.mem_singleton] at hi
    rw [hstored]
    rcases hi with hi | rfl
    · obtain ⟨hf, hlookup⟩ := h.uses i hi t ht fs hfs f hf
      refine ⟨hf, ?_⟩
      rw [isSome_lookup_foldl_assign]
      exact .inr hlookup
    · obtain ⟨m, hm⟩ := hrefers t ht.refers
      have hmem : f ∈ tables.factors := hfactored.own m t hm fs hfs f hf
      refine ⟨hamong _ hneeded f hmem, isSome_lookup_factor hfactored hmem ?_⟩
      refine mem_activeNames.2 ⟨t, ht, ?_⟩
      rw [arrayNames, hfs]
      exact List.mem_map.2 ⟨f, hf, rfl⟩

end Run

lemma numbered_neededFactors {task : Task} {p : Rule × Expr} {fs : List TableFactor}
    (h : neededFactors task p = .ok fs) : Numbered fs := by
  obtain ⟨_, -, hfactors⟩ := bind_eq_ok.1 h
  exact numbered_factorsOf hfactors

/-- The factors of one integrand agree with each other. -/
lemma FactorsAgree.refl (task : Task) (p : Rule × Expr) : FactorsAgree task p p := by
  intro fs gs hfs hgs f hf g hg hname
  obtain rfl := Except.ok.inj (hfs.symm.trans hgs)
  rw [(numbered_neededFactors hfs).eq_of_name hf hg hname]

instance (task : Task) : Std.Symm (FactorsAgree task) :=
  ⟨fun _ _ h fs gs hfs hgs f hf g hg hname => (h gs fs hgs hfs g hg f hf hname.symm).symm⟩

/-- If the factors that different rules need agree, then all factors that a kernel reads find their
    values under their names; an integral with one rule needs no condition. -/
theorem factors_resolve {task : Task} {integrands rules : List (Rule × Expr)}
    {rep : Representation} (hrules : byRule integrands = .ok rules)
    (hagree : rules.Pairwise (FactorsAgree task)) (hrep : represent task integrands = .ok rep) :
    ∀ i ∈ rep.integrands, ∀ t, i.Uses t → ∀ fs, t.factors = some fs →
      ∀ f ∈ fs, rep.tables.lookup f.name = some f.values := by
  obtain ⟨rules', hrules', hrun⟩ := bind_eq_ok.1 hrep
  obtain rfl := Except.ok.inj (hrules.symm.trans hrules')
  have hpairs : ∀ p ∈ rules, ∀ q ∈ rules, FactorsAgree task p q :=
    fun p hp q hq => hagree.forall_of_forall (fun p _ => FactorsAgree.refl task p) hp hq
  let among (f : TableFactor) : Prop := ∃ p ∈ rules, ∃ fs, neededFactors task p = .ok fs ∧ f ∈ fs
  have hkept : FactorsKept among rep := by
    refine foldlM_induction (FactorsKept among) ⟨by simp, by simp⟩ ?_ hrun
    intro done p next hp hdone hadd
    exact hdone.addIntegrand (fun fs hfs f hf => ⟨p, hp, fs, hfs, hf⟩) hadd
  intro i hi t ht fs hfs f hf
  obtain ⟨⟨p, hp, gs, hgs, hfgs⟩, hsome⟩ := hkept.uses i hi t ht fs hfs f hf
  obtain ⟨v, hv⟩ := Option.isSome_iff_exists.1 hsome
  have hname : IsFactorName f.name := (numbered_neededFactors hgs).isFactorName hfgs
  obtain ⟨q, hq, gs', hgs', hv'⟩ := hkept.tables _ (mem_of_lookup_eq_some hv) hname
  have hvalues : f.values = v := hpairs p hp q hq gs gs' hgs hgs' f hfgs _ hv' rfl
  rw [hv, hvalues]

/-! ### Integrals over a square -/

/-- The task of representing an integral over a square with sum factorisation. -/
def squareTask : Task where
  data := {
    topology := [("quadrilateral", [[[0], [1], [2], [3]], [[0, 1], [0, 2], [1, 3], [2, 3]],
      [[0, 1, 2, 3]]])]
    geometry := [("quadrilateral", ⟨[4, 2], #[0.0, 0.0, 1.0, 0.0, 0.0, 1.0, 1.0, 1.0]⟩)] }
  cell := some .quadrilateral
  kind := .cell
  entity := .cell
  rank := 0
  factorized := true
  comparison := .exact

/-- A coefficient of an element with one degree of freedom: the product of a polynomial in `x` and
    the same polynomial in `y`. -/
def squareCoefficient (factor : List (Float × Nat)) : Expr :=
  let interval : Form.Element := { (default : Form.Element) with
    cell := .interval, basis := [factor.map fun m => (m.1, [m.2])], dim := 1 }
  let product := factor.flatMap fun m => factor.map fun n => (m.1 * n.1, [m.2, n.2])
  let element : Form.Element := { (default : Form.Element) with
    id := 1, cell := .quadrilateral, basis := [product], components := [(none, 0, 1)], dim := 1
    tensorProduct := some [[interval, interval]] }
  let mesh : Form.Domain := { id := 0, cell := .quadrilateral, gdim := 2, coordinate := none }
  let space : Form.Space := { id := 0, element, domain := some mesh, shape := [] }
  .operator .referenceValue [.terminal (.coefficient false 0 space none)] [] [] []

/-- A rule with all points whose coordinates are taken from two numbers. -/
def squareRule (x y : Float) : Rule where
  points := ⟨[4, 2], #[x, x, x, y, y, x, y, y]⟩
  weights := ⟨[4], #[0.25, 0.25, 0.25, 0.25]⟩
  factors := some [(⟨[2, 1], #[x, y]⟩, ⟨[2], #[0.5, 0.5]⟩), (⟨[2, 1], #[x, y]⟩, ⟨[2], #[0.5, 0.5]⟩)]

/-- The coefficient whose factors are `x - x ^ 2`, at points that are mirror images. -/
def bubbles : List (Rule × Expr) :=
  [(squareRule 0.25 0.375, squareCoefficient [(1.0, 1), (-1.0, 2)]),
    (squareRule 0.75 0.625, squareCoefficient [(1.0, 1), (-1.0, 2)])]

/-- The coefficient whose factors are `x`, at different points. -/
def products : List (Rule × Expr) :=
  [(squareRule 0.25 0.75, squareCoefficient [(1.0, 1)]),
    (squareRule 0.125 0.625, squareCoefficient [(1.0, 1)])]

/-- All factors that an integrand needs have the given values. -/
def needsOnly (values : Dense Float) (p : Rule × Expr) : Bool :=
  (neededFactors squareTask p).toOption.any fun fs => fs.all fun f =>
    decide (f.values.shape = values.shape ∧ f.values.data = values.data)

lemma factorsAgree_of_needsOnly {values : Dense Float} {p q : Rule × Expr}
    (hp : needsOnly values p = true) (hq : needsOnly values q = true) :
    FactorsAgree squareTask p q := by
  have hvalues : ∀ {p fs f}, needsOnly values p = true → neededFactors squareTask p = .ok fs →
      f ∈ fs → f.values = values := by
    intro p fs f hp hfs hf
    obtain ⟨fs', hfs', hall⟩ := any_toOption.1 hp
    obtain rfl := Except.ok.inj (hfs.symm.trans hfs')
    obtain ⟨hshape, hdata⟩ := of_decide_eq_true (List.all_eq_true.1 hall f hf)
    exact congrArg₂ Dense.mk hshape hdata
  exact fun fs gs hfs hgs f hf g hg _ => (hvalues hp hfs hf).trans (hvalues hq hgs hg).symm

/-- The factors have the same values for both rules. -/
theorem factors_resolve_bubbles :
    ∃ rep i t fs f, represent squareTask bubbles = .ok rep ∧ i ∈ rep.integrands ∧ i.Uses t ∧
      t.factors = some fs ∧ f ∈ fs ∧ rep.tables.lookup f.name = some f.values := by
  have hbytes : ((squareRule 0.25 0.375).bytes == (squareRule 0.75 0.625).bytes) = false := by
    decide +kernel
  have hneeds : ∀ p ∈ bubbles, needsOnly ⟨[1, 1, 2, 1], #[0.1875, 0.234375]⟩ p = true := by
    decide +kernel
  have hrun : (represent squareTask bubbles).toOption.any (fun rep => rep.integrands.any fun i =>
      (usedTables i.factors i.blocks).any fun t => t.factors.any fun fs =>
        fs.any fun _ => true) = true := by decide +kernel
  obtain ⟨rep, hrep, hany⟩ := any_toOption.1 hrun
  obtain ⟨i, hi, hany⟩ := List.any_eq_true.1 hany
  obtain ⟨t, ht, hany⟩ := List.any_eq_true.1 hany
  obtain ⟨fs, hfs, hany⟩ := (Option.any_eq_true _ _).1 hany
  obtain ⟨f, hf, -⟩ := List.any_eq_true.1 hany
  have hagree : bubbles.Pairwise (FactorsAgree squareTask) := List.pairwise_pair.2
    (factorsAgree_of_needsOnly (hneeds _ (by simp [bubbles])) (hneeds _ (by simp [bubbles])))
  exact ⟨rep, i, t, fs, f, hrep, hi, mem_usedTables.1 ht, hfs, hf,
    factors_resolve (byRule_pair hbytes) hagree hrep i hi t (mem_usedTables.1 ht) fs hfs f hf⟩

/-- The factors differ, and those of the second rule are stored in the place of those of the
    first. -/
theorem factors_unresolved_products :
    ∃ rep i t fs f, represent squareTask products = .ok rep ∧ i ∈ rep.integrands ∧ i.Uses t ∧
      t.factors = some fs ∧ f ∈ fs ∧ ∃ v, rep.tables.lookup f.name = some v ∧ v ≠ f.values := by
  have hrun : (represent squareTask products).toOption.any (fun rep => rep.integrands.any fun i =>
      (usedTables i.factors i.blocks).any fun t => t.factors.any fun fs => fs.any fun f =>
        (rep.tables.lookup f.name).any fun v => decide (v.data ≠ f.values.data)) = true := by
    decide +kernel
  obtain ⟨rep, hrep, hany⟩ := any_toOption.1 hrun
  obtain ⟨i, hi, hany⟩ := List.any_eq_true.1 hany
  obtain ⟨t, ht, hany⟩ := List.any_eq_true.1 hany
  obtain ⟨fs, hfs, hany⟩ := (Option.any_eq_true _ _).1 hany
  obtain ⟨f, hf, hany⟩ := List.any_eq_true.1 hany
  obtain ⟨v, hv, hdiffer⟩ := (Option.any_eq_true _ _).1 hany
  exact ⟨rep, i, t, fs, f, hrep, hi, mem_usedTables.1 ht, hfs, hf, v, hv,
    fun heq => of_decide_eq_true hdiffer (congrArg Dense.data heq)⟩

end FormKernel.Integral
