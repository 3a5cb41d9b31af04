import FormKernel.Integral.Representation
import FormKernel.Proofs.Factor.Factorize
import FormKernel.Proofs.Table.Sharing

/-!
# References to tables in a representation

The integrand of a rule refers to tables on its factors and in its blocks, and all of these
references have been built for the terminals of the rule.  Those that a kernel reads are stored
under their names in the tables that all rules share.
-/

namespace FormKernel.Integral

open Factor (FactorVertex)
open Form (Expr ModifiedTerminal)
open FormKernel.Graph (Vertex)
open Quadrature (Rule)
open Table (TableEntry TableRef Tables buildTables)
open List

/-! ## References of an integrand -/

/-- A reference to a table, on a factor or in a block. -/
def Integrand.Refers (i : Integrand) (t : TableRef) : Prop :=
  (∃ n ∈ i.factors.nodes, n.2.table = some t) ∨
    ∃ b ∈ i.blocks, ∃ block ∈ b.2, ∃ a ∈ block.arguments, a.table = t

/-- A reference to a table that a kernel reads: on a factor that is active, or in a block. -/
def Integrand.Uses (i : Integrand) (t : TableRef) : Prop :=
  (∃ n ∈ i.factors.nodes, n.2.status ≠ some .inactive ∧ n.2.table = some t) ∨
    ∃ b ∈ i.blocks, ∃ block ∈ b.2, ∃ a ∈ block.arguments, a.table = t

variable {i : Integrand} {t : TableRef} {rank : Nat} {g : Graph Nat FactorVertex}

lemma Integrand.Uses.refers (h : i.Uses t) : i.Refers t :=
  h.imp_left fun ⟨n, hn, _, ht⟩ => ⟨n, hn, ht⟩

lemma mem_usedTables : t ∈ usedTables i.factors i.blocks ↔ i.Uses t := by
  rw [usedTables, mem_append, Integrand.Uses]
  refine or_congr ?_ ?_
  · simp [mem_filterMap]
  · simp [mem_flatMap]

/-- The arrays that are stored are those of the references that a kernel reads. -/
lemma mem_activeNames {name : String} :
    name ∈ activeNames i.factors i.blocks ↔ ∃ t, i.Uses t ∧ name ∈ arrayNames t := by
  rw [activeNames, Form.mem_distinct, mem_flatMap]
  exact exists_congr fun t => and_congr_left fun _ => mem_usedTables

/-! ## Where references come from -/

variable {tables : Tables} {g' : Graph Nat FactorVertex} {n : Nat × FactorVertex}
  {arrays : List (String × Dense Float)}

lemma mem_entries_of_tableOf {m : ModifiedTerminal} (h : tableOf tables m = some t) :
    ∃ n, TableEntry.terminal n t ∈ tables.entries := by
  obtain ⟨x, hx, hxt⟩ := exists_of_findSome?_eq_some h
  cases x with
  | factor f => cases hxt
  | terminal n u =>
    dsimp only at hxt
    split at hxt
    · exact ⟨n, Option.some.inj hxt ▸ hx⟩
    · cases hxt

lemma table_of_factorize {S : Graph Nat Vertex} {G : Graph Nat FactorVertex}
    (h : (Factor.factorize S rank).graph = .ok G) : ∀ n ∈ G.nodes, n.2.table = none := by
  unfold Factor.factorize at h
  split at h
  · cases h
  · dsimp only at h
    obtain ⟨factors, -, byComponent, -, h⟩ := bind₂_eq_ok.1 h
    intro n hn
    rw [Factor.nodes_connect h] at hn
    have htable : n.2.table ∈ (Factor.markTargets (factors.map fun e => { expr := e })
        byComponent).map (·.table) := mem_map.2 ⟨n.2, (of_mem_zip hn).2, rfl⟩
    rw [Factor.map_markTargets _ fun _ _ _ => rfl, map_map] at htable
    obtain ⟨_, -, hnone⟩ := mem_map.1 htable
    exact hnone.symm

lemma table_of_withTables (hg : ∀ n ∈ g.nodes, n.2.table = none) (h : withTables tables g = .ok g')
    (hn : n ∈ g'.nodes) (ht : n.2.table = some t) : ∃ m, TableEntry.terminal m t ∈ tables.entries :=
  by
  obtain ⟨nodes, hnodes, h⟩ := bind_eq_ok.1 h
  cases h
  obtain ⟨⟨i, v⟩, hv, hstep⟩ := exists_of_mapM hnodes hn
  dsimp only at hstep
  split at hstep
  · obtain ⟨m, -, hstep⟩ := bind_eq_ok.1 hstep
    cases hstep
    exact mem_entries_of_tableOf ht
  · cases hstep
    rw [hg _ hv] at ht
    cases ht

/-- The analysis of factors keeps their tables. -/
lemma table_of_analyse (h : Factor.analyse g = .ok g') (hn : n ∈ g'.nodes) :
    ∃ v, (n.1, v) ∈ g.nodes ∧ v.table = n.2.table := by
  obtain ⟨start, -, h⟩ := bind_eq_ok.1 h
  cases h
  obtain ⟨⟨i, v⟩, hv, rfl⟩ := mem_map.1 hn
  exact ⟨v, hv, rfl⟩

lemma forall_mem_appendTo {κ α : Type} [BEq κ] {P : α → Prop} {key : κ} {value : α}
    {l : List (κ × List α)} (hl : ∀ b ∈ l, ∀ x ∈ b.2, P x) (hvalue : P value) :
    ∀ b ∈ appendTo key value l, ∀ x ∈ b.2, P x := by
  induction l with
  | nil => simpa [appendTo] using hvalue
  | cons p l ih =>
    rw [forall_mem_cons] at hl
    rw [appendTo]
    split
    · rw [forall_mem_cons]
      refine ⟨fun x hx => ?_, hl.2⟩
      rcases mem_append.1 hx with hx | hx
      · exact hl.1 x hx
      · exact mem_singleton.1 hx ▸ hvalue
    · rw [forall_mem_cons]
      exact ⟨hl.1, ih hl.2⟩

lemma table_of_blockOf {product : List Nat × List (Nat × Nat)} {b : BlockMap × Block}
    (h : blockOf g arrays rank product = .ok b) :
    ∀ a ∈ b.2.arguments, ∃ n ∈ g.nodes, n.2.table = some a.table := by
  obtain ⟨_, -, tables, htables, _, -, _, -, h⟩ := bind₄_eq_ok.1 h
  cases h
  intro a ha
  obtain ⟨⟨i, t⟩, hmem, rfl⟩ := mem_map.1 ha
  obtain ⟨j, -, hj⟩ := exists_of_mapM htables (of_mem_zip hmem).2
  obtain ⟨v, hv, hvt⟩ := Option.bind_eq_some_iff.1 (orMisfit_eq_ok.1 hj)
  exact ⟨(j, v), mem_of_lookup_eq_some hv, hvt⟩

lemma table_of_blocksOf {products : List (List Nat × List (Nat × Nat))}
    {blocks : List (BlockMap × List Block)} (h : blocksOf g arrays rank products = .ok blocks) :
    ∀ b ∈ blocks, ∀ block ∈ b.2, ∀ a ∈ block.arguments, ∃ n ∈ g.nodes,
    n.2.table = some a.table := by
  refine foldlM_induction (fun blocks => ∀ b ∈ blocks, ∀ block ∈ b.2, ∀ a ∈ block.arguments,
    ∃ n ∈ g.nodes, n.2.table = some a.table) (by simp) ?_ h
  intro blocks p blocks' _ hblocks hstep
  obtain ⟨b, hb, hstep⟩ := bind_eq_ok.1 hstep
  cases hstep
  exact forall_mem_appendTo hblocks (table_of_blockOf hb)

/-! ## Representing one more integrand -/

/-- What representing the integrand of one more rule does: its references are those that have been
    built for its terminals, and the arrays that it reads are stored. -/
lemma addIntegrand_eq_ok {task : Task} {done rep : Representation} {rule : Rule} {e : Expr}
    (h : addIntegrand task done rule e = .ok rep) :
    ∃ scalar terminals tables new, Scalar.scalarGraph (withoutWeight e) = .ok scalar ∧
      modifiedTerminals scalar = .ok terminals ∧
      buildTables (task.setting rule) (terminals.map (·.2)) done.tables = .ok tables ∧
      new.rule = rule ∧ (∀ t, new.Refers t → ∃ m, TableEntry.terminal m t ∈ tables.entries) ∧
      rep.integrands = done.integrands ++ [new] ∧
      rep.tables = (storedArrays tables (activeNames new.factors new.blocks)).foldl
        (fun out x => assign x.1 x.2.2 out) done.tables ∧
      rep.kinds = (storedArrays tables (activeNames new.factors new.blocks)).foldl
        (fun out x => assign x.1 x.2.1 out) done.kinds := by
  obtain ⟨scalar, hscalar, terminals, hterminals, tables, htables, scalar', -, h⟩ := bind₄_eq_ok.1 h
  obtain ⟨-, h⟩ := ite_throw_eq_ok h
  obtain ⟨g, hg, products, -, g₁, hg₁, g₂, hg₂, blocks, hblocks, h⟩ := bind₅_eq_ok.1 h
  obtain ⟨_, -, h⟩ := bind_eq_ok.1 h
  have hnode : ∀ n ∈ g₂.nodes, ∀ t, n.2.table = some t →
      ∃ m, TableEntry.terminal m t ∈ tables.entries := by
    intro n hn t ht
    obtain ⟨v, hv, hvt⟩ := table_of_analyse hg₂ hn
    exact table_of_withTables (table_of_factorize hg) hg₁ hv (hvt.trans ht)
  cases h
  refine ⟨scalar, terminals, tables, _, hscalar, hterminals, htables, rfl, fun t ht => ?_,
    rfl, rfl, rfl⟩
  rcases ht with ⟨n, hn, hnt⟩ | ⟨b, hb, block, hblock, a, ha, rfl⟩
  · exact hnode n hn t hnt
  · obtain ⟨n, hn, hnt⟩ := table_of_blocksOf hblocks b hb block hblock a ha
    exact hnode n hn _ hnt

end FormKernel.Integral
