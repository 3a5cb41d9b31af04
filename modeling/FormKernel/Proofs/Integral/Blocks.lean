import FormKernel.Proofs.Factor.Reach
import FormKernel.Proofs.Integral.Resolution

/-!
# Blocks account for the factorisation

The terms of a factorisation are grouped twice: by their products of arguments, each of which gives
a block, and the blocks by the degrees of freedom that they touch.  Grouping loses nothing and
repeats nothing.
-/

namespace FormKernel.Integral

open Factor (FactorVertex isArgumentExpr terms)
open Form (Builder Expr)
open Quadrature (Rule)
open List

/-! ## Grouping -/

section Grouping

variable {κ α : Type}

/-- The entries of groups, each with its key. -/
def entries (groups : List (κ × List α)) : List (κ × α) :=
  groups.flatMap fun g => g.2.map fun x => (g.1, x)

/-- Items in groups with different keys, none of which is empty. -/
structure Grouped (groups : List (κ × List α)) (items : List (κ × α)) : Prop where
  nodup : (groups.map (·.1)).Nodup
  perm : (entries groups).Perm items
  mem : ∀ k ∈ groups.map (·.1), k ∈ items.map (·.1)

lemma grouped_nil : Grouped ([] : List (κ × List α)) [] := ⟨nodup_nil, .refl _, by simp⟩

variable [BEq κ] [LawfulBEq κ]

lemma entries_appendTo (key : κ) (value : α) (groups : List (κ × List α)) :
    (entries (appendTo key value groups)).Perm (entries groups ++ [(key, value)]) := by
  induction groups with
  | nil => exact .refl _
  | cons g groups ih =>
    rw [appendTo]
    split
    · next hkey =>
      rw [entries, flatMap_cons, map_append, ← eq_of_beq hkey, append_assoc]
      exact perm_append_comm.append_left _ |>.trans (by simp [entries])
    · simpa [entries] using ih.append_left (g.2.map fun x => (g.1, x))

variable {groups : List (κ × List α)}

lemma mem_keys_appendTo {key k : κ} {value : α} :
    k ∈ (appendTo key value groups).map (·.1) ↔ k ∈ groups.map (·.1) ∨ k = key := by
  induction groups with
  | nil => simp [appendTo]
  | cons g groups ih =>
    rw [appendTo]
    split
    · next hkey =>
      rw [map_cons, map_cons, mem_cons, ← eq_of_beq hkey]
      tauto
    · rw [map_cons, mem_cons, ih, map_cons, mem_cons, or_assoc]

lemma nodup_keys_appendTo (key : κ) (value : α) (h : (groups.map (·.1)).Nodup) :
    ((appendTo key value groups).map (·.1)).Nodup := by
  induction groups with
  | nil => simp [appendTo]
  | cons g groups ih =>
    rw [map_cons, nodup_cons] at h
    rw [appendTo]
    split
    · simpa using h
    · next hkey =>
      rw [map_cons, nodup_cons, mem_keys_appendTo, not_or]
      exact ⟨⟨h.1, fun heq => hkey (beq_iff_eq.2 heq)⟩, ih h.2⟩

lemma Grouped.appendTo {groups : List (κ × List α)} {items : List (κ × α)}
    (h : Grouped groups items) (key : κ) (value : α) :
    Grouped (appendTo key value groups) (items ++ [(key, value)]) where
  nodup := nodup_keys_appendTo key value h.nodup
  perm := (entries_appendTo key value groups).trans (h.perm.append_right _)
  mem k hk := by
    rw [map_append, mem_append]
    rcases mem_keys_appendTo.1 hk with hk | rfl
    · exact .inl (h.mem k hk)
    · exact .inr (mem_singleton_self _)

/-- Grouping one item after another. -/
lemma Grouped.foldl {β : Type} {groups : List (κ × List α)} {items : List (κ × α)}
    (h : Grouped groups items) (key : β → κ) (value : β → α) (xs : List β) :
    Grouped (xs.foldl (fun out x => Integral.appendTo (key x) (value x) out) groups)
      (items ++ xs.map fun x => (key x, value x)) := by
  induction xs generalizing groups items with
  | nil => simpa using h
  | cons x xs ih => simpa using ih (h.appendTo (key x) (value x))

end Grouping

/-! ## Products of arguments -/

/-- The terms of a graph, by their products of arguments. -/
lemma grouped_argumentProducts {g : Graph Nat FactorVertex}
    {products : List (List Nat × List (Nat × Nat))} (h : argumentProducts g = .ok products) :
    Grouped products ((terms g).map fun t => (t.2.1, t.1, t.2.2)) := by
  rw [terms, map_flatMap]
  refine foldlM_prefix (fun (passed : List (Nat × FactorVertex)) products =>
    Grouped products (passed.flatMap fun n => ((n.2.targets.zip n.2.components).map fun p =>
      (n.1, p.1, p.2)).map fun t => (t.2.1, t.1, t.2.2)))
    grouped_nil ?_ h
  intro passed n rest products products' _ hproducts hstep
  obtain ⟨_, -, hstep⟩ := bind_eq_ok.1 hstep
  cases hstep
  simpa [Function.comp_def] using
    hproducts.foldl (fun p => p.1) (fun p => (n.1, p.2)) (n.2.targets.zip n.2.components)

def Block.places (b : Block) : List Nat := b.arguments.map (·.place)

def Block.terms (b : Block) : List (Nat × List Nat × Nat) :=
  b.factors.map fun p => (p.1, b.places, p.2)

section Blocks

variable {g : Graph Nat FactorVertex} {arrays : List (String × Dense Float)} {rank : Nat}
  {products : List (List Nat × List (Nat × Nat))}

/-- The block of a product of arguments, filed under the degrees of freedom of its tables. -/
lemma blockOf_eq_ok {p : List Nat × List (Nat × Nat)} {b : BlockMap × Block}
    (h : blockOf g arrays rank p = .ok b) :
    b.2.places = p.1 ∧ b.2.factors = p.2 ∧ b.1 = b.2.arguments.map (dofsOf ·.table) ∧
      ∀ a ∈ b.2.arguments, ((g.data? a.place).bind (·.table)) = some a.table := by
  obtain ⟨_, -, tables, htables, _, -, _, -, h⟩ := bind₄_eq_ok.1 h
  cases h
  have hall := mapM_eq_ok.1 htables
  have hlength := hall.length_eq
  refine ⟨?_, rfl, ?_, ?_⟩
  · simp [Block.places, Function.comp_def, map_fst_zip hlength.le]
  · conv_lhs => rw [← map_snd_zip hlength.ge]
    simp [Function.comp_def]
  · intro a ha
    obtain ⟨⟨i, t⟩, hmem, rfl⟩ := mem_map.1 ha
    exact orMisfit_eq_ok.1 ((forall₂_iff_zip.1 hall).2 hmem)

variable {blocks : List (BlockMap × List Block)}

/-- The blocks of all products of arguments, by the degrees of freedom. -/
lemma grouped_blocksOf (h : blocksOf g arrays rank products = .ok blocks) :
    ∃ bs, Forall₂ (fun p b => blockOf g arrays rank p = .ok b)
      (products.mergeSort fun a b => (compare a.1 b.1).isLE) bs ∧ Grouped blocks bs := by
  refine foldlM_prefix (fun (passed : List (List Nat × List (Nat × Nat))) blocks =>
    ∃ bs, Forall₂ (fun p b => blockOf g arrays rank p = .ok b) passed bs ∧
      Grouped blocks bs) ⟨[], .nil, grouped_nil⟩ ?_ h
  intro passed p rest blocks blocks' _ hblocks hstep
  obtain ⟨bs, hbs, hgrouped⟩ := hblocks
  obtain ⟨b, hb, hstep⟩ := bind_eq_ok.1 hstep
  cases hstep
  exact ⟨bs ++ [b], rel_append hbs (.cons hb .nil), hgrouped.appendTo b.1 b.2⟩

/-- The blocks stand for the terms of the products, each of which has one block. -/
lemma terms_blocksOf (h : blocksOf g arrays rank products = .ok blocks) :
    ((blocks.flatMap (·.2)).flatMap Block.terms).Perm
        ((entries products).map fun e => (e.2.1, e.1, e.2.2)) ∧
      ((blocks.flatMap (·.2)).map Block.places).Perm (products.map (·.1)) := by
  obtain ⟨bs, hbs, hgrouped⟩ := grouped_blocksOf h
  have hblocks : ((blocks.flatMap (·.2)).map fun b => (b.places, b.factors)).Perm products := by
    have hflat : blocks.flatMap (·.2) = (entries blocks).map (·.2) := by
      simp [entries, map_flatMap, Function.comp_def]
    have hsame : bs.map (fun b => (b.2.places, b.2.factors)) =
        products.mergeSort fun a b => (compare a.1 b.1).isLE := by
      rw [← forall₂_eq_eq_eq, forall₂_map_left_iff]
      exact hbs.flip.imp fun b p hb => by rw [(blockOf_eq_ok hb).1, (blockOf_eq_ok hb).2.1]
    rw [hflat, map_map]
    exact ((hgrouped.perm.map _).trans (.of_eq hsame)).trans (mergeSort_perm _ _)
  constructor
  · have hterms := hblocks.flatMap_right fun p => p.2.map fun q => (q.1, p.1, q.2)
    rw [flatMap_map] at hterms
    refine hterms.trans (.of_eq ?_)
    simp [entries, map_flatMap, Function.comp_def]
  · have hplaces := hblocks.map (·.1)
    rwa [map_map] at hplaces

end Blocks

/-! ## Integrands -/

section Integrand

/-- What tables and the analysis of dependencies leave alone about a factor. -/
def outline (n : Nat × FactorVertex) : Nat × Expr × List (List Nat) × List Nat :=
  (n.1, n.2.expr, n.2.targets, n.2.components)

variable {G g₁ g₂ : Graph Nat FactorVertex} {tables : Table.Tables}

lemma outline_withTables (h : withTables tables G = .ok g₁) :
    g₁.nodes.map outline = G.nodes.map outline := by
  obtain ⟨nodes, hnodes, h⟩ := bind_eq_ok.1 h
  cases h
  refine map_eq_of_mapM hnodes fun n _ y hy => ?_
  dsimp only at hy
  split at hy
  · obtain ⟨m, -, hy⟩ := bind_eq_ok.1 hy
    rw [← pure_eq_ok.1 hy]
    rfl
  · rw [← pure_eq_ok.1 hy]

lemma outline_analyse (h : Factor.analyse g₁ = .ok g₂) :
    g₂.nodes.map outline = g₁.nodes.map outline := by
  obtain ⟨start, -, h⟩ := bind_eq_ok.1 h
  rw [← pure_eq_ok.1 h, Graph.mapData, map_map]
  rfl

lemma terms_congr (h : g₂.nodes.map outline = G.nodes.map outline) : terms g₂ = terms G := by
  have hterms : ∀ g : Graph Nat FactorVertex, terms g = (g.nodes.map outline).flatMap fun o =>
      (o.2.2.1.zip o.2.2.2).map fun p => (o.1, p.1, p.2) := fun g => by
    rw [flatMap_map]
    rfl
  rw [hterms, hterms, h]

/-- Places from zero on, put in order. -/
lemma mergeSort_eq_range {l : List Nat} {n : Nat} (hl : l.Nodup) (h : ∀ a, a ∈ l ↔ a < n) :
    l.mergeSort = range n := by
  have hperm : l.mergeSort.Perm (range n) :=
    (mergeSort_perm l _).trans
      ((perm_ext_iff_of_nodup hl nodup_range).2 (by simpa using h))
  exact hperm.eq_of_pairwise (fun _ _ _ _ => Nat.le_antisymm) (Factor.pairwise_mergeSort_nat l)
    pairwise_le_range

lemma plainGraph_withoutZeros [Builder] (hB : KeepsPlain)
    {terminals : List (Nat × Form.ModifiedTerminal)} {shape : List Nat}
    {S S' : Graph Nat Graph.Vertex} (hS : PlainGraph S)
    (h : withoutZeros tables terminals shape S = .ok S') : PlainGraph S' := by
  unfold withoutZeros at h
  dsimp only at h
  split at h
  · obtain ⟨e, -, h⟩ := bind_eq_ok.1 h
    exact plainGraph_of_scalarGraph hB h
  · cases h
    exact hS

end Integrand

/-- The blocks of an integrand account for the factorisation of its scalar graph. -/
structure Accounted [Builder] (rank : Nat) (i : Integrand) : Prop where
  factorized : ∃ G, (Factor.factorize i.scalar rank).graph = .ok G ∧ terms i.factors = terms G
  /-- A product of arguments has one factor for each component. -/
  unique : ((terms i.factors).map (·.2)).Nodup
  /-- Each term is in one block, once, and no block has other terms. -/
  terms : ((i.blocks.flatMap (·.2)).flatMap Block.terms).Perm (terms i.factors)
  places : ((i.blocks.flatMap (·.2)).map Block.places).Nodup
  /-- A block is filed under the degrees of freedom of the tables of its arguments. -/
  filed : ∀ p ∈ i.blocks, ∀ b ∈ p.2,
    p.1 = b.arguments.map (fun a => (range ((a.table.values.shape[3]?).getD 0)).map fun (d : Nat) =>
      (a.table.offset : Int) + (d : Int) * a.table.blockSize) ∧
    ∀ a ∈ b.arguments, (i.factors.data? a.place).bind (·.table) = some a.table
  arguments : ∀ n ∈ i.scalar.nodes, isArgumentExpr n.2.expr = true →
    ∃ t ∈ Factor.terms i.factors, ∃ a ∈ t.2.1, ∃ w, (a, w) ∈ i.factors.nodes ∧ w.expr = n.2.expr
  /-- The modified argument at a place is that of the factor with this number. -/
  named : ∀ p ∈ i.blocks, ∀ b ∈ p.2, ∀ a ∈ b.places, ∃ v m, i.factors.data? a = some v ∧
    v.terminal = some m ∧ i.argument? a = some m

section Run

variable {task : Task} {done rep : Representation}

/-- Representing the integrand of one more rule. -/
lemma accounted_addIntegrand [Builder] (hB : KeepsPlain) {rule : Rule} {e : Expr}
    (h : addIntegrand task done rule e = .ok rep) :
    ∃ new, rep.integrands = done.integrands ++ [new] ∧ Accounted task.rank new := by
  obtain ⟨scalar, hscalar, terminals, -, tables, -, S, hS, h⟩ := bind₄_eq_ok.1 h
  obtain ⟨-, h⟩ := ite_throw_eq_ok h
  obtain ⟨G, hG, products, hproducts, g₁, hg₁, g, hg, blocks, hblocks, h⟩ := bind₅_eq_ok.1 h
  obtain ⟨ms, hms, h⟩ := bind_eq_ok.1 h
  cases h
  have hplain := plainGraph_withoutZeros hB (plainGraph_of_scalarGraph hB hscalar) hS
  have houtline := (outline_analyse hg).trans (outline_withTables hg₁)
  have hterms := terms_congr houtline
  obtain ⟨arguments, hargs, hnodup, hplaces, hexpr⟩ := Factor.terms_factorize hplain hG
  have hgrouped := grouped_argumentProducts hproducts
  obtain ⟨hblockTerms, hblockPlaces⟩ := terms_blocksOf hblocks
  obtain ⟨bs, hbs, hfiled⟩ := grouped_blocksOf hblocks
  -- the places of products are those of terms, so they are the numbers of all arguments
  have hplace : ∀ a, a ∈ products.flatMap (·.1) ↔ a < arguments.length := by
    intro a
    rw [← hplaces, mem_flatMap]
    constructor
    · rintro ⟨p, hp, ha⟩
      have hmem := hgrouped.mem p.1 (mem_map_of_mem hp)
      rw [map_map] at hmem
      obtain ⟨t, ht, htp⟩ := mem_map.1 hmem
      have hkey : t.2.1 = p.1 := htp
      exact ⟨t, ht, hkey ▸ ha⟩
    · rintro ⟨t, ht, ha⟩
      have hmem := hgrouped.perm.mem_iff.2 (mem_map_of_mem ht)
      obtain ⟨p, hp, hx⟩ := mem_flatMap.1 hmem
      obtain ⟨x, -, hx⟩ := mem_map.1 hx
      exact ⟨p, hp, (Prod.mk.inj hx).1 ▸ ha⟩
  have hrange : (Form.distinct (products.flatMap (·.1))).mergeSort = range arguments.length :=
    mergeSort_eq_range (Form.nodup_distinct _) (by simpa using hplace)
  refine ⟨_, rfl, ⟨G, hG, hterms⟩, hterms ▸ hnodup, ?_, ?_, ?_, ?_, ?_⟩
  · refine hblockTerms.trans ((hgrouped.perm.map _).trans (.of_eq ?_))
    simp [hterms, Function.comp_def]
  · exact hblockPlaces.nodup_iff.2 hgrouped.nodup
  · intro p hp b hb
    have hmem : (p.1, b) ∈ entries blocks := mem_flatMap.2 ⟨p, hp, mem_map_of_mem hb⟩
    obtain ⟨q, -, hq⟩ := exists_of_forall₂_right hbs (hfiled.perm.mem_iff.1 hmem)
    exact (blockOf_eq_ok hq).2.2
  · intro n hn harg
    obtain ⟨a, ha⟩ := mem_iff_getElem?.1 ((Factor.mem_argumentNodes hargs).2 ⟨n.2, hn, harg⟩)
    obtain ⟨v, w, hv, hw, hwv⟩ := hexpr ha
    obtain rfl : v = n.2 := Option.some.inj
      ((hplain.data?_eq_some.2 hv).symm.trans (hplain.data?_eq_some.2 hn))
    obtain ⟨t, ht, hat⟩ := (hplaces a).2 (List.getElem?_eq_some_iff.1 ha).1
    have hmem : outline (a, w) ∈ g.nodes.map outline := houtline ▸ mem_map_of_mem hw
    obtain ⟨⟨b, u⟩, hu, hub⟩ := mem_map.1 hmem
    obtain ⟨rfl, hrest⟩ := Prod.mk.inj hub
    exact ⟨t, hterms ▸ ht, b, hat, u, hu, (Prod.mk.inj hrest).1.trans hwv⟩
  · intro p hp b hb a ha
    have hmem : b.places ∈ products.map (·.1) := hblockPlaces.mem_iff.1
      (mem_map_of_mem (mem_flatMap.2 ⟨p, hp, hb⟩))
    obtain ⟨q, hq, hqb⟩ := mem_map.1 hmem
    have hlt := (hplace a).1 (mem_flatMap.2 ⟨q, hq, hqb ▸ ha⟩)
    rw [hrange] at hms ⊢
    obtain ⟨m, -, hm⟩ := exists_of_forall₂_right (mapM_eq_ok.1 hms).flip (mem_range.2 hlt)
    obtain ⟨v, hv, hvm⟩ := Option.bind_eq_some_iff.1 (orMisfit_eq_ok.1 hm)
    exact ⟨v, m, hv, hvm, by simp [Integrand.argument?, hlt, hv, hvm]⟩

/-- The blocks of every integrand of a representation account for its factorisation. -/
theorem blocks_represent [Builder] (hB : KeepsPlain) {integrands : List (Rule × Expr)}
    (h : represent task integrands = .ok rep) : ∀ i ∈ rep.integrands, Accounted task.rank i := by
  obtain ⟨rules, -, h⟩ := bind_eq_ok.1 h
  refine foldlM_induction (fun done : Representation => ∀ i ∈ done.integrands,
    Accounted task.rank i) (by simp) ?_ h
  intro done p next _ hdone hadd
  obtain ⟨new, hnew, haccounted⟩ := accounted_addIntegrand hB hadd
  rw [hnew]
  exact List.forall_mem_append.2 ⟨hdone, by simpa using haccounted⟩

end Run

/-! ### Two blocks on a triangle -/

def blockMesh : Form.Domain := { id := 0, cell := .triangle, gdim := 2, coordinate := none }

/-- An element on a triangle with the functions `1` and `x`. -/
def abscissaElement : Form.Element := { (default : Form.Element) with
  cell := .triangle, basis := [[(1.0, [0, 0])], [(1.0, [1, 0])]], components := [(none, 0, 1)]
  dim := 2 }

/-- An element on a triangle with the function `y`. -/
def ordinateElement : Form.Element := { (default : Form.Element) with
  id := 1, cell := .triangle, basis := [[(1.0, [0, 1])]], components := [(none, 0, 1)], dim := 1 }

/-- A vector whose components alternate. -/
def testVector : Expr :=
  let element : Form.Element := { (default : Form.Element) with
    id := 2, cell := .triangle, shape := [2], dim := 4, blockSize := 2
    components := [(some abscissaElement, 0, 2), (some abscissaElement, 1, 2)] }
  .operator .referenceValue
    [.terminal (.argument 0 none ⟨0, element, some blockMesh, [2]⟩ none)] [2] [] []

/-- A vector whose components follow each other. -/
def trialVector : Expr :=
  let element : Form.Element := { (default : Form.Element) with
    id := 3, cell := .triangle, shape := [2], dim := 3
    components := [(some abscissaElement, 0, 1), (some ordinateElement, 2, 1)] }
  .operator .referenceValue
    [.terminal (.argument 1 none ⟨1, element, some blockMesh, [2]⟩ none)] [2] [] []

/-- The integrand `v₀ u₀ + (v₁ u₀ + v₀ u₁)`; the component `u₁` vanishes for `y = 0`. -/
def coupling : Expr :=
  .sum (.product (testVector.component [0]) (trialVector.component [0]))
    (.sum (.product (testVector.component [1]) (trialVector.component [0]))
      (.product (testVector.component [0]) (trialVector.component [1])))

section Sorting

variable {α : Type} {le : α → α → Bool}

/-- Merging sorts as insertion does, and that can be computed from the definition. -/
lemma mergeSort_eq_insertionSort (htrans : ∀ a b c, le a b → le b c → le a c)
    (htotal : ∀ a b, le a b || le b a) (l : List α) :
    l.mergeSort le = l.insertionSort (fun a b => le a b = true) := by
  induction l with
  | nil => exact mergeSort_nil
  | cons a l ih =>
    obtain ⟨l₁, l₂, hcons, hl, hbefore⟩ := mergeSort_cons htrans htotal a l
    have hsorted := pairwise_mergeSort htrans htotal (a :: l)
    rw [hcons, pairwise_append, pairwise_cons] at hsorted
    rw [hcons, insertionSort_cons, ← ih, hl, orderedInsert_eq_take_drop, takeWhile_append_of_pos,
      dropWhile_append_of_pos]
    · cases l₂ with
      | nil => simp
      | cons b l₂ => simp [hsorted.2.1.1 b]
    · simpa using hbefore
    · simpa using hbefore

lemma mergeSort_numbers (l : List Nat) :
    l.mergeSort = l.insertionSort (fun a b => decide (a ≤ b) = true) :=
  mergeSort_eq_insertionSort (by simpa using fun a b c => le_trans) (by simpa using le_total) l

lemma mergeSort_elements (l : List Form.Element) : (l.mergeSort fun a b => a.id ≤ b.id) =
    l.insertionSort (fun a b => decide (a.id ≤ b.id) = true) :=
  mergeSort_eq_insertionSort (by simpa using fun a b c => le_trans)
    (by simpa using fun a b => le_total _ _) l

lemma mergeSort_keys (l : List (List Nat)) : (l.mergeSort fun a b => !(decide (b < a))) =
    l.insertionSort (fun a b => (!(decide (b < a))) = true) :=
  mergeSort_eq_insertionSort (by simpa using fun a b c => le_trans) (by simpa using le_total) l

lemma mergeSort_products (l : List (List Nat × List (Nat × Nat))) :
    (l.mergeSort fun a b => (compare a.1 b.1).isLE) =
      l.insertionSort (fun a b => (compare a.1 b.1).isLE = true) := by
  refine mergeSort_eq_insertionSort (fun _ _ _ => Std.TransCmp.isLE_trans) (fun a b => ?_) l
  have hswap : compare b.1 a.1 = (compare a.1 b.1).swap := Std.OrientedCmp.eq_swap
  rw [hswap]
  cases compare a.1 b.1 <;> rfl

end Sorting

/-- With a builder that leaves out zeros the integrand has two blocks, one for each component of
    the test vector. -/
theorem blocks_coupling : ∃ rep,
    @represent .folding { triangleTask .cell .cell with rank := 2 } [(pointRule 0.0, coupling)] =
        .ok rep ∧
      rep.integrands.map (fun i => i.blocks.map fun p => (p.1, p.2.map (·.places))) =
        [[([[0, 2], [0, 1]], [[0, 2]]), ([[1, 3], [0, 1]], [[1, 2]])]] ∧
      ∀ i ∈ rep.integrands, @Accounted .folding 2 i := by
  have hrun : (@represent .folding { triangleTask .cell .cell with rank := 2 }
      [(pointRule 0.0, coupling)]).toOption.any (fun rep => rep.integrands.map (fun i =>
        i.blocks.map fun p => (p.1, p.2.map (·.places))) ==
          [[([[0, 2], [0, 1]], [[0, 2]]), ([[1, 3], [0, 1]], [[1, 2]])]]) = true := by
    delta represent addIntegrand Table.buildTables Table.elementNumbers Form.Element.sortUnique
      Factor.factorize Factor.nodeFactors Factor.combine Factor.sum Factor.product Factor.sorted
      Factor.sortKeys Factor.targetFactors blocksOf
    simp only [mergeSort_numbers, mergeSort_elements, mergeSort_keys, mergeSort_products]
    decide +kernel
  obtain ⟨rep, hrep, hblocks⟩ := any_toOption.1 hrun
  have hplain : @KeepsPlain .folding :=
    @keepsPlain_of_elementary .folding Builder.elementary_folding
  exact ⟨rep, hrep, eq_of_beq hblocks, @blocks_represent _ _ .folding hplain _ hrep⟩

end FormKernel.Integral
