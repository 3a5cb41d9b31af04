import FormKernel.Proofs.Integral.Resolution
import FormKernel.Proofs.Integral.Variables
import FormKernel.Proofs.Reference.GeometryTable
import FormKernel.Proofs.Table.Factors

/-!
# Names that a kernel declares

A name tells by its first letters what it stands for: the weights of a rule, a table of basis
functions, geometry of the reference cell, the value of a terminal, an intermediate value or a
factor times a weight.  So names can only clash within one of these families.
-/

namespace FormKernel.Integral

open Binding (Layout computedIn)
open Factor (FactorVertex)
open Form (Cell Expr ModifiedTerminal Quantity)
open Kernel (Operand Stmt Symbol)
open Quadrature (Rule)
open Reference (CellData GeometryTable)
open Table (TableEntry Tables)
open List

/-! ## Families -/

inductive Family where
  | weights | table | geometry | value | intermediate | product
  deriving DecidableEq

/-- What a name stands for, by its first letters. -/
def Family.of (name : String) : Family :=
  match name.toList with
  | 'w' :: 'e' :: _ => .weights
  | 'w' :: _ | 'x' :: _ | 'J' :: _ => .value
  | 'F' :: _ => .table
  | 's' :: _ => .intermediate
  | 'f' :: _ => .product
  | _ => .geometry

/-- Names of different families do not clash. -/
lemma nodup_append_of_family {xs ys : List String} (hxs : xs.Nodup) (hys : ys.Nodup)
    (h : ∀ x ∈ xs, ∀ y ∈ ys, Family.of x ≠ Family.of y) : (xs ++ ys).Nodup :=
  nodup_append.2 ⟨hxs, hys, fun x hx y hy hxy => h x hx y hy (by rw [hxy])⟩

/-! ## Variables -/

/-- The factors of all rules. -/
def Representation.vertices (r : Representation) : List FactorVertex :=
  r.integrands.flatMap fun i => i.factors.nodes.map (·.2)

/-- A number does not start with a letter. -/
lemma exists_toList_int (n : Int) : ∃ c cs, (toString n).toList = c :: cs ∧ c ≠ 'e' := by
  have hletter : 'e' ∉ (toString n).toList := by
    have hdigits : ∀ k : Nat, 'e' ∉ Nat.toDigits 10 k := fun k hk =>
      absurd (Nat.isDigit_of_mem_toDigits (by decide) (by decide) hk) (by decide)
    rw [Int.toString_eq_repr, Int.repr_eq_if]
    split <;> simp [hdigits]
  cases hdigits : (toString n).toList with
  | nil =>
    rw [Int.toString_eq_repr, Int.repr_eq_if] at hdigits
    split at hdigits <;> simp at hdigits
  | cons c cs => exact ⟨c, cs, rfl, fun hc => hletter (by rw [hdigits, hc]; exact mem_cons_self)⟩

variable {l : Layout} {r : Representation} {code : List Operand} {data : CellData} {x : String}
  {rule : Rule} {names : List String} {known : List (Quantity × GeometryTable)}
  {used : List (Quantity × String)}

lemma family_variableOf {m : ModifiedTerminal} {s : Symbol} (h : Binding.variableOf l m = .ok s) :
    Family.of s.name = .value := by
  obtain ⟨b, -, hname⟩ := Binding.toList_variableOf h
  rw [Family.of, hname]
  cases b with
  | coefficient n =>
    obtain ⟨c, cs, hdigits, hc⟩ := exists_toList_int n
    have hbase : (Binding.VariableBase.coefficient n).text.toList = 'w' :: c :: cs := by
      rw [← hdigits]
      exact String.toList_append ..
    rw [hbase]
    split <;> simp_all
  | jacobian | coordinate => rfl

lemma family_computedIn {v : FactorVertex}
    (h : computedIn l v = some x) : Family.of x = .value := by
  obtain ⟨m, s, -, hs, rfl⟩ := Binding.exists_of_computedIn h
  exact family_variableOf hs

/-! ## Tables -/

lemma family_tableName {n : Nat} {averaged : Option Form.Average} {entity : Form.EntityKind}
    {ds : List Nat} {c : Option Int} {name : String}
    (h : Table.tableName rule n averaged entity ds c = .ok name) : Family.of name = .table := by
  obtain ⟨_, _, -, -, hname⟩ := Table.tableName_eq_ok h
  rw [Family.of, hname]
  rfl

lemma family_factorName (place : Nat) : Family.of (Table.factorName place) = .table := by
  rw [Family.of, Table.toList_factorName]
  rfl

structure NamedTables (tables : Tables) : Prop where
  arrays : ∀ a ∈ tables.arrays, Family.of a.1 = .table
  entries : ∀ x ∈ tables.entries, Family.of x.name = .table

lemma NamedTables.addTable {s : Table.Setting} {numbers : List Form.Element}
    {tables tables' : Tables}
    {known : List (String × Dense Float)} {m : ModifiedTerminal} {e : Table.TerminalElement}
    (h : NamedTables tables) (hfactored : Table.Factored known tables)
    (hadd : Table.addTable s numbers tables (m, e) = .ok tables') : NamedTables tables' := by
  have hfactored' := hfactored.addTable hadd
  obtain ⟨name, r, t, hname, -, hshare, hsplit, -, hentries⟩ := Table.addTable_eq_ok hadd
  have hown := family_tableName hname
  obtain ⟨hshared, harrays⟩ : Family.of t.name = .table ∧
      ∀ a ∈ tables'.arrays, Family.of a.1 = .table := by
    rw [Table.share] at hshare
    split at hshare
    · next found hfound =>
      obtain ⟨rfl, harrays⟩ := Prod.mk.inj hshare
      exact ⟨h.arrays _ (mem_of_find?_eq_some hfound), harrays ▸ h.arrays⟩
    · obtain ⟨hnamed, harrays⟩ := Prod.mk.inj hshare
      obtain ⟨rfl, -⟩ := Prod.mk.inj hnamed
      refine ⟨hown, fun a ha => ?_⟩
      rw [← harrays] at ha
      rcases mem_assign ha with rfl | ha
      · exact hown
      · exact h.arrays a ha
  refine ⟨harrays, fun x hx => ?_⟩
  cases x with
  | factor f =>
    obtain ⟨place, hplace⟩ := hfactored'.numbered.isFactorName ((hfactored'.entry f).1 hx)
    rw [TableEntry.name, hplace, family_factorName]
  | terminal n u =>
    rw [hentries] at hx
    rcases Table.mem_putTerminal hx with hx | ⟨_, hx⟩
    · rcases mem_append.1 hx with hx | hx
      · exact h.entries _ hx
      · obtain ⟨_, -, hx⟩ := mem_map.1 hx
        cases hx
    · obtain ⟨-, rfl⟩ := TableEntry.terminal.inj hx
      exact hshared

lemma namedTables_buildTables {s : Table.Setting} {terminals : List ModifiedTerminal}
    {known : List (String × Dense Float)} {tables : Tables}
    (hknown : ∀ a ∈ known, Family.of a.1 = .table)
    (h : Table.buildTables s terminals known = .ok tables) : NamedTables tables := by
  obtain ⟨tasks, -, hfold⟩ := Table.buildTables_eq_ok h
  have hboth := foldlM_induction (fun tables => Table.Factored known tables ∧ NamedTables tables)
    ⟨.start, hknown, by simp⟩ ?_ hfold
  · exact hboth.2
  · rintro tables ⟨m, e⟩ tables' - ⟨hfactored, hnamed⟩ hadd
    exact ⟨hfactored.addTable hadd, hnamed.addTable hfactored hadd⟩

/-- The tables of a representation have different names, all of them names of tables, and so have
    those that its integrands refer to. -/
structure Representation.Named (r : Representation) : Prop where
  nodup : (r.tables.map (·.1)).Nodup
  family : ∀ a ∈ r.tables, Family.of a.1 = .table
  refers : ∀ i ∈ r.integrands, ∀ t, i.Refers t → Family.of t.name = .table

lemma named_represent {task : Task} {integrands : List (Rule × Expr)}
    (h : represent task integrands = .ok r) : r.Named := by
  obtain ⟨rules, -, h⟩ := bind_eq_ok.1 h
  have hstart : Representation.Named {} := ⟨nodup_nil, forall_mem_nil _, forall_mem_nil _⟩
  refine foldlM_induction (fun r : Representation => r.Named) hstart ?_ h
  rintro done ⟨rule, e⟩ rep - hdone hstep
  obtain ⟨scalar, terminals, tables, new, -, -, htables, -, hrefers, hintegrands, hrep, -⟩ :=
    addIntegrand_eq_ok hstep
  have hnamed := namedTables_buildTables hdone.family htables
  refine ⟨by rw [hrep]; exact nodup_keys_foldl_assign hdone.nodup, fun a ha => ?_, ?_⟩
  · rw [hrep] at ha
    rcases mem_foldl_assign ha with ⟨x, hx, rfl⟩ | ha
    · obtain ⟨entry, hentry, hname, -⟩ := array_of_lookup_arraysOf (mem_storedArrays.1 hx).2.1
      exact hname ▸ hnamed.entries entry hentry
    · exact hdone.family a ha
  · rw [hintegrands]
    refine forall_mem_append.2 ⟨hdone.refers, forall_mem_singleton.2 fun t ht => ?_⟩
    obtain ⟨m, hm⟩ := hrefers t ht
    exact hnamed.entries _ hm

/-! ## Declarations before all loops -/

/-- Code that declares different names of one family, and nothing in scopes of its own. -/
structure Declares (family : Family) (code : List Operand) : Prop where
  nodup : (Operand.declaresAll code).Nodup
  family : ∀ x ∈ Operand.declaresAll code, Family.of x = family
  inner : Operand.innerAll code = []

lemma scopes_commented (code : List Operand) (comments : List String) :
    Operand.declaresAll (Stmt.commented code comments) = Operand.declaresAll code ∧
      Operand.innerAll (Stmt.commented code comments) = Operand.innerAll code := by
  rw [Stmt.commented]
  split
  · next hempty =>
    rw [isEmpty_iff.1 hempty]
    exact ⟨rfl, rfl⟩
  · have hdeclares : Operand.declaresAll (comments.map fun c => .stmt (.comment c)) = [] := by
      rw [Operand.declaresAll_eq_flatMap, flatMap_map]
      simp [Operand.declares, Stmt.declares]
    have hinner : Operand.innerAll (comments.map fun c => .stmt (.comment c)) = [] := by
      rw [Operand.innerAll_eq_flatMap, flatMap_map]
      simp [Operand.inner, Stmt.inner]
    rw [Operand.declaresAll_append, Operand.innerAll_append, hdeclares, hinner]
    exact ⟨rfl, rfl⟩

lemma Declares.commented {family : Family} {code : List Operand} (h : Declares family code)
    (comments : List String) : Declares family (Stmt.commented code comments) := by
  obtain ⟨hdeclares, hinner⟩ := scopes_commented code comments
  exact ⟨hdeclares ▸ h.nodup, hdeclares ▸ h.family, hinner.trans h.inner⟩

lemma ruleName_eq_ok {id : String} (h : rule.name = .ok id) : id = rule.id := by
  rw [Rule.name] at h
  split at h
  · exact (Except.ok.inj h).symm
  · cases h

/-- The weights of rules are named for the digits of the rules. -/
lemma scopes_weights (h : declareWeights l r = .ok code) :
    (∃ ids : List String, ids.Sublist (r.integrands.map fun i => i.rule.id) ∧
      Operand.declaresAll code = ids.map ("weights_" ++ ·)) ∧ Operand.innerAll code = [] := by
  rw [declareWeights] at h
  split at h
  · cases h
    exact ⟨⟨[], nil_sublist _, rfl⟩, rfl⟩
  · obtain ⟨parts, hparts, h⟩ := bind_eq_ok.1 h
    cases h
    have hnames : Forall₂ (fun o x => o.declares = [x] ∧ o.inner = []) parts
        (r.integrands.map fun i => "weights_" ++ i.rule.id) := by
      rw [forall₂_map_right_iff]
      refine List.Forall₂.flip ((mapM_eq_ok.1 hparts).imp fun i o ho => ?_)
      obtain ⟨symbol, hsymbol, ho⟩ := bind_eq_ok.1 ho
      obtain ⟨id, hid, hsymbol⟩ := bind_eq_ok.1 hsymbol
      cases hsymbol
      obtain ⟨s, hs, ho⟩ := bind_eq_ok.1 ho
      cases ho
      rw [ruleName_eq_ok hid] at hs
      exact Kernel.declares_ofArray hs
    obtain ⟨hdeclares, hinner⟩ := Operand.scopes_of_forall₂ hnames
    obtain ⟨hcommented, hcommentedInner⟩ := scopes_commented parts ["Quadrature rules"]
    rw [hcommented, hcommentedInner]
    exact ⟨⟨_, .refl _, by rw [hdeclares, map_map]; rfl⟩, hinner⟩

lemma family_weights (h : declareWeights l r = .ok code) :
    ∀ x ∈ Operand.declaresAll code, Family.of x = .weights := by
  obtain ⟨⟨ids, -, hnames⟩, -⟩ := scopes_weights h
  rw [hnames]
  simp [Family.of, String.toList_append]

/-- The weights of rules are told apart by the digits of the rules. -/
lemma declares_weights (hids : (r.integrands.map fun i => i.rule.id).Nodup)
    (h : declareWeights l r = .ok code) : Declares .weights code := by
  obtain ⟨⟨ids, hsub, hnames⟩, hinner⟩ := scopes_weights h
  refine ⟨?_, family_weights h, hinner⟩
  rw [hnames]
  exact (hsub.nodup hids).map fun x y hxy => (String.append_right_inj _).1 hxy

/-- Tables are declared under their names. -/
lemma declares_tables (hnames : names.Nodup) (hfamily : ∀ x ∈ names, Family.of x = .table)
    (h : declareTables r names = .ok code) : Declares .table code := by
  obtain ⟨zs, hzs, rfl⟩ := filterMapM_eq_ok h
  have hsublist : (Operand.declaresAll (zs.filterMap id)).Sublist names ∧
      Operand.innerAll (zs.filterMap id) = [] := by
    clear h hnames hfamily
    induction hzs with
    | nil => exact ⟨.refl _, rfl⟩
    | @cons name z names zs hz _ ih =>
      split at hz
      · obtain ⟨s, hs, hz⟩ := bind_eq_ok.1 hz
        cases hz
        obtain ⟨symbol, hsymbol, hs⟩ := bind_eq_ok.1 hs
        obtain ⟨hdeclares, hinner⟩ := Kernel.declares_ofArray hs
        rw [Binding.name_symbolOf hsymbol] at hdeclares
        simpa [Operand.declaresAll, Operand.innerAll, Operand.declares, Operand.inner, hdeclares,
          hinner] using ih
      · cases hz
        exact ⟨ih.1.cons _, ih.2⟩
  exact ⟨hsublist.1.nodup hnames, fun x hx => hfamily x (hsublist.1.subset hx), hsublist.2⟩

lemma perm_tableNames (tables : List (String × Dense Float)) :
    (tableNames tables).Perm (tables.map (·.1)) :=
  mergeSort_perm _ _

lemma Representation.Named.tableNames (hr : r.Named) (hx : x ∈ tableNames r.tables) :
    Family.of x = .table := by
  obtain ⟨a, ha, rfl⟩ := mem_map.1 ((perm_tableNames r.tables).subset hx)
  exact hr.family a ha

lemma declares_namedTables (hr : r.Named) (hnames : names.Sublist (tableNames r.tables))
    (h : declareTables r names = .ok code) : Declares .table code :=
  declares_tables (hnames.nodup ((perm_tableNames r.tables).nodup_iff.2 hr.nodup))
    (fun _ hx => hr.tableNames (hnames.subset hx)) h

/-! ### Geometry -/

lemma declares_declaration {table : GeometryTable} {cell : String} {s : Stmt}
    (h : table.declaration data cell = .ok s) : s.declares = [cell ++ "_" ++ table.name] ∧
      s.inner = [] := by
  rcases Reference.declaration_cases h with ⟨t, x, -, h⟩ | ⟨t, values, -, h⟩
  · exact Kernel.declares_ofVariable h
  · exact Kernel.declares_ofArray h

/-- The tables of geometry are told apart by cell and quantity. -/
lemma geometryName_injective {c c' : Cell} {t t' : GeometryTable}
    (h : c.name ++ "_" ++ t.name = c'.name ++ "_" ++ t'.name) : c.name = c'.name ∧ t = t' := by
  have hmark : ∀ c : Cell, '_' ∉ c.name.toList := by
    intro c
    cases c <;> decide
  have hlist := congrArg String.toList h
  simp only [String.toList_append, append_assoc] at hlist
  obtain ⟨hcell, htable⟩ := Table.append_mark_inj (hmark c) (hmark c') hlist
  refine ⟨String.toList_inj.1 hcell, ?_⟩
  have hname := String.toList_inj.1 htable
  revert hname
  cases t <;> cases t' <;> decide

lemma family_geometry (c : Cell) (t : GeometryTable) :
    Family.of (c.name ++ "_" ++ t.name) = .geometry := by
  rw [Family.of, String.toList_append, String.toList_append]
  cases c <;> rfl

lemma cell_of_quantities (h : ((quantities r).filterMapM fun (q, cell) => do
      if (known.lookup q).isSome then return some (q, ← cell) else return none) = .ok used) :
    ∀ u ∈ used, ∃ c : Cell, u.2 = c.name := by
  obtain ⟨zs, hzs, rfl⟩ := filterMapM_eq_ok h
  intro u hu
  obtain ⟨z, hz, hu⟩ := mem_filterMap.1 hu
  obtain rfl : z = some u := hu
  obtain ⟨⟨q, cell⟩, hq, hstep⟩ := exists_of_forall₂_right hzs hz
  dsimp only at hstep
  split at hstep
  · obtain ⟨name, hname, hstep⟩ := bind_eq_ok.1 hstep
    obtain rfl := Option.some.inj (pure_eq_ok.1 hstep)
    obtain ⟨i, -, hq⟩ := mem_flatMap.1 hq
    obtain ⟨n, -, hq⟩ := mem_filterMap.1 hq
    obtain ⟨m, -, hq⟩ := Option.bind_eq_some_iff.1 hq
    split at hq
    · next d _ =>
      obtain ⟨-, rfl⟩ := Prod.mk.inj (Option.some.inj hq)
      exact ⟨_, (Except.ok.inj hname).symm⟩
    · obtain ⟨-, rfl⟩ := Prod.mk.inj (Option.some.inj hq)
      cases hname
    · cases hq
  · cases pure_eq_ok.1 hstep

/-- The names of the tables of a quantity, one for each cell that it is used on. -/
def geometryNames (used : List (Quantity × String)) (p : Quantity × GeometryTable) : List String :=
  (used.filter fun u => u.1 == p.1).map fun u => u.2 ++ "_" ++ p.2.name

lemma scopes_geometry {parts : List (List Operand)}
    (h : Forall₂ (fun p part => ((used.filter fun u => u.1 == p.1).mapM fun u => do
      return Operand.stmt (← p.2.declaration data u.2)) = .ok part) known parts) :
    Operand.declaresAll parts.flatten = known.flatMap (geometryNames used) ∧
      Operand.innerAll parts.flatten = [] := by
  induction h with
  | nil => exact ⟨rfl, rfl⟩
  | @cons p part known parts hpart _ ih =>
    have hnames : Forall₂ (fun o x => o.declares = [x] ∧ o.inner = []) part
        (geometryNames used p) := by
      rw [geometryNames, forall₂_map_right_iff]
      refine List.Forall₂.flip ((mapM_eq_ok.1 hpart).imp fun u o ho => ?_)
      obtain ⟨s, hs, ho⟩ := bind_eq_ok.1 ho
      cases ho
      exact declares_declaration hs
    obtain ⟨hdeclares, hinner⟩ := Operand.scopes_of_forall₂ hnames
    rw [flatten_cons, Operand.declaresAll_append, Operand.innerAll_append, flatMap_cons,
      hdeclares, hinner, ih.1, ih.2]
    exact ⟨rfl, rfl⟩

/-- The tables of geometry are declared once for each quantity and cell. -/
lemma declares_geometry (h : declareGeometry data geometryTables r = .ok code) :
    Declares .geometry code := by
  obtain ⟨used, hused, h⟩ := bind_eq_ok.1 h
  have hcells := cell_of_quantities hused
  obtain ⟨parts, hparts, rfl⟩ := flatMapM_eq_ok h
  obtain ⟨hdeclares, hinner⟩ := scopes_geometry hparts
  have hmem : ∀ {p x}, x ∈ geometryNames (Form.distinct used) p →
      ∃ c : Cell, x = c.name ++ "_" ++ p.2.name := by
    intro p x hx
    obtain ⟨u, hu, rfl⟩ := mem_map.1 hx
    obtain ⟨c, hc⟩ := hcells u (Form.mem_distinct.1 (mem_of_mem_filter hu))
    exact ⟨c, by rw [hc]⟩
  refine ⟨?_, fun x hx => ?_, hinner⟩
  · rw [hdeclares, nodup_flatMap]
    constructor
    · -- for one quantity the cells differ
      intro p _
      refine List.Nodup.map_on ?_ ((Form.nodup_distinct used).filter _)
      intro u hu w hw huw
      have huq : u.1 = p.1 := by simpa using of_mem_filter hu
      have hwq : w.1 = p.1 := by simpa using of_mem_filter hw
      refine Prod.ext (huq.trans hwq.symm) ?_
      simpa using huw
    · -- different quantities have different tables
      have htables : geometryTables.Pairwise fun p q => p.2 ≠ q.2 := by decide
      refine htables.imp fun {p q} hpq x hp hq => hpq ?_
      obtain ⟨c, rfl⟩ := hmem hp
      obtain ⟨c', hc'⟩ := hmem hq
      exact (geometryName_injective hc').2
  · rw [hdeclares] at hx
    obtain ⟨p, -, hx⟩ := mem_flatMap.1 hx
    obtain ⟨c, rfl⟩ := hmem hx
    exact family_geometry c p.2

end FormKernel.Integral
