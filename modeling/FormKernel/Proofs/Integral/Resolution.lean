import FormKernel.Proofs.Integral.References

/-!
# References find their tables

All rules of an integral share one list of tables.  A rule adds the tables that its kernel reads,
and tables of earlier rules that have the same values are used again.  Nothing that has been stored
is ever changed, and nothing that is stored under a name differs from what a reference of that name
stands for: the names of a rule end in its digits, so that other rules do not use them.
-/

namespace FormKernel.Integral

open Form (Expr)
open Quadrature (Rule)
open Table (IsKindOf NamedFor Regular TableEntry TableKind TableRef Tables TerminalElement
  built_buildTables elementsOf namedFor_of_tableName)

/-! ## What is stored for a rule -/

section Stored

variable {tables : Tables} {names : List String}

lemma array_of_lookup_arraysOf {name : String} {a : Option TableKind × Dense Float}
    (h : (arraysOf tables).lookup name = some a) : ∃ x ∈ tables.entries, x.name = name ∧
      x.array = a := by
  rcases lookup_foldl_assign_eq_some h with hx | hnil
  · exact hx
  · cases hnil

lemma mem_storedArrays {x : String × Option TableKind × Dense Float} :
    x ∈ storedArrays tables names ↔ x.1 ∈ names ∧ (arraysOf tables).lookup x.1 = some x.2 ∧
      x.2.1 ≠ some .zeros ∧ x.2.1 ≠ some .ones := by
  have hkind : ∀ k : Option TableKind, (k == some .zeros || k == some .ones) = true ↔
      ¬(k ≠ some .zeros ∧ k ≠ some .ones) := by
    intro k
    rcases k with _ | _ | _ | _ | _ | _ | _ | _ <;> decide
  rw [storedArrays, List.mem_filterMap]
  constructor
  · rintro ⟨name, hname, hx⟩
    split at hx
    · next k v hlookup =>
      split at hx
      · cases hx
      · next hk =>
        obtain rfl := Option.some.inj hx
        exact ⟨hname, hlookup, not_not.1 (mt (hkind k).2 hk)⟩
    · cases hx
  · rintro ⟨hname, hlookup, hk⟩
    refine ⟨x.1, hname, ?_⟩
    rw [hlookup]
    exact if_neg (fun hzero => (hkind x.2.1).1 hzero hk)

end Stored

/-! ## What references find -/

/-- A representation in which references find their tables: names lead to the values that the
    references stand for, and to their kinds if the values are needed. -/
structure Resolved (rep : Representation) : Prop where
  nodup : (rep.tables.map (·.1)).Nodup
  filled : ∀ a ∈ rep.tables, a.2.data.size = volume a.2.shape
  named : ∀ name v, rep.tables.lookup name = some v → ∃ i ∈ rep.integrands, NamedFor i.rule name
  refers : ∀ i ∈ rep.integrands, ∀ t, i.Refers t → (∃ j ∈ rep.integrands, NamedFor j.rule t.name) ∧
    IsKindOf t.kind t.values ∧ ∀ v, rep.tables.lookup t.name = some v → v = t.values
  uses : ∀ i ∈ rep.integrands, ∀ t, i.Uses t → t.kind ≠ .zeros → t.kind ≠ .ones →
    rep.tables.lookup t.name = some t.values ∧ rep.kinds.lookup t.name = some (some t.kind)
  same : ∀ i ∈ rep.integrands, ∀ j ∈ rep.integrands, ∀ t u, i.Refers t → j.Refers u →
    t.name = u.name → t.values = u.values

lemma resolved_empty : Resolved {} where
  nodup := List.nodup_nil
  filled := by simp
  named := by simp
  refers := by simp
  uses := by simp
  same := by simp

/-- The references that are built for one more rule: their values are those of a table that is
    stored already, or stand under a name of the rule that has not been used before. -/
structure Extends (rule : Rule) (done : Representation) (tables : Tables) : Prop where
  entry : ∀ x ∈ tables.entries, ∃ m t, x = .terminal m t ∧ t.factors = none ∧
    IsKindOf t.kind t.values ∧ (done.tables.lookup t.name = some t.values ∨
      NamedFor rule t.name ∧ done.tables.lookup t.name = none)
  same : ∀ {m t n u}, TableEntry.terminal m t ∈ tables.entries →
    TableEntry.terminal n u ∈ tables.entries → t.name = u.name → t.values = u.values

namespace Extends

variable {rule : Rule} {done rep : Representation} {tables : Tables} {new : Integrand}

lemma of_entry (h : Extends rule done tables) {m t}
    (ht : TableEntry.terminal m t ∈ tables.entries) :
    t.factors = none ∧ IsKindOf t.kind t.values ∧ (done.tables.lookup t.name = some t.values ∨
      NamedFor rule t.name ∧ done.tables.lookup t.name = none) := by
  obtain ⟨_, _, heq, hentry⟩ := h.entry _ ht
  obtain ⟨rfl, rfl⟩ := TableEntry.terminal.inj heq
  exact hentry

/-- Entries with one name have one kind and the same values. -/
lemma lookup_arraysOf (h : Extends rule done tables) {m t}
    (ht : TableEntry.terminal m t ∈ tables.entries) :
    (arraysOf tables).lookup t.name = some (some t.kind, t.values) := by
  refine lookup_foldl_assign_of_mem ⟨_, ht, rfl⟩ fun x hx hname => ?_
  obtain ⟨n, u, rfl, -, hu, -⟩ := h.entry x hx
  have hvalues : u.values = t.values := h.same hx ht hname
  have hkind : u.kind = t.kind := hu.unique (hvalues ▸ (h.of_entry ht).2.1)
  exact congrArg₂ (fun k v => (some k, v)) hkind hvalues

lemma exists_entry (h : Extends rule done tables) {names : List String}
    {x : String × Option TableKind × Dense Float} (hx : x ∈ storedArrays tables names) :
    ∃ m t, TableEntry.terminal m t ∈ tables.entries ∧ x = (t.name, some t.kind, t.values) := by
  obtain ⟨-, hlookup, -, -⟩ := mem_storedArrays.1 hx
  obtain ⟨y, hy, hname, harray⟩ := array_of_lookup_arraysOf hlookup
  obtain ⟨m, t, rfl, -⟩ := h.entry y hy
  exact ⟨m, t, hy, Prod.ext hname.symm harray.symm⟩

variable (h : Extends rule done tables) {names : List String}

include h

variable {name : String} {v : Dense Float}

lemma lookup_tables (hv : ((storedArrays tables names).foldl (fun out x => assign x.1 x.2.2 out)
      done.tables).lookup name = some v) :
    (∃ m t, TableEntry.terminal m t ∈ tables.entries ∧ t.name = name ∧ t.values = v) ∨
      done.tables.lookup name = some v := by
  rcases lookup_foldl_assign_eq_some hv with ⟨x, hx, hname, hvalues⟩ | hdone
  · obtain ⟨m, t, ht, rfl⟩ := h.exists_entry hx
    exact .inl ⟨m, t, ht, hname, hvalues⟩
  · exact .inr hdone

lemma lookup_of_done {β : Type} {value : Option TableKind × Dense Float → β}
    {known : List (String × β)}
    {b : β} (hv : done.tables.lookup name = some v) (hb : known.lookup name = some b)
    (hvalue : ∀ {k}, IsKindOf k v → value (some k, v) = b) :
    ((storedArrays tables names).foldl (fun out x => assign x.1 (value x.2) out) known).lookup name
      = some b := by
  by_cases hstored : ∃ x ∈ storedArrays tables names, x.1 = name
  · refine lookup_foldl_assign_of_mem hstored fun x hx hname => ?_
    obtain ⟨m, t, ht, rfl⟩ := h.exists_entry hx
    obtain rfl : t.name = name := hname
    obtain ⟨-, hkind, hknown | ⟨-, hnone⟩⟩ := h.of_entry ht
    · obtain rfl := Option.some.inj (hknown.symm.trans hv)
      exact hvalue hkind
    · cases hnone.symm.trans hv
  · rw [lookup_foldl_assign_of_notMem fun x hx hname => hstored ⟨x, hx, hname⟩, hb]

/-- Nothing that has been stored is changed. -/
lemma lookup_tables_of_done (hv : done.tables.lookup name = some v) :
    ((storedArrays tables names).foldl (fun out x => assign x.1 x.2.2 out)
      done.tables).lookup name = some v :=
  h.lookup_of_done hv hv fun _ => rfl

lemma lookup_kinds_of_done {k : TableKind} (hv : done.tables.lookup name = some v)
    (hk : done.kinds.lookup name = some (some k)) (hkind : IsKindOf k v) :
    ((storedArrays tables names).foldl (fun out x => assign x.1 x.2.1 out)
      done.kinds).lookup name = some (some k) :=
  h.lookup_of_done hv hk fun hk => congrArg some (hk.unique hkind)

/-- What a kernel reads is stored, unless it is zero or one throughout. -/
lemma lookup_of_mem {m t} (ht : TableEntry.terminal m t ∈ tables.entries) (hname : t.name ∈ names)
    (hzeros : t.kind ≠ .zeros) (hones : t.kind ≠ .ones) :
    ((storedArrays tables names).foldl (fun out x => assign x.1 x.2.2 out)
      done.tables).lookup t.name = some t.values ∧
    ((storedArrays tables names).foldl (fun out x => assign x.1 x.2.1 out)
      done.kinds).lookup t.name = some (some t.kind) := by
  have hlookup := h.lookup_arraysOf ht
  have hmem : (t.name, some t.kind, t.values) ∈ storedArrays tables names :=
    mem_storedArrays.2 ⟨hname, hlookup, by simpa using hzeros, by simpa using hones⟩
  have hall : ∀ x ∈ storedArrays tables names, x.1 = t.name → x.2 = (some t.kind, t.values) := by
    intro x hx hxname
    obtain ⟨-, hxlookup, -, -⟩ := mem_storedArrays.1 hx
    rw [hxname, hlookup] at hxlookup
    exact (Option.some.inj hxlookup).symm
  exact ⟨lookup_foldl_assign_of_mem ⟨_, hmem, rfl⟩ fun x hx hxname => by rw [hall x hx hxname],
    lookup_foldl_assign_of_mem ⟨_, hmem, rfl⟩ fun x hx hxname => by rw [hall x hx hxname]⟩

/-- An entry and a reference of an earlier rule share a name only if their values are equal. -/
lemma values_eq_of_done (hdone : Resolved done)
    (hid : ∀ i ∈ done.integrands, i.rule.id ≠ rule.id) {m t}
    (ht : TableEntry.terminal m t ∈ tables.entries) {i : Integrand} (hi : i ∈ done.integrands)
    {u : TableRef} (hu : i.Refers u) (hname : t.name = u.name) : t.values = u.values := by
  obtain ⟨⟨j, hj, hnamed⟩, -, hfound⟩ := hdone.refers i hi u hu
  obtain ⟨-, -, hknown | ⟨hrule, -⟩⟩ := h.of_entry ht
  · exact hfound _ (hname ▸ hknown)
  · exact absurd (hnamed.id_eq (hname ▸ hrule)) (hid j hj)

end Extends

/-! ## Representing all integrands -/

/-- The elements whose tables an integrand needs. -/
def neededElements (e : Expr) : Outcome (List TerminalElement) := do
  let scalar ← Scalar.scalarGraph (withoutWeight e)
  let terminals ← modifiedTerminals scalar
  elementsOf (terminals.map (·.2))

section Run

variable {task : Task} {done rep : Representation} {rule : Rule} {e : Expr}

lemma Resolved.other (h : Resolved done) (hid : ∀ i ∈ done.integrands, i.rule.id ≠ rule.id)
    (name : String) (v : Dense Float) (hv : done.tables.lookup name = some v) :
    ¬NamedFor rule name := by
  obtain ⟨i, hi, hnamed⟩ := h.named name v hv
  exact fun hrule => hid i hi (hnamed.id_eq hrule)

/-- The tables of one more rule leave those of earlier rules alone. -/
lemma Resolved.extends {terminals : List Form.ModifiedTerminal} {tables : Tables}
    (hexact : task.comparison = .exact) (hplain : task.factorized = false) (h : Resolved done)
    (hid : ∀ i ∈ done.integrands, i.rule.id ≠ rule.id)
    (hregular : ∀ es, elementsOf terminals = .ok es → Regular (task.setting rule) es)
    (htables : Table.buildTables (task.setting rule) terminals done.tables = .ok tables) :
    Extends rule done tables := by
  obtain ⟨numbers, elements, hbuilt⟩ := built_buildTables (s := task.setting rule) hexact hplain
    h.nodup h.filled (h.other hid) hregular htables
  refine ⟨fun x hx => ?_, fun {m t n u} ht hu hname => ?_⟩
  · obtain ⟨m, t, rfl, hnone, hlookup, hkind⟩ := hbuilt.entries x hx
    refine ⟨m, t, rfl, hnone, hkind, ?_⟩
    rcases hbuilt.origin t.name t.values hlookup with hknown | ⟨_, -, _, hown, -⟩
    · exact .inl hknown
    · have hrule : NamedFor rule t.name := namedFor_of_tableName hown
      refine .inr ⟨hrule, ?_⟩
      cases hv : done.tables.lookup t.name with
      | none => rfl
      | some v => exact absurd hrule (h.other hid t.name v hv)
  · obtain ⟨_, _, heq, -, ht, -⟩ := hbuilt.entries _ ht
    obtain ⟨rfl, rfl⟩ := TableEntry.terminal.inj heq
    obtain ⟨_, _, heq, -, hu, -⟩ := hbuilt.entries _ hu
    obtain ⟨rfl, rfl⟩ := TableEntry.terminal.inj heq
    rw [hname, hu] at ht
    exact (Option.some.inj ht).symm

/-- Representing the integrand of one more rule keeps all references resolved. -/
lemma Resolved.addIntegrand (hexact : task.comparison = .exact) (hplain : task.factorized = false)
    (h : Resolved done) (hid : ∀ i ∈ done.integrands, i.rule.id ≠ rule.id)
    (hregular : ∀ es, neededElements e = .ok es → Regular (task.setting rule) es)
    (hadd : addIntegrand task done rule e = .ok rep) : Resolved rep := by
  obtain ⟨scalar, terminals, tables, new, hscalar, hterminals, htables, hrule, hrefers, hintegrands,
    hstored, hkinds⟩ := addIntegrand_eq_ok hadd
  have hext : Extends rule done tables := h.extends hexact hplain hid (fun es hes =>
    hregular es (bind_eq_ok.2 ⟨scalar, hscalar, bind_eq_ok.2 ⟨terminals, hterminals, hes⟩⟩)) htables
  have hentry : ∀ {m t}, TableEntry.terminal m t ∈ tables.entries →
      ∃ j ∈ rep.integrands, NamedFor j.rule t.name := by
    intro m t ht
    rw [hintegrands]
    obtain ⟨-, -, hknown | ⟨hnamed, -⟩⟩ := hext.of_entry ht
    · obtain ⟨j, hj, hnamed⟩ := h.named _ _ hknown
      exact ⟨j, List.mem_append_left _ hj, hnamed⟩
    · exact ⟨new, by simp, hrule ▸ hnamed⟩
  have hold : ∀ {i}, i ∈ done.integrands → ∀ {m t u}, TableEntry.terminal m t ∈ tables.entries →
      i.Refers u → t.name = u.name → t.values = u.values :=
    fun hi _ _ _ ht hu hname => hext.values_eq_of_done h hid ht hi hu hname
  have hmem : ∀ {i}, i ∈ rep.integrands → i ∈ done.integrands ∨ i = new := by
    intro i hi
    simpa [hintegrands] using hi
  have hnodup : (rep.tables.map (·.1)).Nodup := by
    rw [hstored]
    exact nodup_keys_foldl_assign h.nodup
  -- each entry was there before or is made for the new rule
  refine ⟨hnodup, ?_, ?_, ?_, ?_, ?_⟩
  · rintro ⟨name, v⟩ ha
    have hv := lookup_eq_some_of_mem hnodup ha
    rw [hstored] at hv
    rcases hext.lookup_tables hv with ⟨m, t, ht, -, rfl⟩ | hv
    · exact (hext.of_entry ht).2.1.filled
    · exact h.filled _ (mem_of_lookup_eq_some hv)
  · intro name v hv
    rw [hstored] at hv
    rcases hext.lookup_tables hv with ⟨m, t, ht, rfl, -⟩ | hv
    · exact hentry ht
    · obtain ⟨i, hi, hnamed⟩ := h.named name v hv
      exact ⟨i, by rw [hintegrands]; exact List.mem_append_left _ hi, hnamed⟩
  · intro i hi t ht
    rcases hmem hi with hi | rfl
    · obtain ⟨⟨j, hj, hnamed⟩, hkind, hfound⟩ := h.refers i hi t ht
      refine ⟨⟨j, by rw [hintegrands]; exact List.mem_append_left _ hj, hnamed⟩, hkind,
        fun v hv => ?_⟩
      rw [hstored] at hv
      rcases hext.lookup_tables hv with ⟨m, u, hu, hname, rfl⟩ | hv
      · exact hold hi hu ht hname
      · exact hfound v hv
    · obtain ⟨m, hm⟩ := hrefers t ht
      refine ⟨hentry hm, (hext.of_entry hm).2.1, fun v hv => ?_⟩
      rw [hstored] at hv
      rcases hext.lookup_tables hv with ⟨n, u, hu, hname, rfl⟩ | hv
      · exact hext.same hu hm hname
      · obtain ⟨-, -, hknown | ⟨-, hnone⟩⟩ := hext.of_entry hm
        · exact Option.some.inj (hv.symm.trans hknown)
        · cases hnone.symm.trans hv
  · intro i hi t ht hzeros hones
    rw [hstored, hkinds]
    rcases hmem hi with hi | rfl
    · obtain ⟨hv, hk⟩ := h.uses i hi t ht hzeros hones
      exact ⟨hext.lookup_tables_of_done hv,
        hext.lookup_kinds_of_done hv hk (h.refers i hi t ht.refers).2.1⟩
    -- only tables that the new integrand still uses are stored
    · obtain ⟨m, hm⟩ := hrefers t ht.refers
      refine hext.lookup_of_mem hm (mem_activeNames.2 ⟨t, ht, ?_⟩) hzeros hones
      rw [arrayNames, (hext.of_entry hm).1]
      exact List.mem_singleton.2 rfl
  · intro i hi j hj t u ht hu hname
    rcases hmem hi with hi | rfl <;> rcases hmem hj with hj | rfl
    · exact h.same i hi j hj t u ht hu hname
    · obtain ⟨m, hm⟩ := hrefers u hu
      exact (hold hi hm ht hname.symm).symm
    · obtain ⟨m, hm⟩ := hrefers t ht
      exact hold hj hm hu hname
    · obtain ⟨m, hm⟩ := hrefers t ht
      obtain ⟨n, hn⟩ := hrefers u hu
      exact hext.same hm hn hname

/-- Each rule has its integrand. -/
lemma rules_of_foldlM {rules : List (Rule × Expr)}
    (h : rules.foldlM (fun done p => Integral.addIntegrand task done p.1 p.2) done = .ok rep) :
    rep.integrands.map (·.rule) = done.integrands.map (·.rule) ++ rules.map (·.1) := by
  induction rules generalizing done with
  | nil =>
    rw [List.foldlM_nil, pure_eq_ok] at h
    simp [h]
  | cons p rules ih =>
    rw [List.foldlM_cons, bind_eq_ok] at h
    obtain ⟨mid, hmid, h⟩ := h
    obtain ⟨_, _, _, new, -, -, -, hrule, -, hintegrands, -, -⟩ := addIntegrand_eq_ok hmid
    rw [ih h, hintegrands]
    simp [hrule]

end Run

/-- The tables of an integral without sum factorisation, compared by equality: if the rules have
    different digits and the tables of each rule can be told apart, then all references that a
    kernel reads find their values and their kind under their name, unless they are zero or one
    throughout, and references share a name only if their values are equal. -/
theorem references_resolve {task : Task} {integrands rules : List (Rule × Expr)}
    {rep : Representation} (hexact : task.comparison = .exact) (hplain : task.factorized = false)
    (hrules : byRule integrands = .ok rules) (hids : (rules.map (·.1.id)).Nodup)
    (hregular : ∀ p ∈ rules, ∀ es, neededElements p.2 = .ok es → Regular (task.setting p.1) es)
    (hrep : represent task integrands = .ok rep) :
    (∀ i ∈ rep.integrands, ∀ t, i.Uses t → t.kind ≠ .zeros → t.kind ≠ .ones →
      rep.tables.lookup t.name = some t.values ∧ rep.kinds.lookup t.name = some (some t.kind)) ∧
    ∀ i ∈ rep.integrands, ∀ j ∈ rep.integrands, ∀ t u, i.Refers t → j.Refers u →
      t.name = u.name → t.values = u.values := by
  obtain ⟨rules', hrules', hrun⟩ := bind_eq_ok.1 hrep
  obtain rfl := Except.ok.inj (hrules.symm.trans hrules')
  -- as long as the digits of the rules so far differ, everything is resolved
  have hresolved : (rep.integrands.map (·.rule.id)).Nodup → Resolved rep := by
    refine foldlM_induction (fun done => (done.integrands.map (·.rule.id)).Nodup → Resolved done)
      (fun _ => resolved_empty) ?_ hrun
    intro done p next hp hdone hadd hnodup
    obtain ⟨_, _, _, new, -, -, -, hrule, -, hintegrands, -, -⟩ := addIntegrand_eq_ok hadd
    rw [hintegrands, List.map_append, List.map_singleton, List.nodup_append] at hnodup
    refine (hdone hnodup.1).addIntegrand hexact hplain (fun i hi => ?_) (hregular p hp) hadd
    rw [← hrule]
    exact hnodup.2.2 _ (List.mem_map.2 ⟨i, hi, rfl⟩) _ (by simp)
  have hall : Resolved rep := by
    refine hresolved ?_
    have hmap := congrArg (List.map Rule.id) (rules_of_foldlM hrun)
    simp only [List.map_map, List.map_nil, List.nil_append] at hmap
    exact hmap ▸ hids
  exact ⟨hall.uses, hall.same⟩

/-! ### Integrals over a triangle -/

def triangleData : Reference.CellData where
  topology := [("triangle", [[[0], [1], [2]], [[1, 2], [0, 2], [0, 1]], [[0, 1, 2]]])]
  geometry := [("triangle", ⟨[3, 2], #[0.0, 0.0, 1.0, 0.0, 0.0, 1.0]⟩)]

/-- A coefficient of an element on a triangle with one degree of freedom, given by its
    polynomial. -/
def triangleCoefficient (basis : List (Float × List Nat)) : Expr :=
  let element : Form.Element := { (default : Form.Element) with
    cell := .triangle, basis := [basis], components := [(none, 0, 1)], dim := 1 }
  let mesh : Form.Domain := { id := 0, cell := .triangle, gdim := 2, coordinate := none }
  let space : Form.Space := { id := 0, element, domain := some mesh, shape := [] }
  .operator .referenceValue [.terminal (.coefficient false 0 space none)] [] [] []

/-- The task of representing an integral over triangles or their facets. -/
def triangleTask (kind : Form.IntegralKind) (entity : Form.EntityKind) : Task where
  data := triangleData
  cell := some .triangle
  kind := kind
  entity := entity
  rank := 0
  comparison := .exact

def pointRule (y : Float) : Rule where
  points := ⟨[1, 2], #[0.25, y]⟩
  weights := ⟨[1], #[0.5]⟩

/-- The coefficient `x` at two points, where it has the same value. -/
def abscissas : List (Rule × Expr) :=
  [(pointRule 0.25, triangleCoefficient [(1.0, [1, 0])]),
    (pointRule 0.5, triangleCoefficient [(1.0, [1, 0])])]

lemma byRule_pair {r r' : Rule} {e e' : Expr} (h : (r.bytes == r'.bytes) = false) :
    byRule [(r, e), (r', e')] = .ok [(r, e), (r', e')] := by
  have hadd : addRule [(r, e)] r' e' = .ok [(r, e), (r', e')] := by
    simp only [addRule, h, Bool.false_eq_true, if_false]
    rfl
  exact bind_eq_ok.2 ⟨[(r, e)], rfl, bind_eq_ok.2 ⟨_, hadd, rfl⟩⟩

lemma regular_abscissas {rule : Rule} {es : List TerminalElement}
    (h : neededElements (triangleCoefficient [(1.0, [1, 0])]) = .ok es) :
    Regular ((triangleTask .cell .cell).setting rule) es := by
  have hderivatives : (neededElements (triangleCoefficient [(1.0, [1, 0])])).toOption.any
      (fun es => es.map (·.derivatives) == [[0, 0]]) = true := by decide +kernel
  obtain ⟨es', hes', hmap⟩ := any_toOption.1 hderivatives
  obtain rfl := Except.ok.inj (h.symm.trans hes')
  obtain ⟨e, rfl, he⟩ := List.map_eq_singleton_iff.1 (eq_of_beq hmap)
  refine ⟨?_, ?_, ?_, fun hkind => by cases hkind⟩
  · simp
  · simp
  · simp [he]

/-- The second rule uses the table of the first. -/
theorem references_resolve_abscissas :
    ∃ rep i t, represent (triangleTask .cell .cell) abscissas = .ok rep ∧ i ∈ rep.integrands ∧
      i.Uses t ∧ t.kind = .fixed ∧ rep.tables.lookup t.name = some t.values ∧
      rep.kinds.lookup t.name = some (some .fixed) := by
  have hrun : (represent (triangleTask .cell .cell) abscissas).toOption.any
      (fun rep => (rep.integrands.drop 1).any fun i =>
        (usedTables i.factors i.blocks).any fun t => decide (t.kind = .fixed)) = true := by
    decide +kernel
  have hbytes : ((pointRule 0.25).bytes == (pointRule 0.5).bytes) = false := by decide +kernel
  have hids : (abscissas.map (·.1.id)).Nodup := by decide +kernel
  obtain ⟨rep, hrep, hany⟩ := any_toOption.1 hrun
  obtain ⟨i, hi, hany⟩ := List.any_eq_true.1 hany
  obtain ⟨t, ht, hkind⟩ := List.any_eq_true.1 hany
  have hi : i ∈ rep.integrands := List.mem_of_mem_drop hi
  have ht : i.Uses t := mem_usedTables.1 ht
  have hkind : t.kind = .fixed := of_decide_eq_true hkind
  have hresolve := references_resolve rfl rfl (byRule_pair hbytes) hids
    (fun p hp es hes => by
      simp only [List.mem_cons, List.not_mem_nil, or_false] at hp
      rcases hp with rfl | rfl <;> exact regular_abscissas hes) hrep
  obtain ⟨hvalues, hkinds⟩ := hresolve.1 i hi t ht (by simp [hkind]) (by simp [hkind])
  exact ⟨rep, i, t, hrep, hi, ht, hkind, hvalues, hkind ▸ hkinds⟩

/-- A rule with two points that are not placed symmetrically on a facet. -/
def skewRule : Rule where
  points := ⟨[2, 1], #[0.25, 0.375]⟩
  weights := ⟨[2], #[0.5, 0.5]⟩

/-- The sum of the derivatives of a coefficient, seen from one side of a facet: that along `x` is
    one throughout, that along `y` is one at the points of `skewRule` but not at their mirror
    images. -/
def slopes : Expr :=
  let f := triangleCoefficient [(1.0, [1, 0]), (1.0, [0, 1]), (1.0, [0, 5]), (-55 / 32, [0, 4]),
    (15 / 16, [0, 3]), (-45 / 256, [0, 2])]
  let gradient : Expr := .operator .referenceGrad [f] [2] [] []
  let derivative (c : Nat) : Expr := .operator .positiveRestricted [gradient.component [c]] [] [] []
  .sum (derivative 1) (derivative 0)

/-- A table is read whose first permutation only is one throughout; it shares the name of a table
    of ones, which is not stored. -/
theorem references_unresolved_slopes :
    ∃ rep i t, represent (triangleTask .interiorFacet .facet) [(skewRule, slopes)] = .ok rep ∧
      i ∈ rep.integrands ∧ i.Uses t ∧ t.kind = .fixed ∧ rep.tables.lookup t.name = none := by
  have hrun : (represent (triangleTask .interiorFacet .facet) [(skewRule, slopes)]).toOption.any
      (fun rep => rep.integrands.any fun i => (usedTables i.factors i.blocks).any fun t =>
        decide (t.kind = .fixed) && (rep.tables.lookup t.name).isNone) = true := by
    decide +kernel
  obtain ⟨rep, hrep, hany⟩ := any_toOption.1 hrun
  obtain ⟨i, hi, hany⟩ := List.any_eq_true.1 hany
  obtain ⟨t, ht, hfound⟩ := List.any_eq_true.1 hany
  rw [Bool.and_eq_true, Option.isNone_iff_eq_none] at hfound
  exact ⟨rep, i, t, hrep, hi, mem_usedTables.1 ht, of_decide_eq_true hfound.1, hfound.2⟩

end FormKernel.Integral
