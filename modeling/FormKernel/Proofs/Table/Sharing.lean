import FormKernel.Proofs.Table.Compression
import FormKernel.Proofs.Table.Name
import FormKernel.Proofs.Table.Tabulation

/-!
# Tables that are shared

Tables with the same values share a name.  A table that is reduced keeps enough of its values to
tell its kind, so tables that share a name have one kind as well: the kind is decided by comparing
entries with zero and one, by looking for identity matrices, and otherwise by the axes that are
left.  This needs that the kind, which is read off the first permutation of the points, holds for
all of them.
-/

namespace FormKernel.Table

open Comparison (exact_close)
open Form (Element ModifiedTerminal)
open List

/-! ## Kinds of reduced tables -/

/-- What the kind of a table says of the first permutation holds for all permutations. -/
structure Steady (a : Dense Float) (N E P D : Nat) (k : TableKind) : Prop where
  points : k.isPiecewise = true → ∀ p < N, SamePoints .exact a E P D p
  entities : k.isUniform = true → ∀ p < N, SameEntities .exact a E P D p
  identity : k = .quadrature → ∀ p < N, ∀ e < E, ∀ q < P, ∀ d < D,
    entry a p e q d = if q = d then 1.0 else 0.0

/-- All permutations are identity matrices on each entity. -/
def AllIdentity (v : Dense Float) (N E P D : Nat) : Prop :=
  P = D ∧ ∀ p < N, ∀ e < E, ∀ q < P, ∀ d < D, entry v p e q d = if q = d then 1.0 else 0.0

/-- How the kind of a table shows in the values that are left of it. -/
def Shows (v : Dense Float) (N E P D : Nat) : TableKind → Prop
  | .zeros => AllNear .exact v N E P D 0.0
  | .ones => ¬AllNear .exact v N E P D 0.0 ∧ AllNear .exact v N E P D 1.0
  | .quadrature => ¬AllNear .exact v N E P D 0.0 ∧ ¬AllNear .exact v N E P D 1.0 ∧
    AllIdentity v N E P D
  | .fixed => ¬AllNear .exact v N E P D 0.0 ∧ ¬AllNear .exact v N E P D 1.0 ∧
      ¬AllIdentity v N E P D ∧ E = 1 ∧ P = 1
  | .piecewise => ¬AllNear .exact v N E P D 0.0 ∧ ¬AllNear .exact v N E P D 1.0 ∧
      ¬AllIdentity v N E P D ∧ 1 < E ∧ P = 1
  | .uniform => ¬AllNear .exact v N E P D 0.0 ∧ ¬AllNear .exact v N E P D 1.0 ∧
      ¬AllIdentity v N E P D ∧ E = 1 ∧ 1 < P
  | .varying => ¬AllNear .exact v N E P D 0.0 ∧ ¬AllNear .exact v N E P D 1.0 ∧
      ¬AllIdentity v N E P D ∧ 1 < E ∧ 1 < P

lemma Shows.unique {v : Dense Float} {N E P D : Nat} {k k' : TableKind}
    (h : Shows v N E P D k) (h' : Shows v N E P D k') : k = k' := by
  cases k <;> cases k' <;> simp only [Shows] at h h' <;>
    first
    | rfl
    | exact absurd h h'.1
    | exact absurd h' h.1
    | exact absurd h.2 h'.2.1
    | exact absurd h'.2 h.2.1
    | exact absurd h.2.2 h'.2.2.1
    | exact absurd h'.2.2 h.2.2.1
    | omega

section Reduction

variable {a : Dense Float} {N E P D : Nat} {r : Reduced}

lemma steady_of_one {k : TableKind} (h : HasKind .exact a 1 E P D k) : Steady a 1 E P D k where
  points hk p hp q hq hpos e he d hd := by
    obtain rfl : p = 0 := by omega
    cases k with
    | zeros =>
      rw [exact_close, exact_close.1 (h 0 hp e he 0 (by omega) d hd),
        exact_close.1 (h 0 hp e he q hq d hd)]
    | ones =>
      rw [exact_close, exact_close.1 (h.2 0 hp e he 0 (by omega) d hd),
        exact_close.1 (h.2 0 hp e he q hq d hd)]
    | fixed | piecewise => exact h.2.2.2.1 q hq hpos e he d hd
    | quadrature | uniform | varying => cases hk
  entities hk p hp e he hpos q hq d hd := by
    obtain rfl : p = 0 := by omega
    cases k with
    | zeros =>
      rw [exact_close, exact_close.1 (h 0 hp 0 (by omega) q hq d hd),
        exact_close.1 (h 0 hp e he q hq d hd)]
    | ones =>
      rw [exact_close, exact_close.1 (h.2 0 hp 0 (by omega) q hq d hd),
        exact_close.1 (h.2 0 hp e he q hq d hd)]
    | fixed | uniform => exact h.2.2.2.2 e he hpos q hq d hd
    | quadrature | piecewise | varying => cases hk
  identity hk p hp e he q hq d hd := by
    obtain rfl : p = 0 := by omega
    subst hk
    exact exact_close.1 (h.2.2.2 e he q hq d hd)

variable (h : IsReduction .exact a N E P D r) (hs : Steady a N E P D r.kind)

include h hs

/-- Every entry of a steady table is found in what is left of it. -/
lemma IsReduction.entry_values {p e q d : Nat} (hp : p < N) (he : e < E) (hq : q < P)
    (hd : d < D) : entry r.values (if r.permuted then p else 0) (if r.kind.isUniform then 0 else e)
      (if r.kind.isPiecewise then 0 else q) d = entry a p e q d := by
  rw [h.entry_eq _ (kept_lt_extentAfter hp) _ (place_lt_extentAfter he) _ (place_lt_extentAfter hq)
    _ hd]
  exact h.entry_place hs.points hs.entities hp he hq hd

lemma IsReduction.allNear_iff {x : Float} :
    AllNear .exact r.values (extentAfter (!r.permuted) N) (extentAfter r.kind.isUniform E)
      (extentAfter r.kind.isPiecewise P) D x ↔ AllNear .exact a N E P D x := by
  constructor
  · intro hall p hp e he q hq d hd
    rw [← h.entry_values hs hp he hq hd]
    exact hall _ (kept_lt_extentAfter hp) _ (place_lt_extentAfter he) _
      (place_lt_extentAfter hq) d hd
  · intro hall p hp e he q hq d hd
    rw [h.entry_eq p hp e he q hq d hd]
    exact hall p (hp.trans_le (extentAfter_le _ _)) e (he.trans_le (extentAfter_le _ _)) q
      (hq.trans_le (extentAfter_le _ _)) d hd

/-- Reducing a table makes no identity matrices. -/
lemma IsReduction.not_allIdentity (hzero : ¬AllNear .exact a N E P D 0.0)
    (hone : ¬AllNear .exact a N E P D 1.0) (hidentity : ¬IsIdentity .exact a E P D) :
    ¬AllIdentity r.values (extentAfter (!r.permuted) N) (extentAfter r.kind.isUniform E)
      (extentAfter r.kind.isPiecewise P) D := by
  rintro ⟨hsquare, hall⟩
  have hpos : 0 < N ∧ 0 < P := by
    by_contra hempty
    exact hzero fun p hp e he q hq => by omega
  cases hk : r.kind.isPiecewise with
  | true =>
    -- one point and one degree of freedom: the matrices hold nothing but ones
    rw [hk] at hsquare hall
    have hD : D = 1 := by
      rw [← hsquare, extentAfter, if_pos rfl]
      omega
    refine hone ((h.allNear_iff hs).1 ?_)
    rw [hk]
    intro p hp e he q hq d hd
    rw [exact_close, hall p hp e he q hq d hd, if_pos (by omega)]
  | false =>
    rw [hk, extentAfter_false] at hsquare
    refine hidentity ⟨hsquare, fun e he q hq d hd => ?_⟩
    rw [exact_close, ← h.entry_values hs hpos.1 he hq hd, hk, if_neg Bool.false_ne_true]
    refine hall _ (kept_lt_extentAfter hpos.1) _ (place_lt_extentAfter he) q ?_ d hd
    rwa [hk, extentAfter_false]

/-- The kind of a steady table shows in what is left of it. -/
lemma IsReduction.shows : Shows r.values (extentAfter (!r.permuted) N)
    (extentAfter r.kind.isUniform E) (extentAfter r.kind.isPiecewise P) D r.kind := by
  have hnear := @IsReduction.allNear_iff a N E P D r h hs
  have hidentity := @IsReduction.not_allIdentity a N E P D r h hs
  have hkind := h.kind
  have hpos : ¬AllNear .exact a N E P D 0.0 → 0 < E ∧ 0 < P := by
    intro hzero
    by_contra hempty
    exact hzero fun p hp e he q hq => by omega
  have hentities : ¬SameEntities .exact a E P D 0 → 1 < E := by
    intro hdiffer
    by_contra hone
    exact hdiffer fun e he hpos => by omega
  have hpoints : ¬SamePoints .exact a E P D 0 → 1 < P := by
    intro hdiffer
    by_contra hone
    exact hdiffer fun q hq hpos => by omega
  have hcut : ∀ {n : Nat}, 0 < n → extentAfter true n = 1 := by
    intro n hn
    rw [extentAfter, if_pos rfl]
    omega
  cases hk : r.kind <;> rw [hk] at hkind <;>
    simp only
      [hk, TableKind.isUniform, TableKind.isPiecewise, extentAfter_false] at hnear hidentity ⊢
  case zeros => exact hnear.2 hkind
  case ones => exact ⟨mt hnear.1 hkind.1, hnear.2 hkind.2⟩
  case quadrature =>
    refine ⟨mt hnear.1 hkind.1, mt hnear.1 hkind.2.1, hkind.2.2.1, fun p hp e he q hq d hd => ?_⟩
    have heq := h.entry_eq p hp e (by rw [hk]; exact he) q (by rw [hk]; exact hq) d hd
    rw [heq]
    exact hs.identity hk p (hp.trans_le (extentAfter_le _ _)) e he q hq d hd
  case fixed =>
    obtain ⟨hE, hP⟩ := hpos hkind.1
    exact ⟨mt hnear.1 hkind.1, mt hnear.1 hkind.2.1, hidentity hkind.1 hkind.2.1 hkind.2.2.1,
      hcut hE, hcut hP⟩
  case piecewise =>
    obtain ⟨hE, hP⟩ := hpos hkind.1
    exact ⟨mt hnear.1 hkind.1, mt hnear.1 hkind.2.1, hidentity hkind.1 hkind.2.1 hkind.2.2.1,
      hentities hkind.2.2.2.2, hcut hP⟩
  case uniform =>
    obtain ⟨hE, hP⟩ := hpos hkind.1
    exact ⟨mt hnear.1 hkind.1, mt hnear.1 hkind.2.1, hidentity hkind.1 hkind.2.1 hkind.2.2.1,
      hcut hE, hpoints hkind.2.2.2.1⟩
  case varying =>
    exact ⟨mt hnear.1 hkind.1, mt hnear.1 hkind.2.1, hidentity hkind.1 hkind.2.1 hkind.2.2.1,
      hentities hkind.2.2.2.2, hpoints hkind.2.2.2.1⟩

end Reduction

/-- Values that may be left of a table of some kind. -/
def IsKindOf (k : TableKind) (v : Dense Float) : Prop :=
  ∃ N E P D, IsTable v N E P D ∧ Shows v N E P D k

/-- The values that are left of a table tell its kind. -/
lemma IsKindOf.unique {k k' : TableKind} {v : Dense Float} (h : IsKindOf k v)
    (h' : IsKindOf k' v) : k = k' := by
  obtain ⟨N, E, P, D, htable, hshows⟩ := h
  obtain ⟨N', E', P', D', htable', hshows'⟩ := h'
  have hshape := htable.shape.symm.trans htable'.shape
  simp only [cons.injEq, and_true] at hshape
  obtain ⟨rfl, rfl, rfl, rfl⟩ := hshape
  exact hshows.unique hshows'

lemma IsKindOf.filled {k : TableKind} {v : Dense Float} (h : IsKindOf k v) :
    v.data.size = volume v.shape := by
  obtain ⟨_, _, _, _, htable, -⟩ := h
  exact htable.filled

/-! ## Equal tables -/

lemma allClose_exact {xs ys : List Float} (h : xs.length = ys.length) :
    allClose .exact xs ys = true ↔ xs = ys := by
  induction xs generalizing ys with
  | nil => simp [allClose, length_eq_zero_iff.1 h.symm]
  | cons x xs ih =>
    cases ys with
    | nil => simp at h
    | cons y ys =>
      have htail : allClose .exact xs ys = true ↔ xs = ys := ih (by simpa using h)
      simp only [allClose, zip_cons_cons, all_cons, Bool.and_eq_true,
        exact_close, cons.injEq] at htail ⊢
      rw [htail]

/-- Tables that are compared by equality are equal if they are the same. -/
lemma equalTables_exact {a b : Dense Float} (ha : a.data.size = volume a.shape)
    (hb : b.data.size = volume b.shape) : equalTables .exact a b = true ↔ a = b := by
  obtain ⟨shape, data⟩ := a
  obtain ⟨shape', data'⟩ := b
  rw [equalTables, Bool.and_eq_true, beq_iff_eq]
  constructor
  · rintro ⟨rfl, hdata⟩
    rw [allClose_exact (by simpa using ha.trans hb.symm)] at hdata
    exact congrArg (Dense.mk shape) (Array.toList_inj.1 hdata)
  · rintro ⟨rfl, rfl⟩
    exact ⟨rfl, (allClose_exact rfl).2 rfl⟩

/-! ## Numbers of elements -/

variable {es : List Element} {m : ModifiedTerminal}

lemma exists_mem_sortUnique {e : Element}
    (h : e ∈ es) : ∃ x ∈ Element.sortUnique es, x.id = e.id := by
  have hgo : ∀ (es acc : List Element), (∀ x ∈ acc, x ∈ es.foldl
      (fun out e => if out.any (· == e) then out else out ++ [e]) acc) ∧ ∀ e ∈ es,
        ∃ x ∈ es.foldl (fun out e => if out.any (· == e) then out else out ++ [e]) acc,
        x.id = e.id := by
    intro es
    induction es with
    | nil => exact fun acc => ⟨fun x hx => hx, by simp⟩
    | cons e es ih =>
      intro acc
      rw [foldl_cons]
      split
      · next hany =>
        obtain ⟨x, hx, hid⟩ := any_eq_true.1 hany
        refine ⟨(ih acc).1, fun e' he' => ?_⟩
        rcases mem_cons.1 he' with rfl | he'
        · exact ⟨x, (ih acc).1 x hx, eq_of_beq hid⟩
        · exact (ih acc).2 e' he'
      · refine ⟨fun x hx => (ih _).1 x (mem_append_left _ hx), fun e' he' => ?_⟩
        rcases mem_cons.1 he' with rfl | he'
        · exact ⟨e', (ih _).1 e' (by simp), rfl⟩
        · exact (ih _).2 e' he'
  obtain ⟨x, hx, hid⟩ := (hgo es []).2 e h
  exact ⟨x, (mergeSort_perm _ _).mem_iff.2 hx, hid⟩

/-- Elements with the same number in an integral are the same. -/
lemma elementNumber_injective {a b : Element} (ha : a ∈ es) (hb : b ∈ es)
    (h : elementNumber (elementNumbers es) a = elementNumber (elementNumbers es) b) :
    a.id = b.id := by
  have hplace : ∀ {e : Element}, e ∈ es → ∃ x, (elementNumbers es)[elementNumber
      (elementNumbers es) e]? = some x ∧ x.id = e.id := by
    intro e he
    have hclosure : e ∈ es.flatMap Element.closure := mem_flatMap.2 ⟨e, he, mem_cons_self⟩
    obtain ⟨x, hx, hid⟩ := exists_mem_sortUnique hclosure
    have hsome : ((elementNumbers es).findIdx? (· == e)).isSome := by
      rw [findIdx?_isSome, any_eq_true]
      exact ⟨x, hx, show (x.id == e.id) = true from beq_iff_eq.2 hid⟩
    obtain ⟨i, hi⟩ := Option.isSome_iff_exists.1 hsome
    obtain ⟨hlt, hbeq, -⟩ := findIdx?_eq_some_iff_getElem.1 hi
    refine ⟨(elementNumbers es)[i], ?_, eq_of_beq hbeq⟩
    rw [elementNumber, hi, Option.getD_some, getElem?_eq_getElem hlt]
  obtain ⟨x, hx, hxid⟩ := hplace ha
  obtain ⟨y, hy, hyid⟩ := hplace hb
  rw [h, hy] at hx
  rw [← hxid, ← hyid, Option.some.inj hx]

/-! ## Adding the table of a terminal -/

def ownName (s : Setting) (numbers : List Element) (e : TerminalElement) : Outcome String :=
  tableName s.rule (elementNumber numbers e.element) e.averaged s.entity e.derivatives e.component

def reducedTable (s : Setting) (e : TerminalElement) : Outcome Reduced := do
  let raw ← rawTable s e
  reduce s.comparison (clamp s.tolerance [-1.0, 0.0, 1.0] raw.values)

lemma mem_putTerminal {t : TableRef} {entries : List TableEntry} {x : TableEntry}
    (h : x ∈ putTerminal m t entries) : x ∈ entries ∨ ∃ n, x = .terminal n t := by
  induction entries with
  | nil => exact .inr ⟨m, mem_singleton.1 h⟩
  | cons y entries ih =>
    cases y with
    | factor f =>
      rcases mem_cons.1 h with rfl | h
      · exact .inl mem_cons_self
      · exact (ih h).imp_left (mem_cons_of_mem _)
    | terminal n u =>
      rw [putTerminal] at h
      split at h
      · rcases mem_cons.1 h with rfl | h
        · exact .inr ⟨n, rfl⟩
        · exact .inl (mem_cons_of_mem _ h)
      · rcases mem_cons.1 h with rfl | h
        · exact .inl mem_cons_self
        · exact (ih h).imp_left (mem_cons_of_mem _)

/-- What adding the table of a terminal does: its values are stored under its own name unless they
    are known, its factors are added, and a reference to it is set. -/
lemma addTable_eq_ok {s : Setting} {numbers : List Element} {tables tables' : Tables}
    {e : TerminalElement} (h : addTable s numbers tables (m, e) = .ok tables') :
    ∃ name r t, ownName s numbers e = .ok name ∧ reducedTable s e = .ok r ∧
      share s.comparison name r.values tables.arrays = ((t.name, t.values), tables'.arrays) ∧
      split s e tables.factors = .ok (tables'.factors, t.factors) ∧ t.kind = r.kind ∧
      tables'.entries = putTerminal m t
        (tables.entries ++ (tables'.factors.drop tables.factors.length).map .factor) := by
  obtain ⟨name, hname, raw, hraw, r, hr, h⟩ := bind₃_eq_ok.1 h
  obtain ⟨-, h⟩ := ite_throw_eq_ok h
  obtain ⟨⟨factors, own⟩, hsplit, h⟩ := bind_eq_ok.1 h
  cases h
  exact ⟨name, r, _, hname, bind_eq_ok.2 ⟨raw, hraw, hr⟩, rfl, hsplit, rfl, rfl⟩

/-! ## Building all tables -/

/-- Tables under different names are not confused: names of the elements of a rule differ, and
    tables that are known already belong to other rules. -/
structure Distinguished (s : Setting) (numbers : List Element) (elements : List TerminalElement)
    (known : List (String × Dense Float)) : Prop where
  own : ∀ e ∈ elements, ∀ e' ∈ elements, ∀ name, ownName s numbers e = .ok name →
    ownName s numbers e' = .ok name → e = e'
  other : ∀ name v, known.lookup name = some v → ¬NamedFor s.rule name

/-- The state of the tables after some terminals: nothing that was known has changed, all else is
    stored under the name of its element, and references find their values. -/
structure Built (s : Setting) (numbers : List Element) (elements : List TerminalElement)
    (known : List (String × Dense Float)) (tables : Tables) : Prop where
  nodup : (tables.arrays.map (·.1)).Nodup
  filled : ∀ a ∈ tables.arrays, a.2.data.size = volume a.2.shape
  kept : ∀ name v, known.lookup name = some v → tables.arrays.lookup name = some v
  origin : ∀ name v, tables.arrays.lookup name = some v → known.lookup name = some v ∨
    ∃ e ∈ elements, ∃ r, ownName s numbers e = .ok name ∧ reducedTable s e = .ok r ∧ r.values = v
  entries : ∀ x ∈ tables.entries, ∃ m t, x = .terminal m t ∧ t.factors = none ∧
    tables.arrays.lookup t.name = some t.values ∧ IsKindOf t.kind t.values

section Build

variable {s : Setting} {numbers : List Element} {elements : List TerminalElement}
  {known : List (String × Dense Float)} {tables tables' : Tables} {e : TerminalElement}

/-- Elements whose tables can be told apart by their names and by their values: elements with one
    number are the same, all meshes have one dimension, nothing is differentiated ten times in one
    direction, and the kinds of tables on interior facets hold for all ways of seeing the points. -/
structure Regular (s : Setting) (elements : List TerminalElement) : Prop where
  element : ∀ e ∈ elements, ∀ e' ∈ elements, e.element.id = e'.element.id → e.element = e'.element
  dimension : ∀ e ∈ elements, ∀ e' ∈ elements, e.derivatives.length = e'.derivatives.length
  derivatives : ∀ e ∈ elements, ∀ d ∈ e.derivatives, d ≤ 9
  steady : s.kind = .interiorFacet → ∀ e ∈ elements, ∀ raw, rawTable s e = .ok raw →
    ∀ N E P D k, IsTable (clamp s.tolerance [-1.0, 0.0, 1.0] raw.values) N E P D →
      TableKind.of .exact (clamp s.tolerance [-1.0, 0.0, 1.0] raw.values) = .ok k →
      Steady (clamp s.tolerance [-1.0, 0.0, 1.0] raw.values) N E P D k

lemma Built.start (hknown : (known.map (·.1)).Nodup)
    (hfilled : ∀ a ∈ known, a.2.data.size = volume a.2.shape) :
    Built s numbers elements known { arrays := known } where
  nodup := hknown
  filled := hfilled
  kept _ _ h := h
  origin _ _ h := .inl h
  entries _ h := absurd h not_mem_nil

variable {r : Reduced} {terminals : List ModifiedTerminal}

/-- A name under which values are to be stored is new. -/
lemma Built.notMem (hexact : s.comparison = .exact) (hdist : Distinguished s numbers elements known)
    (h : Built s numbers elements known tables) (he : e ∈ elements) {name : String}
    (hname : ownName s numbers e = .ok name) (hr : reducedTable s e = .ok r)
    (hfilled : r.values.data.size = volume r.values.shape)
    (hnew : tables.arrays.find? (fun a => equalTables s.comparison r.values a.2) = none) :
    name ∉ tables.arrays.map (·.1) := by
  intro hmem
  obtain ⟨⟨name', v⟩, harray, rfl⟩ := mem_map.1 hmem
  rcases h.origin name' v (lookup_eq_some_of_mem h.nodup harray) with
    hknown | ⟨e', he', r', hname', hr', rfl⟩
  · -- tables that were known belong to other rules
    exact hdist.other name' v hknown (namedFor_of_tableName hname)
  · -- a table of the same name has the same values, so it would have been found
    obtain rfl := hdist.own e he e' he' name' hname hname'
    obtain rfl := Except.ok.inj (hr.symm.trans hr')
    have hdiffer := find?_eq_none.1 hnew _ harray
    rw [hexact] at hdiffer
    exact hdiffer ((equalTables_exact hfilled hfilled).2 rfl)

/-- Adding the table of a terminal keeps all references. -/
lemma Built.addTable (hexact : s.comparison = .exact) (hplain : s.factorized = false)
    (hdist : Distinguished s numbers elements known)
    (hkind : ∀ e ∈ elements, ∀ r, reducedTable s e = .ok r → IsKindOf r.kind r.values)
    (h : Built s numbers elements known tables) (he : e ∈ elements)
    (hadd : addTable s numbers tables (m, e) = .ok tables') :
    Built s numbers elements known tables' := by
  obtain ⟨name, r, t, hname, hr, hshare, hsplit, hk, hentries⟩ := addTable_eq_ok hadd
  have hkind' := hkind e he r hr
  obtain ⟨arrays, factors, entries⟩ := tables'
  obtain ⟨rfl, hfactors⟩ : tables.factors = factors ∧ none = t.factors := by
    rw [split, hplain] at hsplit
    exact Prod.mk.inj (Except.ok.inj hsplit)
  dsimp only at hshare hentries
  rw [drop_length, map_nil, append_nil] at hentries
  subst hentries
  rw [share] at hshare
  split at hshare
  · -- an equal table is known
    next found hfound =>
    obtain ⟨rfl, rfl⟩ := Prod.mk.inj hshare
    have hmem := mem_of_find?_eq_some hfound
    have hequal := find?_some hfound
    rw [hexact] at hequal
    have hvalues : r.values = t.values :=
      (equalTables_exact hkind'.filled (h.filled _ hmem)).1 hequal
    refine ⟨h.nodup, h.filled, h.kept, h.origin, fun x hx => ?_⟩
    rcases mem_putTerminal hx with hold | ⟨n, rfl⟩
    · exact h.entries x hold
    · exact ⟨n, t, rfl, hfactors.symm, lookup_eq_some_of_mem h.nodup hmem,
        by rw [hk, ← hvalues]; exact hkind'⟩
  · -- the values are stored under a new name
    next hnew =>
    have hfresh := h.notMem hexact hdist he hname hr hkind'.filled hnew
    obtain ⟨hown, rfl⟩ := Prod.mk.inj hshare
    obtain ⟨rfl, hvalues⟩ := Prod.mk.inj hown
    have hstored : ∀ n v, tables.arrays.lookup n = some v →
        (assign t.name r.values tables.arrays).lookup n = some v := by
      intro n v hv
      have hne : n ≠ t.name := by
        rintro rfl
        exact hfresh (mem_map.2 ⟨_, mem_of_lookup_eq_some hv, rfl⟩)
      rwa [lookup_assign, beq_false_of_ne hne]
    refine ⟨nodup_keys_assign h.nodup, fun a ha => ?_, fun n v hv => hstored n v (h.kept n v hv),
      fun n v hv => ?_, fun x hx => ?_⟩
    · rw [assign_of_notMem hfresh, mem_append, mem_singleton] at ha
      rcases ha with ha | rfl
      · exact h.filled a ha
      · exact hkind'.filled
    · rw [lookup_assign] at hv
      split at hv
      · next hn =>
        obtain rfl := eq_of_beq hn
        exact .inr ⟨e, he, r, hname, hr, Option.some.inj hv⟩
      · exact h.origin n v hv
    · rcases mem_putTerminal hx with hold | ⟨n, rfl⟩
      · obtain ⟨n, u, rfl, hnone, hlookup, hu⟩ := h.entries x hold
        exact ⟨n, u, rfl, hnone, hstored _ _ hlookup, hu⟩
      · refine ⟨n, t, rfl, hfactors.symm, ?_, by rw [hk, ← hvalues]; exact hkind'⟩
        rw [lookup_assign, beq_self_eq_true, if_pos rfl, hvalues]

/-- What is left of the table of a regular element tells its kind. -/
lemma Regular.isKindOf (hregular : Regular s elements) (hexact : s.comparison = .exact)
    (he : e ∈ elements) (hr : reducedTable s e = .ok r) : IsKindOf r.kind r.values := by
  obtain ⟨raw, hraw, hr⟩ := bind_eq_ok.1 hr
  rw [hexact] at hr
  obtain ⟨N, E, P, D, hN, htable, hone⟩ := isTable_rawTable hraw
  have hclamp : IsTable (clamp s.tolerance [-1.0, 0.0, 1.0] raw.values) N E P D :=
    isTable_clamp htable
  obtain ⟨r', hr', hred⟩ := exists_reduction (c := .exact) hclamp hN
  obtain rfl := Except.ok.inj (hr.symm.trans hr')
  refine ⟨_, _, _, _, hred.table, hred.shows ?_⟩
  by_cases hkind : s.kind = .interiorFacet
  · exact hregular.steady hkind e he raw hraw N E P D r.kind hclamp (kind_of_reduce hr)
  · obtain rfl := hone hkind
    exact steady_of_one hred.kind

/-- Regular elements have different names. -/
lemma Regular.distinguished {elements : List TerminalElement} (hregular : Regular s elements)
    (hother : ∀ name v, known.lookup name = some v → ¬NamedFor s.rule name) :
    Distinguished s (elementNumbers (elements.map (·.element))) elements known where
  own e he e' he' name hname hname' := by
    obtain ⟨hnumber, haverage, hderivatives, hcomponent⟩ := tableName_injective
      (hregular.derivatives e he) (hregular.derivatives e' he') (hregular.dimension e he e' he')
      hname hname'
    have hid := elementNumber_injective (mem_map.2 ⟨e, he, rfl⟩)
      (mem_map.2 ⟨e', he', rfl⟩) hnumber
    have helement := hregular.element e he e' he' hid
    cases e
    cases e'
    simp_all
  other := hother

def elementsOf (terminals : List ModifiedTerminal) : Outcome (List TerminalElement) :=
  return (← terminals.mapM terminalElement).filterMap id

/-- The tables of terminals are added one after the other. -/
lemma buildTables_eq_ok (h : buildTables s terminals known = .ok tables) :
    ∃ tasks : List (ModifiedTerminal × TerminalElement),
      elementsOf terminals = .ok (tasks.map (·.2)) ∧
      tasks.foldlM (Table.addTable s (elementNumbers ((tasks.map (·.2)).map (·.element))))
        { arrays := known } = .ok tables := by
  obtain ⟨analysed, hanalysed, h⟩ := bind_eq_ok.1 h
  let tasks : List (ModifiedTerminal × TerminalElement) :=
    analysed.filterMap fun p => p.2.map fun e => (p.1, e)
  have hmapM : terminals.mapM terminalElement = .ok (analysed.map (·.2)) := by
    rw [mapM_eq_ok, forall₂_map_right_iff]
    refine (mapM_eq_ok.1 hanalysed).imp fun m p hp => ?_
    obtain ⟨e, he, hp⟩ := bind_eq_ok.1 hp
    rw [he, ← pure_eq_ok.1 hp]
  have htasks : tasks.map (·.2) = (analysed.map (·.2)).filterMap id := by
    rw [filterMap_map, map_filterMap]
    congr 1
    funext ⟨m, e⟩
    cases e <;> rfl
  refine ⟨tasks, bind_eq_ok.2 ⟨_, hmapM, by rw [htasks]; rfl⟩, ?_⟩
  rwa [map_map]

/-- Every reference that is built finds its values under its name. -/
lemma built_buildTables (hexact : s.comparison = .exact) (hplain : s.factorized = false)
    (hknown : (known.map (·.1)).Nodup) (hfilled : ∀ a ∈ known, a.2.data.size = volume a.2.shape)
    (hother : ∀ name v, known.lookup name = some v → ¬NamedFor s.rule name)
    (hregular : ∀ es, elementsOf terminals = .ok es → Regular s es)
    (h : buildTables s terminals known = .ok tables) :
    ∃ numbers elements, Built s numbers elements known tables := by
  obtain ⟨tasks, helements, hfold⟩ := buildTables_eq_ok h
  have hreg := hregular _ helements
  let numbers := elementNumbers ((tasks.map (·.2)).map (·.element))
  refine ⟨numbers, tasks.map (·.2), foldlM_induction (Built s numbers (tasks.map (·.2)) known)
    (Built.start hknown hfilled) ?_ hfold⟩
  rintro tables ⟨m, e⟩ tables' htask hbuilt hadd
  exact hbuilt.addTable hexact hplain (hreg.distinguished hother)
    (fun e he r hr => hreg.isKindOf hexact he hr) (mem_map.2 ⟨_, htask, rfl⟩) hadd

end Build

end FormKernel.Table
