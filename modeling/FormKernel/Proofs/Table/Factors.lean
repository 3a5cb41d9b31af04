import FormKernel.Proofs.Table.Sharing

/-!
# Factors of tables

With sum factorisation the table of a product element is split into the tables of its factors.  The
factors of a rule are numbered in the order in which they are met, and a factor that has been met
before keeps its number.  No table has a name that a factor may have, unless it was known under it.
-/

namespace FormKernel.Table

open Form (Average Element EntityKind ModifiedTerminal)
open Quadrature (Rule)
open List

/-! ## Names of factors -/

def IsFactorName (name : String) : Prop := ∃ place, name = factorName place

lemma toList_factorName (place : Nat) :
    (factorName place).toList = 'F' :: 'E' :: '_' :: 'T' :: 'F' :: (toString place).toList := by
  simp [factorName, String.toList_append]
  rfl

lemma factorName_injective {place place' : Nat} (h : factorName place = factorName place') :
    place = place' := by
  have hdigits : (toString place).toList = (toString place').toList := by
    simpa [toList_factorName] using congrArg String.toList h
  refine Nat.repr_inj.1 (String.toList_inj.1 ?_)
  simpa only [Nat.toString_eq_repr] using hdigits

/-- The table of an element is named by a number, a factor is not. -/
lemma not_isFactorName {rule : Rule} {n : Nat} {averaged : Option Average} {entity : EntityKind}
    {ds : List Nat} {c : Option Int} {name : String}
    (h : tableName rule n averaged entity ds c = .ok name) : ¬IsFactorName name := by
  rintro ⟨place, rfl⟩
  obtain ⟨_, _, -, -, hname⟩ := tableName_eq_ok h
  rw [toList_factorName] at hname
  simp only [cons_append, cons.injEq, true_and, append_assoc] at hname
  have hnumber : '_' ∉ (toString n).toList := by simp [Nat.toString_eq_repr]
  cases hdigits : (toString n).toList with
  | nil => exact absurd hdigits (by simp [Nat.toString_eq_repr])
  | cons d digits =>
    rw [hdigits, cons_append] at hname
    rw [hdigits] at hnumber
    exact hnumber ((cons.inj hname).1 ▸ mem_cons_self)

/-! ## Splitting tables -/

/-- Factors that are named by their places. -/
def Numbered (factors : List TableFactor) : Prop :=
  ∀ place f, factors[place]? = some f → f.name = factorName place

section Split

variable {s : Setting} {e : TerminalElement} {known factors : List TableFactor}

lemma Numbered.isFactorName (h : Numbered factors) {f : TableFactor} (hf : f ∈ factors) :
    IsFactorName f.name := by
  obtain ⟨place, hplace⟩ := mem_iff_getElem?.1 hf
  exact ⟨place, h place f hplace⟩

lemma Numbered.eq_of_name (h : Numbered factors) {f g : TableFactor} (hf : f ∈ factors)
    (hg : g ∈ factors) (hname : f.name = g.name) : f = g := by
  obtain ⟨place, hplace⟩ := mem_iff_getElem?.1 hf
  obtain ⟨place', hplace'⟩ := mem_iff_getElem?.1 hg
  rw [h place f hplace, h place' g hplace'] at hname
  obtain rfl := factorName_injective hname
  exact Option.some.inj (hplace.symm.trans hplace')

lemma Numbered.addFactor (h : Numbered known) (values : Dense Float) :
    Numbered (addFactor known values).1 ∧ known <+: (addFactor known values).1 ∧
      (addFactor known values).2 ∈ (addFactor known values).1 := by
  unfold Table.addFactor
  split
  · next f hf => exact ⟨h, prefix_refl _, mem_of_find?_eq_some hf⟩
  · refine ⟨fun place f hplace => ?_, prefix_append _ _, by simp⟩
    rw [getElem?_append] at hplace
    split at hplace
    · exact h place f hplace
    · next hlt =>
      obtain ⟨hzero, hf⟩ := List.getElem?_eq_some_iff.1 hplace
      have hlast : place = known.length := by
        rw [length_singleton] at hzero
        omega
      subst hlast
      simp [← hf]

/-- Splitting a table adds factors to those that are known, and finds all its own among them. -/
lemma Numbered.split (h : Numbered known) {own : Option (List TableFactor)}
    (hsplit : split s e known = .ok (factors, own)) :
    Numbered factors ∧ known <+: factors ∧ ∀ fs, own = some fs → ∀ f ∈ fs, f ∈ factors := by
  unfold Table.split at hsplit
  split at hsplit
  · obtain ⟨⟨known', found⟩, hfound, hsplit⟩ := bind_eq_ok.1 hsplit
    obtain ⟨⟨known'', found'⟩, hloop, hfound⟩ := bind_eq_ok.1 hfound
    obtain ⟨-, hfound⟩ := ite_throw_eq_ok hfound
    cases hfound
    cases hsplit
    have hall := foldlM_induction (fun state : List TableFactor × List TableFactor =>
      Numbered state.1 ∧ known <+: state.1 ∧ ∀ f ∈ state.2, f ∈ state.1)
      ⟨h, prefix_refl _, by simp⟩ ?_ hloop
    · exact ⟨hall.1, hall.2.1, fun fs hfs => Option.some.inj hfs ▸ hall.2.2⟩
    · rintro ⟨known₁, found₁⟩ ⟨place, factor⟩ state - ⟨hnumbered, hprefix, hfound⟩ hstep
      obtain ⟨values, -, hstep⟩ := bind_eq_ok.1 hstep
      cases hstep
      obtain ⟨hnumbered', hprefix', hmem⟩ := hnumbered.addFactor values
      refine ⟨hnumbered', hprefix.trans hprefix', fun f hf => ?_⟩
      rcases mem_append.1 hf with hf | hf
      · exact hprefix'.subset (hfound f hf)
      · exact mem_singleton.1 hf ▸ hmem
  · cases hsplit
    exact ⟨h, prefix_refl _, by simp⟩

end Split

/-! ## Factors of all tables -/

/-- The factors of the tables of elements, whatever tables are known. -/
def factorsOf (s : Setting) (elements : List TerminalElement) : Outcome (List TableFactor) :=
  elements.foldlM (fun known e => do return (← split s e known).1) []

lemma numbered_factorsOf {s : Setting} {elements : List TerminalElement}
    {factors : List TableFactor} (h : factorsOf s elements = .ok factors) : Numbered factors := by
  refine foldlM_induction Numbered (by simp [Numbered]) ?_ h
  intro known e next _ hknown hstep
  obtain ⟨_, hsplit, hstep⟩ := bind_eq_ok.1 hstep
  cases hstep
  exact (hknown.split hsplit).1

/-- The state of the tables after some terminals: factors are numbered, each has an entry, and
    other tables have the name of a factor only if they were known. -/
structure Factored (known : List (String × Dense Float)) (tables : Tables) : Prop where
  numbered : Numbered tables.factors
  entry : ∀ f, TableEntry.factor f ∈ tables.entries ↔ f ∈ tables.factors
  own : ∀ m t, TableEntry.terminal m t ∈ tables.entries → ∀ fs, t.factors = some fs →
    ∀ f ∈ fs, f ∈ tables.factors
  taken : ∀ m t, TableEntry.terminal m t ∈ tables.entries → IsFactorName t.name →
    (t.name, t.values) ∈ known
  arrays : ∀ a ∈ tables.arrays, IsFactorName a.1 → a ∈ known

lemma factor_mem_putTerminal {m : ModifiedTerminal} {t : TableRef} {entries : List TableEntry}
    {f : TableFactor} : TableEntry.factor f ∈ putTerminal m t entries ↔
      TableEntry.factor f ∈ entries := by
  induction entries with
  | nil => simp [putTerminal]
  | cons x entries ih =>
    cases x with
    | factor g => rw [putTerminal, mem_cons, mem_cons, ih]
    | terminal n u =>
      rw [putTerminal]
      split
      · simp
      · rw [mem_cons, mem_cons, ih]

section Build

variable {s : Setting} {numbers : List Element} {known : List (String × Dense Float)}
  {tables tables' : Tables} {m : ModifiedTerminal} {e : TerminalElement}

lemma Factored.start : Factored known { arrays := known } where
  numbered := by simp [Numbered]
  entry := by simp
  own := by simp
  taken := by simp
  arrays a ha _ := ha

/-- The name that a table is stored under is its own or that of a known table. -/
lemma Factored.share (h : Factored known tables) {c : Comparison} {name : String}
    {values : Dense Float} {shared : String × Dense Float} {arrays : List (String × Dense Float)}
    (hname : ¬IsFactorName name) (hshare : share c name values tables.arrays = (shared, arrays)) :
    (IsFactorName shared.1 → shared ∈ known) ∧ ∀ a ∈ arrays, IsFactorName a.1 → a ∈ known := by
  unfold Table.share at hshare
  split at hshare
  · next found hfound =>
    obtain ⟨rfl, rfl⟩ := Prod.mk.inj hshare
    exact ⟨h.arrays _ (mem_of_find?_eq_some hfound), h.arrays⟩
  · obtain ⟨rfl, rfl⟩ := Prod.mk.inj hshare
    refine ⟨fun hfactor => absurd hfactor hname, fun a ha hfactor => ?_⟩
    rcases mem_assign ha with rfl | ha
    · exact absurd hfactor hname
    · exact h.arrays a ha hfactor

/-- Adding the table of a terminal keeps the factors in order. -/
lemma Factored.addTable (h : Factored known tables)
    (hadd : addTable s numbers tables (m, e) = .ok tables') : Factored known tables' := by
  obtain ⟨name, r, t, hname, -, hshare, hsplit, -, hentries⟩ := addTable_eq_ok hadd
  obtain ⟨hnumbered, ⟨new, hnew⟩, hown⟩ := h.numbered.split hsplit
  obtain ⟨hshared, harrays⟩ := h.share (not_isFactorName hname) hshare
  rw [← hnew, drop_left] at hentries
  have hmem : ∀ {x}, x ∈ tables'.entries → x ∈ tables.entries ∨ (∃ f, x = .factor f) ∨
      ∃ n, x = .terminal n t := by
    intro x hx
    rw [hentries] at hx
    rcases mem_putTerminal hx with hx | hx
    · rcases mem_append.1 hx with hx | hx
      · exact .inl hx
      · obtain ⟨f, -, rfl⟩ := mem_map.1 hx
        exact .inr (.inl ⟨f, rfl⟩)
    · exact .inr (.inr hx)
  refine ⟨hnumbered, fun f => ?_, fun n u hu fs hfs f hf => ?_, fun n u hu hfactor => ?_, harrays⟩
  · rw [hentries, factor_mem_putTerminal, mem_append, h.entry, ← hnew, mem_append]
    simp
  · rcases hmem hu with hold | ⟨_, hfactor⟩ | ⟨_, hterminal⟩
    · rw [← hnew]
      exact mem_append_left _ (h.own n u hold fs hfs f hf)
    · cases hfactor
    · obtain ⟨-, rfl⟩ := TableEntry.terminal.inj hterminal
      exact hown fs hfs f hf
  · rcases hmem hu with hold | ⟨_, hfactor⟩ | ⟨_, hterminal⟩
    · exact h.taken n u hold hfactor
    · cases hfactor
    · obtain ⟨-, rfl⟩ := TableEntry.terminal.inj hterminal
      exact hshared hfactor

/-- The factors of the tables of a rule are those of its elements, in order. -/
lemma factored_buildTables {terminals : List ModifiedTerminal}
    (h : buildTables s terminals known = .ok tables) :
    Factored known tables ∧ ∃ es, elementsOf terminals = .ok es ∧
      factorsOf s es = .ok tables.factors := by
  obtain ⟨tasks, helements, hfold⟩ := buildTables_eq_ok h
  refine ⟨foldlM_induction (Factored known) .start ?_ hfold, _, helements, ?_⟩
  · rintro tables ⟨m, e⟩ tables' - hfactored hadd
    exact hfactored.addTable hadd
  · refine foldlM_project (p := Tables.factors) (q := Prod.snd) ?_ hfold
    rintro tables ⟨m, e⟩ tables' hadd
    obtain ⟨_, _, _, -, -, -, hsplit, -, -⟩ := addTable_eq_ok hadd
    exact bind_eq_ok.2 ⟨_, hsplit, rfl⟩

end Build

end FormKernel.Table
