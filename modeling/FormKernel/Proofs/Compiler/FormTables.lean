import FormKernel.Proofs.Compiler.Names

/-!
# The tables of a form

A form lists its kernels by kind, those of one kind in the order of the parts of the mesh that they
belong to.  Names and numbers go through separate lists, which stay in step: each number stands
beside the name of the kernel of its group.
-/

namespace FormKernel

namespace Code

open Form (IntegralKind)
open List

/-- Adds names with their numbers. -/
def IntegralList.extend (l : IntegralList) (entries : List (String × Int)) : IntegralList where
  names := l.names ++ entries.map (·.1)
  ids := l.ids ++ entries.map (·.2)

@[simp] lemma IntegralList.extend_nil (l : IntegralList) : l.extend [] = l := by
  simp [extend]

@[simp] lemma IntegralList.extend_append (l : IntegralList) (es es' : List (String × Int)) :
    l.extend (es ++ es') = (l.extend es).extend es' := by
  simp [extend]

/-- Sorting by the numbers moves the names along. -/
lemma IntegralList.sorted_extend (entries : List (String × Int)) :
    (IntegralList.extend {} entries).sorted.Perm entries ∧
      (IntegralList.extend {} entries).sorted.Pairwise fun a b => a.2 ≤ b.2 := by
  have hzip : (IntegralList.extend {} entries).names.zip (IntegralList.extend {} entries).ids =
      entries := by
    simp [extend, zip_map', map_id']
  rw [sorted, hzip]
  refine ⟨mergeSort_perm _ _, ?_⟩
  have hsorted := @pairwise_mergeSort (String × Int) (fun a b => decide (a.2 ≤ b.2))
    (by simpa using fun _ _ _ => Int.le_trans) (by simpa using fun _ _ => Int.le_total _ _) entries
  simpa using hsorted

/-- Adds names with their numbers for every kind. -/
def FormRecord.extend (r : FormRecord) (entries : IntegralKind → List (String × Int)) :
    FormRecord :=
  { r with
    cellIntegrals := r.cellIntegrals.extend (entries .cell)
    exteriorIntegrals := r.exteriorIntegrals.extend (entries .exteriorFacet)
    interiorIntegrals := r.interiorIntegrals.extend (entries .interiorFacet) }

/-- The table of a form and the places where its kinds start, as they are written. -/
def FormRecord.tableLines (f : FormRecord) (offsets : List Nat)
    (table : List (String × Int)) : List String :=
  [array "int" s!"form_integral_offsets_{f.name}" (offsets.map toString),
    (optionalArray "static ufcx_integral*" s!"form_integrals_{f.name}"
      (table.map fun i => "&" ++ i.1)).1,
    (optionalArray "int" s!"form_integral_ids_{f.name}" (table.map fun i => toString i.2)).1]

lemma FormRecord.exists_code (f : FormRecord) (h : ∀ p ∈ f.spaces, p.2.variant.isSome = true) :
    ∃ snippet front back, f.code = .ok snippet ∧ snippet.implementation = block (front ++
      f.tableLines [0, f.cellIntegrals.sorted.length,
          f.cellIntegrals.sorted.length + f.exteriorIntegrals.sorted.length,
          f.cellIntegrals.sorted.length + f.exteriorIntegrals.sorted.length +
            f.interiorIntegrals.sorted.length]
        (f.cellIntegrals.sorted ++ f.exteriorIntegrals.sorted ++ f.interiorIntegrals.sorted) ++
          back) := by
  obtain ⟨spaces, hspaces⟩ : ∃ spaces, f.spaces.mapM (fun p : String × FunctionSpace =>
      p.2.lines s!"functionspace_{p.1}" s!"value_shape_{f.name}_{p.1}") = .ok spaces := by
    refine exists_mapM fun p hp => ?_
    obtain ⟨v, hv⟩ := Option.isSome_iff_exists.1 (h p hp)
    rw [FunctionSpace.lines, hv]
    dsimp only
    split
    · exact ⟨_, rfl⟩
    · exact ⟨_, rfl⟩
  have hall : f.cellIntegrals.sorted ++ f.exteriorIntegrals.sorted ++ f.interiorIntegrals.sorted =
      [f.cellIntegrals.sorted, f.exteriorIntegrals.sorted, f.interiorIntegrals.sorted].flatten := by
      simp
  have hstarts : [0, f.cellIntegrals.sorted.length,
      f.cellIntegrals.sorted.length + f.exteriorIntegrals.sorted.length,
      f.cellIntegrals.sorted.length + f.exteriorIntegrals.sorted.length +
        f.interiorIntegrals.sorted.length] =
      [f.cellIntegrals.sorted, f.exteriorIntegrals.sorted, f.interiorIntegrals.sorted].foldl
        (fun out k => out ++ [out.getLastD 0 + k.length]) [0] := by simp
  rw [hall, hstarts]
  exact ⟨_, [_, _, _, _, _], _, bind_eq_ok.2 ⟨spaces, hspaces, rfl⟩, rfl⟩

end Code

namespace Compiler

open Code (FormRecord IntegralList)
open Form (IntegralKind)
open List

variable {s : Settings} {f : MultilinearForm} {id : Nat} {g : IntegralGroup}

/-- A group that code cannot be written for: it belongs to no part of the mesh, or to one whose
    number is below that of what remains. -/
def IntegralGroup.Refused (g : IntegralGroup) : Prop :=
  g.subdomains = [] ∨ ∃ n < -1, Subdomain.number n ∈ g.subdomains

def Subdomain.partNumber : Subdomain → Int
  | .number n => n
  | .otherwise | .other _ => -1

/-- The kernels of a kind: the name of the kernel of each group beside each of its numbers. -/
def MultilinearForm.kernels (f : MultilinearForm) (s : Settings) (id : Nat)
    (groups : List IntegralGroup) (kind : IntegralKind) : List (String × Int) :=
  (groups.filter (·.kind = kind)).flatMap fun g =>
    g.subdomains.map fun d => (integralName s.label f id g.kind.name g.subdomains, d.partNumber)

lemma mapM_subdomainNumber {ds : List Subdomain} (h : ∀ d ∈ ds, d.IsPart) :
    ds.mapM subdomainNumber = .ok (ds.map Subdomain.partNumber) := by
  induction ds with
  | nil => rfl
  | cons d ds ih =>
    rw [forall_mem_cons] at h
    rw [mapM_cons, ih h.2]
    cases d with
    | otherwise | number _ => rfl
    | other _ => exact h.1.elim

lemma any_partNumber_lt {ds : List Subdomain} :
    (ds.map Subdomain.partNumber).any (· < -1) = true ↔ ∃ n < -1, Subdomain.number n ∈ ds := by
  rw [any_map, any_eq_true]
  constructor
  · rintro ⟨d, hd, hlt⟩
    cases d with
    | number n => exact ⟨n, of_decide_eq_true hlt, hd⟩
    | otherwise | other _ => simp [Subdomain.partNumber] at hlt
  · rintro ⟨n, hn, hd⟩
    exact ⟨_, hd, decide_eq_true hn⟩

/-- A group is refused, or its parts have numbers. -/
lemma subdomainNumbers_of (h : ∀ d ∈ g.subdomains, d.IsPart) :
    (g.Refused → ∃ fault, subdomainNumbers g = .error fault ∧ fault.category = .wrongValue) ∧
      (¬ g.Refused → subdomainNumbers g = .ok (g.subdomains.map Subdomain.partNumber)) := by
  rw [IntegralGroup.Refused, ← any_partNumber_lt, subdomainNumbers, mapM_subdomainNumber h]
  dsimp only [bind, Except.bind]
  by_cases hnone : g.subdomains = []
  · rw [hnone]
    exact ⟨fun _ => ⟨_, rfl, rfl⟩, fun hparts => absurd (.inl rfl) hparts⟩
  · have hsome : (g.subdomains.map Subdomain.partNumber).isEmpty = false := by simpa using hnone
    rw [hsome, if_neg Bool.false_ne_true]
    cases (g.subdomains.map Subdomain.partNumber).any (· < -1) with
    | true => exact ⟨fun _ => ⟨.negativeSubdomain, rfl, rfl⟩, fun hnot => absurd (.inr rfl) hnot⟩
    | false => exact ⟨fun hlow => by simp [hnone] at hlow, fun _ => rfl⟩

/-- Adding a group: its kernel is listed for every part, unless the group is refused. -/
lemma addGroup_of (s : Settings) (f : MultilinearForm) (id : Nat) (h : g.Listed) (r : FormRecord) :
    (g.Refused → ∃ fault, addGroup s id f r g = .error fault ∧ fault.category = .wrongValue) ∧
      (¬ g.Refused → addGroup s id f r g = .ok (r.extend (f.kernels s id [g]))) := by
  obtain ⟨hrefused, hnumbers⟩ := subdomainNumbers_of h.parts
  constructor
  · intro hg
    obtain ⟨fault, hfault, hcategory⟩ := hrefused hg
    exact ⟨fault, by rw [addGroup, hfault]; rfl, hcategory⟩
  · intro hg
    rw [addGroup, hnumbers hg]
    rcases h.kind with hkind | hkind | hkind <;>
      simp [hkind, FormRecord.extend, IntegralList.extend, MultilinearForm.kernels,
        Function.comp_def]

lemma kernels_cons (gs : List IntegralGroup) (kind : IntegralKind) :
    f.kernels s id (g :: gs) kind = f.kernels s id [g] kind ++ f.kernels s id gs kind := by
  simp only [MultilinearForm.kernels, filter_cons]
  split <;> simp

lemma addGroups_of (s : Settings) (f : MultilinearForm) (id : Nat) {gs : List IntegralGroup}
    (h : ∀ g ∈ gs, g.Listed) (r : FormRecord) :
    ((∃ g ∈ gs, g.Refused) → ∃ fault, gs.foldlM (addGroup s id f) r = .error fault ∧
        fault.category = .wrongValue) ∧
      ((∀ g ∈ gs, ¬ g.Refused) →
        gs.foldlM (addGroup s id f) r = .ok (r.extend (f.kernels s id gs))) := by
  induction gs generalizing r with
  | nil => exact ⟨by simp, fun _ => by simp [FormRecord.extend, MultilinearForm.kernels]⟩
  | cons g gs ih =>
    rw [forall_mem_cons] at h
    obtain ⟨hrefused, hadded⟩ := addGroup_of s f id h.1 r
    rw [foldlM_cons]
    by_cases hg : g.Refused
    · obtain ⟨fault, hfault, hcategory⟩ := hrefused hg
      exact ⟨fun _ => ⟨fault, by rw [hfault]; rfl, hcategory⟩,
        fun hnot => absurd hg (hnot g (by simp))⟩
    · rw [hadded hg]
      obtain ⟨hlater, hall⟩ := ih h.2 (r.extend (f.kernels s id [g]))
      constructor
      · intro hsome
        exact hlater (by simpa [hg] using hsome)
      · intro hnot
        refine (hall fun g' hg' => hnot g' (by simp [hg'])).trans ?_
        simp [FormRecord.extend, kernels_cons gs]

/-! ## The table -/

/-- A table of kernels and the places where its kinds start: each kind has a part of the table,
    which is sorted by the numbers and holds the kernels of the kind. -/
structure IsTable (kernels : IntegralKind → List (String × Int)) (offsets : List Nat)
    (table : List (String × Int)) : Prop where
  bounds : ∃ o₁ o₂, offsets = [0, o₁, o₂, table.length] ∧ o₁ ≤ o₂ ∧ o₂ ≤ table.length
  part : ∀ k kind, [IntegralKind.cell, .exteriorFacet, .interiorFacet][k]? = some kind →
    ∀ o o', offsets[k]? = some o → offsets[k + 1]? = some o' →
      ((table.take o').drop o).Perm (kernels kind) ∧
        ((table.take o').drop o).Pairwise fun a b => a.2 ≤ b.2

lemma isTable_sorted (kernels : IntegralKind → List (String × Int))
    {cells exteriors interiors : IntegralList}
    (hcells : cells = .extend {} (kernels .cell))
    (hexteriors : exteriors = .extend {} (kernels .exteriorFacet))
    (hinteriors : interiors = .extend {} (kernels .interiorFacet)) :
    IsTable kernels [0, cells.sorted.length, cells.sorted.length + exteriors.sorted.length,
        cells.sorted.length + exteriors.sorted.length + interiors.sorted.length]
      (cells.sorted ++ exteriors.sorted ++ interiors.sorted) := by
  refine ⟨⟨_, _, by rw [length_append, length_append], Nat.le_add_right _ _, ?_⟩,
    fun k kind hkind o o' ho ho' => ?_⟩
  · rw [length_append, length_append]
    exact Nat.le_add_right _ _
  match k with
  | 0 =>
    cases hkind
    cases ho
    cases ho'
    rw [append_assoc, take_left, drop_zero, hcells]
    exact IntegralList.sorted_extend _
  | 1 =>
    cases hkind
    cases ho
    cases ho'
    rw [← length_append, take_left, drop_left, hexteriors]
    exact IntegralList.sorted_extend _
  | 2 =>
    cases hkind
    cases ho
    cases ho'
    rw [← length_append, ← length_append, take_length, drop_left, hinteriors]
    exact IntegralList.sorted_extend _
  | k + 3 => cases hkind

/-- The groups are added to a record without integrals. -/
lemma formRecord_eq (id : Nat) {spaces : List (String × Code.FunctionSpace)}
    (h : functionSpaces s (f.arguments ++ f.coefficients) = .ok spaces) :
    ∃ r : FormRecord, formRecord s f id = f.groups.foldlM (addGroup s id f) r ∧ r.spaces = spaces ∧
      r.cellIntegrals = {} ∧ r.exteriorIntegrals = {} ∧ r.interiorIntegrals = {} := by
  rw [formRecord, h]
  exact ⟨_, rfl, rfl, rfl, rfl, rfl⟩

/-- The record of a form is refused for its integrals just if one of their groups is, and otherwise
    the code of the form has a table in which every part of the mesh stands beside the kernel of its
    group. -/
theorem formRecord_tables (s : Settings) (f : MultilinearForm) (id : Nat)
    {spaces : List (String × Code.FunctionSpace)}
    (hspaces : functionSpaces s (f.arguments ++ f.coefficients) = .ok spaces)
    (hvariants : ∀ p ∈ spaces, p.2.variant.isSome = true) (hgroups : ∀ g ∈ f.groups, g.Listed) :
    ((∃ fault, formRecord s f id = .error fault ∧ fault.category = .wrongValue) ↔
      ∃ g ∈ f.groups, g.Refused) ∧
    ((∀ g ∈ f.groups, ¬ g.Refused) → ∃ r snippet front offsets table back,
      formRecord s f id = .ok r ∧ r.code = .ok snippet ∧
      snippet.implementation = Code.block (front ++ r.tableLines offsets table ++ back) ∧
      IsTable (f.kernels s id f.groups) offsets table) ∧
    ∀ g kernel, integralRecord s f id g = .ok kernel →
      kernel.name = integralName s.label f id g.group.kind.name g.group.subdomains := by
  obtain ⟨r, hr, rfl, hcells, hexteriors, hinteriors⟩ := formRecord_eq id hspaces
  obtain ⟨hrefused, hadded⟩ := addGroups_of s f id hgroups r
  rw [hr]
  refine ⟨⟨?_, hrefused⟩, fun hnone => ?_, fun g kernel hkernel => ?_⟩
  · rintro ⟨fault, hfault, -⟩
    by_contra hnone
    rw [hadded (by simpa using hnone)] at hfault
    cases hfault
  · obtain ⟨snippet, front, back, hcode, htext⟩ :=
      (r.extend (f.kernels s id f.groups)).exists_code hvariants
    refine ⟨_, snippet, front, _, _, back, hadded hnone, hcode, htext, isTable_sorted _ ?_ ?_ ?_⟩
    · rw [← hcells]
      rfl
    · rw [← hexteriors]
      rfl
    · rw [← hinteriors]
      rfl
  · exact name_integralRecord hkernel

/-- The form with integrals over what remains and over one part of the mesh has a table. -/
theorem formRecord_tables_sample : (∀ g ∈ sampleForm.groups, g.Listed) ∧
    ∃ r snippet front offsets table back, formRecord sampleSettings sampleForm 0 = .ok r ∧
      r.code = .ok snippet ∧
      snippet.implementation = Code.block (front ++ r.tableLines offsets table ++ back) ∧
      IsTable (sampleForm.kernels sampleSettings 0 sampleForm.groups) offsets table := by
  have hgroups : ∀ g ∈ sampleForm.groups, g.Listed ∧ ¬ g.Refused := by
    simp only [sampleForm, mem_cons, not_mem_nil, or_false, forall_eq_or_imp, forall_eq]
    refine ⟨⟨⟨.inl rfl, ?_⟩, ?_⟩, ⟨.inl rfl, ?_⟩, ?_⟩
    all_goals simp [sampleGroup, Subdomain.IsPart, IntegralGroup.Refused]
  have hlisted := fun g hg => (hgroups g hg).1
  have hspaces : functionSpaces sampleSettings (sampleForm.arguments ++ sampleForm.coefficients) =
      .ok [] :=
    rfl
  have htables := formRecord_tables sampleSettings sampleForm 0 hspaces (by simp) hlisted
  exact ⟨hlisted, htables.2.1 fun g hg => (hgroups g hg).2⟩

/-- A group without parts has no number below that of what remains, but its form is refused. -/
theorem formRecord_of_no_part : (∀ n, Subdomain.number n ∉ (sampleGroup []).subdomains) ∧
    formRecord sampleSettings { sampleForm with groups := [sampleGroup []] } 0 =
      .error (.misfit .wrongValue) :=
  ⟨by simp [sampleGroup], rfl⟩

end Compiler

end FormKernel
