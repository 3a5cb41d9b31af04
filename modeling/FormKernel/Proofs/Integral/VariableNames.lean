import FormKernel.Compiler.Records
import FormKernel.Proofs.Form.Modifiers
import FormKernel.Proofs.Integral.Names

/-!
# Variables of one integral

Coefficients are numbered by their places in a form, and coordinates and Jacobians are those of one
mesh.  So the name of a variable tells the terminal, and with it all modifiers: the counts of
derivatives give back the sorted directions, and the shape of the terminal tells whether there is a
component.
-/

namespace FormKernel.Integral

open Binding
open Compiler (numbersOf)
open Form (Domain ModifiedTerminal Terminal)
open Form.ModifiedTerminal (Fits Layers averaged_of_read beq_iff mergeSort_eq_iff of_eq_ok)
open Kernel (Symbol)
open List

variable {functions : List Terminal} {mesh : Domain} {l : Layout} {m m' : ModifiedTerminal}
  {s s' : Symbol} {t t' : Terminal} {b : VariableBase} {n : Int}

/-! ## Numbers of coefficients -/

lemma lookup_numbersOf (functions : List Terminal) (t : Terminal) : (numbersOf functions).lookup t =
    (functions.zipIdx.reverse.find? fun p => t == p.1).map fun p => (p.2 : Int) :=
  (lookup_foldl_assign Prod.fst (fun p => Int.ofNat p.2) functions.zipIdx [] t).trans Option.or_none

lemma exists_place (h : entryOf (numbersOf functions) t = .ok n) :
    ∃ (i : Nat) (u : Terminal), functions[i]? = some u ∧ (t == u) = true ∧ n = i := by
  rw [entryOf, orMisfit_eq_ok, lookup_numbersOf, Option.map_eq_some_iff] at h
  obtain ⟨⟨u, i⟩, hfind, rfl⟩ := h
  have hmem := mem_reverse.1 (mem_of_find?_eq_some hfind)
  exact ⟨i, u, mem_zipIdx_iff_getElem?.1 hmem,
    find?_some (p := fun p : Terminal × Nat => t == p.1) hfind, rfl⟩

/-! ## Terminals with variables -/

/-- What is computed in a variable: the functions of a form, and the coordinates and the Jacobian of
    its mesh. -/
inductive IsComputed (functions : List Terminal) (mesh : Domain) : Terminal → Prop
  | coefficient {function : Bool} {count : Int} {space : Form.Space} {shape : Option (List Nat)}
      (h : .coefficient function count space shape ∈ functions) :
      IsComputed functions mesh (.coefficient function count space shape)
  | coordinate : IsComputed functions mesh (.quantity .spatialCoordinate (some mesh) [mesh.gdim])
  | jacobian : IsComputed functions mesh
    (.quantity .jacobian (some mesh) [mesh.gdim, mesh.cell.dim])

lemma IsComputed.refl (h : IsComputed functions mesh t) : (t == t) = true := by
  have hspace : ∀ x : Form.Space, (x == x) = true := fun x => beq_self_eq_true x.id
  have hmesh : ((some mesh : Option Domain) == some mesh) = true := beq_self_eq_true mesh.id
  change t.equal t = true
  cases h <;> simp [Terminal.equal, hspace, hmesh]

/-- A form has one version of each of its functions. -/
def Listed (functions : List Terminal) : Prop :=
  ∀ t ∈ functions, ∀ u ∈ functions, (t == u) = true → t = u

lemma IsComputed.eq_of_beq (hone : Listed functions) (ht : IsComputed functions mesh t)
    (ht' : IsComputed functions mesh t') (h : (t == t') = true) : t = t' := by
  cases ht with
  | coefficient hmem =>
    cases ht' with
    | coefficient hmem' => exact hone _ hmem _ hmem' h
    | _ => cases h
  | coordinate | jacobian =>
    cases ht' with
    | coefficient => cases h
    | _ => first | rfl | cases h

lemma IsComputed.base (ht : IsComputed functions mesh m.terminal) (h : baseOf l m = .ok b) :
    match b with
    | .coefficient n => entryOf l.coefficientNumbers m.terminal = .ok n
    | .coordinate => m.terminal = .quantity .spatialCoordinate (some mesh) [mesh.gdim]
    | .jacobian => m.terminal = .quantity .jacobian (some mesh) [mesh.gdim, mesh.cell.dim] := by
  rw [baseOf] at h
  split at h
  · obtain ⟨n, hn, h⟩ := bind_eq_ok.1 h
    cases h
    exact hn
  · next hterminal =>
    cases h
    rw [hterminal] at ht ⊢
    cases ht
    rfl
  · next hterminal =>
    cases h
    rw [hterminal] at ht ⊢
    cases ht
    rfl
  · cases h

/-- A terminal under modifiers as an integral has it: what is read off an expression, with
    directions within space and fewer than ten derivatives. -/
structure OfIntegral (functions : List Terminal) (mesh : Domain) (m : ModifiedTerminal) : Prop where
  computed : IsComputed functions mesh m.terminal
  read : ∃ e, ModifiedTerminal.of e = .ok m
  axes : ∀ i ∈ m.globalDerivatives ++ m.localDerivatives, ∃ d ∈ m.terminal.domain?, 0 ≤ i ∧
    i < d.gdim
  few : m.globalDerivatives.length + m.localDerivatives.length < 10

lemma eq_of_base (hone : Listed functions) (hnumbers : l.coefficientNumbers = numbersOf functions)
    (ht : IsComputed functions mesh m.terminal) (ht' : IsComputed functions mesh m'.terminal)
    (h : baseOf l m = .ok b) (h' : baseOf l m' = .ok b) : m.terminal = m'.terminal := by
  have hbase := ht.base h
  have hbase' := ht'.base h'
  cases b with
  | coefficient n =>
    rw [hnumbers] at hbase hbase'
    obtain ⟨i, u, hu, htu, hi⟩ := exists_place hbase
    obtain ⟨j, v, hv, htv, hj⟩ := exists_place hbase'
    obtain rfl : i = j := by omega
    obtain rfl := Option.some.inj (hu.symm.trans hv)
    exact ht.eq_of_beq hone ht' (BEq.trans htu (BEq.symm htv))
  | coordinate | jacobian => exact hbase.trans hbase'.symm

/-! ## Parts of names -/

lemma base_of_globals (hs : variableOf l m = .ok s) (hne : m.globalDerivatives ≠ []) :
    baseOf l m = .ok .jacobian := by
  have hbase : ∀ {base name : String}, variableName base m = .ok name → base = "J" :=
    fun {base} _ h => by
    rw [variableName] at h
    dsimp only at h
    rw [if_pos (by simpa using hne)] at h
    obtain ⟨_, hrequire, -⟩ := bind_eq_ok.1 h
    simpa using hrequire
  rw [variableOf] at hs
  rw [baseOf]
  split at hs
  · obtain ⟨n, -, name, hname, -⟩ := bind₂_eq_ok.1 hs
    have hletter := congrArg String.toList (hbase hname)
    rw [show (s!"w{n}").toList = 'w' :: (toString n).toList from String.toList_append ..] at hletter
    cases hletter
  · rfl
  · obtain ⟨name, hname, -⟩ := bind_eq_ok.1 hs
    exact absurd (hbase hname) (by decide)
  · cases hs

namespace OfIntegral

lemma averaged (h : OfIntegral functions mesh m) : ∀ a ∈ m.averaged, a = .cell ∨ a = .facet := by
  obtain ⟨e, he⟩ := h.read
  obtain ⟨layers, hread, -, -, -, -, -, haveraged, -⟩ := of_eq_ok he
  rw [haveraged]
  exact averaged_of_read (by simp) hread

lemma legible (h : OfIntegral functions mesh m) (hspace : mesh.gdim ≤ 10)
    (hs : variableOf l m = .ok s) : (VariableParts.of m).Legible := by
  refine ⟨fun a ha => ?_, fun d hd => ?_, fun ns hns n hn => ?_⟩
  · obtain ⟨x, hx, rfl⟩ := Option.map_eq_some_iff.1 ha
    rcases h.averaged x hx with rfl | rfl <;> decide
  · obtain ⟨mesh', hmesh, h0, hlt⟩ := h.axes d (mem_append_left _ hd)
    rw [h.computed.base (base_of_globals hs (ne_nil_of_mem hd))] at hmesh
    cases hmesh
    omega
  · have hfew := h.few
    rw [VariableParts.of] at hns
    dsimp only at hns
    split at hns
    · cases hns
    · obtain ⟨d, -, rfl⟩ := Option.map_eq_some_iff.1 hns
      obtain ⟨i, -, rfl⟩ := mem_map.1 hn
      have hcount : m.localDerivatives.count (i : Int) ≤ _ := count_le_length
      omega

/-- Counts of derivatives along all axes tell the directions. -/
lemma count_locals (h : OfIntegral functions mesh m) {i : Int} (hi : 0 ≤ i) :
    m.localDerivatives.count i = ((VariableParts.of m).locals.getD []).getD i.toNat 0 := by
  have hnat : ((i.toNat : Nat) : Int) = i := Int.toNat_of_nonneg hi
  rw [VariableParts.of]
  dsimp only
  by_cases hmem : i ∈ m.localDerivatives
  · obtain ⟨d, hd, -, hlt⟩ := h.axes i (mem_append_right _ hmem)
    rw [if_neg (by simpa using ne_nil_of_mem hmem), Option.mem_def.1 hd, Option.map_some,
      Option.getD_some, getD_eq_getElem _ _ (by simp; omega)]
    simp [hnat]
  · rw [count_eq_zero.2 hmem]
    split
    · rfl
    · cases m.terminal.domain? with
      | none => rfl
      | some d =>
        by_cases hlt : i.toNat < d.gdim
        · simp [hlt, hnat, count_eq_zero.2 hmem]
        · simp [hlt]

lemma locals_eq (h : OfIntegral functions mesh m) (h' : OfIntegral functions mesh m')
    (hparts : VariableParts.of m = VariableParts.of m') :
    m.localDerivatives = m'.localDerivatives := by
  obtain ⟨e, he⟩ := h.read
  obtain ⟨e', he'⟩ := h'.read
  obtain ⟨layers, -, -, hlocals, -⟩ := of_eq_ok he
  obtain ⟨layers', -, -, hlocals', -⟩ := of_eq_ok he'
  have hcount : ∀ i, m.localDerivatives.count i = m'.localDerivatives.count i := by
    intro i
    by_cases hi : 0 ≤ i
    · rw [h.count_locals hi, h'.count_locals hi, hparts]
    · have hnot : ∀ {m}, OfIntegral functions mesh m → i ∉ m.localDerivatives := fun h hmem => by
        obtain ⟨_, -, h0, -⟩ := h.axes i (mem_append_right _ hmem)
        exact hi h0
      rw [count_eq_zero.2 (hnot h), count_eq_zero.2 (hnot h')]
  have hperm := mergeSort_perm layers.localDerivatives (· ≤ ·)
  have hperm' := mergeSort_perm layers'.localDerivatives (· ≤ ·)
  rw [← hlocals] at hperm
  rw [← hlocals'] at hperm'
  rw [hlocals, hlocals', mergeSort_eq_iff]
  exact hperm.symm.trans ((perm_iff_count.2 hcount).trans hperm')

/-- The name tells all modifiers of a terminal that is seen in one frame. -/
lemma parts_eq_iff (h : OfIntegral functions mesh m) (h' : OfIntegral functions mesh m')
    (hterminal : m.terminal = m'.terminal) (hframe : m.reference = m'.reference) :
    VariableParts.of m = VariableParts.of m' ↔ (m == m') = true := by
  obtain ⟨e, he⟩ := h.read
  obtain ⟨e', he'⟩ := h'.read
  obtain ⟨layers, -, hshape, -, -, -, hreference, -, hcomponent, numbers, hnumbers, hflat⟩ :=
    of_eq_ok he
  obtain ⟨layers', -, hshape', -, -, -, hreference', -, hcomponent', numbers', hnumbers', hflat'⟩ :=
    of_eq_ok he'
  rw [← hreference, hframe, hterminal] at hshape hnumbers
  rw [← hreference'] at hshape' hnumbers'
  obtain rfl := Except.ok.inj (hnumbers.symm.trans hnumbers')
  have hempty : m.component.isEmpty = m'.component.isEmpty := by
    have hlength := hshape.length_eq.trans hshape'.length_eq.symm
    rw [← hcomponent, ← hcomponent'] at hlength
    rw [Bool.eq_iff_iff, isEmpty_iff_length_eq_zero, isEmpty_iff_length_eq_zero, hlength]
  rw [beq_iff]
  constructor
  · intro hparts
    refine ⟨hterminal ▸ h.computed.refl, hframe, ?_, congrArg VariableParts.globals hparts,
      h.locals_eq h' hparts, ?_, congrArg VariableParts.side hparts⟩
    · have hsame := congrArg VariableParts.component hparts
      rw [VariableParts.of, VariableParts.of] at hsame
      dsimp only at hsame
      rw [hempty] at hsame
      split at hsame
      · next hnil =>
        rw [isEmpty_iff.1 (hempty.trans hnil)] at hflat
        rw [isEmpty_iff.1 hnil] at hflat'
        exact Option.some.inj (hflat.symm.trans hflat')
      · exact Option.some.inj hsame
    · have hname : m.averaged.map (·.name) = m'.averaged.map (·.name) :=
        congrArg VariableParts.averaged hparts
      have haveraged := h.averaged
      have haveraged' := h'.averaged
      cases ha : m.averaged with
      | none => simpa [ha, eq_comm] using hname
      | some a =>
        rw [ha, Option.map_some, eq_comm, Option.map_eq_some_iff] at hname
        obtain ⟨a', ha', hname⟩ := hname
        rw [ha']
        rcases haveraged a ha with rfl | rfl <;> rcases haveraged' a' ha' with rfl | rfl <;>
          first | rfl | exact absurd hname (by decide)
  · rintro ⟨-, -, hflat, hglobals, hlocals, haveraged, hside⟩
    simp only [VariableParts.of, hterminal, hempty, hflat, hglobals, hlocals, haveraged, hside]

end OfIntegral

/-! ## Names that stand for something else -/

/-- Arguments, loop indices and generated names of a kernel; a loop over factors has a number. -/
inductive IsReserved : String → Prop
  | parameter {s : Symbol}
    (h : s ∈ [elementTensor, coefficients, constants, coordinateDofs, entityLocalIndex,
      pointPermutation]) : IsReserved s.name
  | loop {index : String} (h : index ∈ ["iq", "ic", "i", "j", "k", "l"]) (number : String) :
      IsReserved (index ++ number)
  | product (n : Nat) : IsReserved s!"fw{n}"
  | temporary (n : Nat) : IsReserved s!"temp_{n}"
  | piecewise (id : String) (n : Nat) : IsReserved s!"sp_{id}_{n}"
  | varying (id : String) (n : Nat) : IsReserved s!"sv_{id}_{n}"
  | weights (id : String) : IsReserved s!"weights_{id}"

lemma IsReserved.family {x : String} (h : IsReserved x) : x = "w" ∨ Family.of x ≠ .value := by
  cases h with
  | parameter h =>
    simp only [mem_cons, not_mem_nil, or_false] at h
    rcases h with rfl | rfl | rfl | rfl | rfl | rfl <;> decide
  | loop h number =>
    right
    rw [Family.of, String.toList_append]
    simp only [mem_cons, not_mem_nil, or_false] at h
    rcases h with rfl | rfl | rfl | rfl | rfl | rfl <;> rintro ⟨⟩
  | _ =>
    right
    simp only [Family.of, String.toList_append, append_assoc]
    rintro ⟨⟩

lemma name_ne_coefficients (h : variableOf l m = .ok s) : s.name ≠ "w" := by
  obtain ⟨b, -, hname⟩ := toList_variableOf h
  intro heq
  rw [heq] at hname
  cases b with
  | coefficient n =>
    obtain ⟨c, cs, hdigits, -⟩ := exists_toList_int n
    rw [show (VariableBase.coefficient n).text.toList = 'w' :: (toString n).toList from
      String.toList_append .., hdigits] at hname
    cases hname
  | jacobian | coordinate => cases hname

/-! ## Names and terminals -/

/-- Names of variables identify the terminals of an integral.  Variables have the same name just if
    their terminals are equal, and the names are not used for anything else. -/
theorem variable_identifies (hnumbers : l.coefficientNumbers = numbersOf functions)
    (hone : Listed functions) (hspace : mesh.gdim ≤ 10) (hm : OfIntegral functions mesh m)
    (hm' : OfIntegral functions mesh m')
    (hframe : (m.terminal == m'.terminal) = true → m.reference = m'.reference)
    (hs : variableOf l m = .ok s) (hs' : variableOf l m' = .ok s') :
    (s.name = s'.name ↔ (m == m') = true) ∧ ¬ IsReserved s.name := by
  refine ⟨⟨fun hname => ?_, fun hequal => ?_⟩, fun hreserved => ?_⟩
  · obtain ⟨⟨b, hb, hb'⟩, hparts⟩ :=
      variableOf_injective (hm.legible hspace hs) (hm'.legible hspace hs') hs hs' hname
    have hterminal := eq_of_base hone hnumbers hm.computed hm'.computed hb hb'
    exact (hm.parts_eq_iff hm' hterminal (hframe (hterminal ▸ hm.computed.refl))).1 hparts
  · obtain ⟨hbeq, hreference, -⟩ := beq_iff.1 hequal
    have hterminal := hm.computed.eq_of_beq hone hm'.computed hbeq
    have hparts := (hm.parts_eq_iff hm' hterminal hreference).2 hequal
    obtain ⟨b, hb, hname⟩ := toList_variableOf hs
    obtain ⟨b', hb', hname'⟩ := toList_variableOf hs'
    rw [baseOf, hterminal, ← baseOf] at hb
    obtain rfl := Except.ok.inj (hb.symm.trans hb')
    rw [← String.toList_inj, hname, hname', hparts]
  · exact hreserved.family.elim (name_ne_coefficients hs) (· (family_variableOf hs))

def sampleMesh : Domain := ⟨0, .triangle, 2, none⟩

def sampleFunction (n : Nat) : Terminal :=
  .coefficient false n ⟨n, default, some sampleMesh, []⟩ none

def sampleFunctions : List Terminal := [sampleFunction 0, sampleFunction 1]

/-- A second derivative of a reference value on the second side of a facet. -/
def sampleDerivative (n : Nat) (i j : Int) : ModifiedTerminal :=
  let value : Layers := { component := some [], restriction := some .minus, reference := true }
  { value.result (sampleFunction n) with localDerivatives := [i, j] }

lemma ofIntegral_sampleDerivative {n : Nat} {i j : Int} (hn : n < 2) (h0 : 0 ≤ i) (hij : i ≤ j)
    (hj : j < 2) : OfIntegral sampleFunctions sampleMesh (sampleDerivative n i j) := by
  let layers : Layers :=
    { component := some [], localDerivatives := [i, j], restriction :=
      some .minus, reference := true }
  have hfits : Fits layers (sampleFunction n) :=
    ⟨.nil, fun _ => ⟨fun _ => rfl, fun h => absurd rfl h⟩, nofun,
      fun c hc => mem_filter.2 ⟨hc, rfl⟩⟩
  have hread := hfits.of_nests (e := .node .indexed [.node .referenceGrad [.node .referenceGrad
    [.node .negativeRestricted [.node .referenceValue [.terminal (sampleFunction n)]]]],
    .terminal (.multiIndex [.fixed j, .fixed i])])
    (.indexed (.refl _) (.wrap _ (.wrap _ (.wrap _ (.wrap _ .terminal)))) rfl rfl)
  have hsorted : [i, j].mergeSort (· ≤ ·) = [i, j] :=
    mergeSort_of_pairwise (by simpa using hij)
  have hresult : layers.result (sampleFunction n) = sampleDerivative n i j := by
    rw [Layers.result, hsorted]
    rfl
  refine ⟨.coefficient ?_, ⟨_, hresult ▸ hread⟩, fun d hd => ⟨sampleMesh, rfl, ?_⟩, ?_⟩
  · have hcases : n = 0 ∨ n = 1 := by omega
    rcases hcases with rfl | rfl
    · exact .head _
    · exact .tail _ (.head _)
  · have hcases : d = i ∨ d = j := by simpa [sampleDerivative, Layers.result] using hd
    have hdim : (sampleMesh.gdim : Int) = 2 := rfl
    omega
  · simp [sampleDerivative, Layers.result]

/-- The second derivatives of two functions have different names, and none is a name that a kernel
    uses for something else. -/
theorem variable_identifies_derivatives :
    (sampleDerivative 0 0 1 == sampleDerivative 0 1 1) = false ∧
    (sampleDerivative 0 0 1 == sampleDerivative 1 0 1) = false ∧ ¬ IsReserved "w0_r1_d11" := by
  let l : Layout := ⟨.interiorFacet, .facet, numbersOf sampleFunctions, [], []⟩
  have hlisted : Listed sampleFunctions := by
    intro t ht u hu h
    simp only [sampleFunctions, mem_cons, not_mem_nil, or_false] at ht hu
    rcases ht with rfl | rfl <;> rcases hu with rfl | rfl <;> first | rfl | cases h
  have hfirst : variableOf l (sampleDerivative 0 0 1) = .ok ⟨"w0_r1_d11", some .scalar⟩ := by
    decide +kernel
  have hsecond : variableOf l (sampleDerivative 0 1 1) = .ok ⟨"w0_r1_d02", some .scalar⟩ := by
    decide +kernel
  have hthird : variableOf l (sampleDerivative 1 0 1) = .ok ⟨"w1_r1_d11", some .scalar⟩ := by
    decide +kernel
  have hm : ∀ n i j, n < 2 → 0 ≤ i → i ≤ j → j < 2 → OfIntegral sampleFunctions sampleMesh
    (sampleDerivative n i j) := fun _ _ _ => ofIntegral_sampleDerivative
  have hdirections := variable_identifies rfl hlisted (by decide)
    (hm 0 0 1 (by decide) (by decide) (by decide) (by decide))
    (hm 0 1 1 (by decide) (by decide) (by decide) (by decide)) (fun _ => rfl) hfirst hsecond
  have hfunctions := variable_identifies rfl hlisted (by decide)
    (hm 0 0 1 (by decide) (by decide) (by decide) (by decide))
    (hm 1 0 1 (by decide) (by decide) (by decide) (by decide)) (fun _ => rfl) hfirst hthird
  exact ⟨Bool.eq_false_iff.2 (mt hdirections.1.2 (by decide)),
    Bool.eq_false_iff.2 (mt hfunctions.1.2 (by decide)), hfunctions.2⟩

end FormKernel.Integral
