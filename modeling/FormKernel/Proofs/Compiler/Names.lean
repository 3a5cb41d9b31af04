import FormKernel.Compiler.Compile
import FormKernel.Proofs.Compiler.Tags
import FormKernel.Proofs.List

/-!
# Names of generated objects

Each name is a word for the kind of object and the digest of a text.  Elements have their own texts,
forms and integrals are numbered, so that all of these have different names.  Expressions are named
after their signature alone, and integrals of one form after their kind and the parts of the mesh.
-/

namespace FormKernel.Compiler

open Form (Element Expr IntegralKind)
open List

/-- The names of all objects that code is written for. -/
def Records.names (r : Records) : List String :=
  r.elements.map (·.name) ++ r.dofmaps.map (·.name) ++ r.integrals.map (·.name) ++
    r.forms.map (·.name) ++ r.expressions.map (·.name)

namespace Analysis

variable (label : String) (a : Analysis)

/-- The texts that elements and dofmaps are named after. -/
def elementTexts : List String := a.elements.map fun e => digestText e.text "element" label

def integralTexts : List String :=
  a.forms.zipIdx.flatMap fun (f, i) => f.groups.map fun g =>
    integralText label f.form.signature i g.group.kind.name g.group.subdomains

def formTexts : List String := a.forms.zipIdx.map fun (f, i) => formText label f.form.signature i

def expressionTexts : List String :=
  a.expressions.map fun (e, points, _) => digestText
    (expressionSignature e points) "expression" label

/-- The texts that names are digests of, by kind of object. -/
def texts : List (List String) :=
  [a.elementTexts label, a.integralTexts label, a.formTexts label, a.expressionTexts label]

end Analysis

/-! ## Names of records -/

section Records

variable {s : Settings} {label : String}

lemma name_elementRecord {e : Element} {r : Code.ElementRecord}
    (h : elementRecord label e = .ok r) : r.name = elementName label e := by
  obtain ⟨base, -, h⟩ := bind_eq_ok.1 h
  rw [← pure_eq_ok.1 h]

lemma name_dofmapRecord {e : Element} {r : Code.DofmapRecord} (h : dofmapRecord label e = .ok r) :
    r.name = dofmapName label e := by
  obtain ⟨base, -, h⟩ := bind_eq_ok.1 h
  split at h
  · exact nomatch h
  · rw [← pure_eq_ok.1 h]

variable {f : MultilinearForm} {id : Nat} {g : IntegralGroup}

lemma name_integralRecord {g : SampledGroup} {r : Code.IntegralRecord}
    (h : integralRecord s f id g = .ok r) :
    r.name = integralName s.label f id g.group.kind.name g.group.subdomains := by
  obtain ⟨entity, -, h⟩ := bind_eq_ok.1 h
  dsimp only at h
  split at h
  · obtain ⟨terms, -, integrands, -, representation, -, h⟩ := bind₃_eq_ok.1 h
    rw [← pure_eq_ok.1 h]
  · cases h

lemma name_expressionRecord {e : Expr} {points : Dense Float} {given : Option String}
    {r : Code.ExpressionRecord} (h : expressionRecord s e points given id = .ok r) :
    r.name = expressionName s.label e points := by
  obtain ⟨spaces, -, h⟩ := bind_eq_ok.1 h
  dsimp only at h
  obtain ⟨-, h⟩ := ite_throw_eq_ok h
  obtain ⟨entity, -, count, -, h⟩ := bind₂_eq_ok.1 h
  split at h
  · obtain ⟨_, -, representation, -, h⟩ := bind₂_eq_ok.1 h
    rw [← pure_eq_ok.1 h]
  · obtain ⟨representation, -, h⟩ := bind_eq_ok.1 h
    rw [← pure_eq_ok.1 h]

/-- A group of integrals that code can be written for: it is of one of three kinds, and each part of
    the mesh has a number or is what remains. -/
structure IntegralGroup.Listed (g : IntegralGroup) : Prop where
  kind : g.kind = .cell ∨ g.kind = .exteriorFacet ∨ g.kind = .interiorFacet
  parts : ∀ d ∈ g.subdomains, d.IsPart

/-- The names of the kinds consist of letters. -/
lemma IntegralGroup.Listed.letters (h : g.Listed) :
    ∀ c ∈ g.kind.name.toList, c.isAlpha = true ∨ c = '_' := by
  rcases h.kind with hkind | hkind | hkind <;> rw [hkind] <;> simp [IntegralKind.name]

lemma IntegralGroup.Listed.kind_eq {g' : IntegralGroup} (h : g.Listed) (h' : g'.Listed)
    (heq : g.kind.name = g'.kind.name) : g.kind = g'.kind := by
  rcases h.kind with hkind | hkind | hkind <;> rcases h'.kind with hkind' | hkind' | hkind' <;>
    simp_all [IntegralKind.name]

lemma isPart_of_subdomainNumber {d : Subdomain} {n : Int}
    (h : subdomainNumber d = .ok n) : d.IsPart := by
  cases d with
  | otherwise | number _ => trivial
  | other _ => cases h

lemma listed_of_addGroup {r r' : Code.FormRecord} (h : addGroup s id f r g = .ok r') :
    r'.name = r.name ∧ g.Listed := by
  obtain ⟨ids, hids, h⟩ := bind_eq_ok.1 h
  obtain ⟨numbers, hnumbers, -⟩ := bind_eq_ok.1 hids
  have hparts : ∀ d ∈ g.subdomains, d.IsPart := fun d hd => by
    obtain ⟨n, -, hn⟩ := exists_of_forall₂_right (mapM_eq_ok.1 hnumbers).flip hd
    exact isPart_of_subdomainNumber hn
  dsimp only at h
  split at h
  all_goals first
    | exact absurd h misfit_ne_ok
    | next hkind =>
      rw [← pure_eq_ok.1 h]
      exact ⟨rfl, by simp [hkind], hparts⟩

lemma name_formRecord {r : Code.FormRecord} (h : formRecord s f id = .ok r) :
    r.name = formName s.label f id ∧ ∀ g ∈ f.groups, g.Listed := by
  obtain ⟨spaces, -, h⟩ := bind_eq_ok.1 h
  refine foldlM_prefix (fun done r => r.name = formName s.label f id ∧ ∀ g ∈ done, g.Listed)
    ⟨rfl, by simp⟩ ?_ h
  intro done g rest r r' _ hdone hstep
  obtain ⟨hname, hlisted⟩ := listed_of_addGroup hstep
  refine ⟨hname.trans hdone.1, fun g' hg' => ?_⟩
  rcases mem_append.1 hg' with hg' | hg'
  · exact hdone.2 g' hg'
  · exact mem_singleton.1 hg' ▸ hlisted

/-- The names of all records are digests of texts. -/
lemma names_eq_of_records {a : Analysis} {r : Records} (h : records s a = .ok r) :
    r.names = (a.elementTexts s.label).map ("element_" ++ Digest.ofText ·) ++
        (a.elementTexts s.label).map ("dofmap_" ++ Digest.ofText ·) ++
        (a.integralTexts s.label).map ("integral_" ++ Digest.ofText ·) ++
        (a.formTexts s.label).map ("form_" ++ Digest.ofText ·) ++
        (a.expressionTexts s.label).map ("expression_" ++ Digest.ofText ·) ∧
      ∀ f ∈ a.forms, ∀ g ∈ f.form.groups, g.Listed := by
  obtain ⟨elements, helements, dofmaps, hdofmaps, integrals, hintegrals, forms, hforms,
      expressions, hexpressions, h⟩ := bind₅_eq_ok.1 h
  cases h
  constructor
  · simp only [Records.names, Analysis.elementTexts, Analysis.integralTexts, Analysis.formTexts,
      Analysis.expressionTexts, map_map, map_flatMap, map_flatten]
    congr 1; congr 1; congr 1; congr 1
    · exact map_eq_of_mapM helements fun e _ r hr => name_elementRecord hr
    · exact map_eq_of_mapM hdofmaps fun e _ r hr => name_dofmapRecord hr
    · rw [flatMap_def]
      congr 1
      exact map_eq_of_mapM hintegrals fun f _ r hr =>
        map_eq_of_mapM hr fun g _ r hr => name_integralRecord hr
    · exact map_eq_of_mapM hforms fun f _ r hr => (name_formRecord hr).1
    · rw [map_eq_of_mapM hexpressions fun e _ r hr => name_expressionRecord hr]
      nth_rewrite 2 [← zipIdx_map_fst 0 a.expressions]
      rw [map_map]
      rfl
  · intro f hf
    rw [← zipIdx_map_fst 0 a.forms, mem_map] at hf
    obtain ⟨⟨f, i⟩, hi, rfl⟩ := hf
    obtain ⟨r, -, hr⟩ := exists_of_forall₂_right (mapM_eq_ok.1 hforms).flip hi
    exact (name_formRecord hr).2

end Records

/-! ## Different names -/

/-- Texts behind words of which none starts another are different. -/
lemma append_ne_append {w w' : String} (h : ¬w.toList <+: w'.toList) (h' : ¬w'.toList <+: w.toList)
    (x y : String) : w ++ x ≠ w' ++ y := by
  intro heq
  have hw : w.toList <+: (w ++ x).toList := by simp
  have hw' : w'.toList <+: (w ++ x).toList := by rw [heq]; simp
  exact Or.elim (List.prefix_or_prefix_of_prefix hw hw') h h'

lemma disjoint_named {w w' : String} (h : ¬w.toList <+: w'.toList) (h' : ¬w'.toList <+: w.toList)
    (xs ys : List String) :
    Disjoint (xs.map (w ++ Digest.ofText ·)) (ys.map (w' ++ Digest.ofText ·)) := by
  intro name hx hy
  obtain ⟨x, -, rfl⟩ := mem_map.1 hx
  obtain ⟨y, -, hxy⟩ := mem_map.1 hy
  exact append_ne_append h h' _ _ hxy.symm

/-- Names are different if their texts are, as far as digests tell texts apart. -/
lemma nodup_named_iff {texts : List String}
    (hdigest : ∀ t ∈ texts, ∀ t' ∈ texts, Digest.ofText t = Digest.ofText t' → t = t')
    (w : String) : (texts.map (w ++ Digest.ofText ·)).Nodup ↔ texts.Nodup := by
  refine ⟨List.Nodup.of_map _, fun h => h.map_on fun t ht t' ht' heq => hdigest t ht t' ht' ?_⟩
  simpa using heq

/-- Two functions that identify the same items of a list. -/
lemma nodup_map_iff_of_eq_iff {α β γ : Type} {f : α → β} {g : α → γ} {xs : List α}
    (h : ∀ x ∈ xs, ∀ y ∈ xs, f x = f y ↔ g x = g y) : (xs.map f).Nodup ↔ (xs.map g).Nodup := by
  rw [List.Nodup, List.Nodup, pairwise_map, pairwise_map]
  exact List.Pairwise.iff_of_mem fun hx hy => not_congr (h _ hx _ hy)

section Texts

variable {label : String} {a : Analysis}

/-- Elements with different numbers and signatures have different texts. -/
lemma nodup_elementTexts (hdistinct : a.elements.Pairwise fun e e' => e.id ≠ e'.id)
    (hsignatures : ∀ e ∈ a.elements, ∀ e' ∈ a.elements, e.text = e'.text → e.id = e'.id) :
    (a.elementTexts label).Nodup := by
  refine pairwise_map.2 (hdistinct.imp_of_mem fun he he' hne heq => hne ?_)
  exact hsignatures _ he _ he' (digestText_left_injective heq)

lemma nodup_formTexts : (a.formTexts label).Nodup := by
  refine pairwise_map.2 ((pairwise_map.1 (nodup_zipIdx_map_snd a.forms)).imp ?_)
  exact fun hne heq => hne (Int.ofNat.inj (formText_injective heq))

lemma nodup_expressionTexts_iff : (a.expressionTexts label).Nodup ↔
    (a.expressions.map fun (e, points, _) => expressionSignature e points).Nodup := by
  have htexts : a.expressionTexts label = (a.expressions.map fun (e, points, _) =>
      expressionSignature e points).map (digestText · "expression" label) := by
    rw [map_map]
    rfl
  rw [htexts]
  exact nodup_map_iff fun _ _ => digestText_left_injective

lemma nodup_integralTexts_iff (hlisted : ∀ f ∈ a.forms, ∀ g ∈ f.groups, g.group.Listed) :
    (a.integralTexts label).Nodup ↔
      ∀ f ∈ a.forms, (f.groups.map fun g => (g.group.kind, g.group.subdomains)).Nodup := by
  have hmem : ∀ x ∈ a.forms.zipIdx, x.1 ∈ a.forms := fun x hx => by
    rw [← zipIdx_map_fst 0 a.forms]
    exact mem_map_of_mem hx
  -- integrals of different forms have the numbers of their forms
  have hforms : a.forms.zipIdx.Pairwise (Function.onFun Disjoint fun x =>
      x.1.groups.map fun g =>
        integralText label x.1.form.signature x.2 g.group.kind.name g.group.subdomains) := by
    refine (pairwise_map.1 (nodup_zipIdx_map_snd a.forms)).imp_of_mem ?_
    intro x y hx hy hne t htx hty
    obtain ⟨g, hg, rfl⟩ := mem_map.1 htx
    obtain ⟨g', hg', heq⟩ := mem_map.1 hty
    have hg := hlisted _ (hmem x hx) g hg
    have hg' := hlisted _ (hmem y hy) g' hg'
    obtain ⟨hid, -⟩ := integralText_injective hg'.letters hg.letters hg'.parts hg.parts heq
    exact hne (Int.ofNat.inj hid).symm
  have hgroups : ∀ x ∈ a.forms.zipIdx, (x.1.groups.map fun g =>
      integralText label x.1.form.signature x.2 g.group.kind.name g.group.subdomains).Nodup ↔
      (x.1.groups.map fun g => (g.group.kind, g.group.subdomains)).Nodup := by
    intro x hx
    refine nodup_map_iff_of_eq_iff fun g hg g' hg' => ⟨fun heq => ?_, fun heq => ?_⟩
    · have hg := hlisted _ (hmem x hx) g hg
      have hg' := hlisted _ (hmem x hx) g' hg'
      obtain ⟨-, hkind, hparts⟩ :=
        integralText_injective hg.letters hg'.letters hg.parts hg'.parts heq
      rw [hg.kind_eq hg' hkind, hparts]
    · obtain ⟨hkind, hparts⟩ := Prod.mk.inj heq
      rw [hkind, hparts]
  rw [Analysis.integralTexts, nodup_flatMap, and_iff_left hforms]
  refine ⟨fun h f hf => ?_, fun h x hx => (hgroups x hx).2 (h x.1 (hmem x hx))⟩
  rw [← zipIdx_map_fst 0 a.forms, mem_map] at hf
  obtain ⟨x, hx, rfl⟩ := hf
  exact (hgroups x hx).1 (h x hx)

end Texts

/-! ## What analysis gives -/

lemma pairwise_sortUnique (es : List Element) :
    (Element.sortUnique es).Pairwise fun e e' => e.id ≠ e'.id := by
  have hunique : ∀ out : List Element, (out.Pairwise fun e e' => e.id ≠ e'.id) →
      (es.foldl (fun out e => if out.any (· == e) then out else out ++ [e]) out).Pairwise
        fun e e' => e.id ≠ e'.id := by
    induction es with
    | nil => exact fun out hout => hout
    | cons e es ih =>
      intro out hout
      refine ih _ ?_
      dsimp only
      split
      · exact hout
      · next hnew =>
        refine pairwise_append.2 ⟨hout, pairwise_singleton .., fun x hx y hy hid => hnew ?_⟩
        rw [mem_singleton.1 hy] at hid
        exact any_eq_true.2 ⟨x, hx, by simp [BEq.beq, hid]⟩
  refine (List.Perm.pairwise_iff (fun h => Ne.symm h) (mergeSort_perm _ _)).2 (hunique [] .nil)

lemma groups_of_analyseForm {options : Json} {f : MultilinearForm} {x : SampledForm}
    (h : analyseForm options f = .ok x) : x.groups.map (·.group) = x.form.groups := by
  simp only [analyseForm] at h
  obtain ⟨-, h⟩ := ite_throw_eq_ok h
  obtain ⟨-, h⟩ := ite_throw_eq_ok h
  obtain ⟨_, -, _, -, groups, hgroups, h⟩ := bind₃_eq_ok.1 h
  rw [← pure_eq_ok.1 h]
  refine (map_eq_of_mapM hgroups fun g _ x hx => ?_).trans (map_id _)
  obtain ⟨samplings, -, hx⟩ := bind_eq_ok.1 hx
  rw [← pure_eq_ok.1 hx]
  rfl

lemma analyse_eq_ok {options : Json} {objects : List Source} {a : Analysis}
    (h : analyse options objects = .ok a) : (a.elements.Pairwise fun e e' => e.id ≠ e'.id) ∧
      ∀ f ∈ a.forms, f.groups.map (·.group) = f.form.groups := by
  obtain ⟨sorted, -, forms, hforms, _, -, h⟩ := bind₃_eq_ok.1 h
  rw [← pure_eq_ok.1 h]
  refine ⟨pairwise_sortUnique _, fun f hf => ?_⟩
  obtain ⟨form, -, hform⟩ := exists_of_mapM hforms hf
  exact groups_of_analyseForm hform

/-- The names of the objects of a module are different exactly if its expressions have different
    signatures and if in each form no two groups of integrals are of one kind over the same parts of
    the mesh.  Digests of texts for one kind of object and the signatures of elements are taken to
    tell apart what they are made of. -/
theorem names_nodup_iff {s : Settings} {objects : List Source} {a : Analysis} {r : Records}
    (ha : analyse s.options objects = .ok a) (hr : records s a = .ok r)
    (hdigest : ∀ texts ∈ a.texts s.label, ∀ t ∈ texts, ∀ t' ∈ texts,
      Digest.ofText t = Digest.ofText t' → t = t')
    (hsignatures : ∀ e ∈ a.elements, ∀ e' ∈ a.elements, e.text = e'.text → e.id = e'.id) :
    r.names.Nodup ↔
      (a.expressions.map fun (e, points, _) => expressionSignature e points).Nodup ∧
      ∀ f ∈ a.forms, (f.form.groups.map fun g => (g.kind, g.subdomains)).Nodup := by
  obtain ⟨hdistinct, hgroups⟩ := analyse_eq_ok ha
  obtain ⟨hnames, hlisted⟩ := names_eq_of_records hr
  have hlisted' : ∀ f ∈ a.forms, ∀ g ∈ f.groups, g.group.Listed := fun f hf g hg =>
    hlisted f hf _ (hgroups f hf ▸ List.mem_map_of_mem hg)
  have hnamed : ∀ texts ∈ a.texts s.label, ∀ w : String,
      ((texts.map (w ++ Digest.ofText ·)).Nodup ↔ texts.Nodup) := fun texts htexts w =>
    nodup_named_iff (hdigest texts htexts) w
  have hforms : (∀ f ∈ a.forms, (f.form.groups.map fun g => (g.kind, g.subdomains)).Nodup) ↔
      ∀ f ∈ a.forms, (f.groups.map fun g => (g.group.kind, g.group.subdomains)).Nodup :=
    forall₂_congr fun f hf => by rw [← hgroups f hf, List.map_map]; rfl
  rw [hnames, hforms]
  simp (disch := decide) only
    [List.nodup_append', List.disjoint_append_left, disjoint_named, and_true]
  rw [hnamed _ (by simp [Analysis.texts]), hnamed _ (by simp [Analysis.texts]),
    hnamed _ (by simp [Analysis.texts]), hnamed _ (by simp [Analysis.texts]),
    hnamed _ (by simp [Analysis.texts]), nodup_integralTexts_iff hlisted',
    nodup_expressionTexts_iff]
  have helements : (a.elementTexts s.label).Nodup := nodup_elementTexts hdistinct hsignatures
  have hformTexts : (a.formTexts s.label).Nodup := nodup_formTexts
  tauto

/-! ## A module with a form and an expression -/

def sampleMesh : Form.Domain :=
  { id := 0, cell := .triangle, gdim := 2
    coordinate := some { (default : Element) with text := "P1", cell := .triangle } }

/-- The integral of a number over parts of the mesh. -/
def sampleGroup (subdomains : List Subdomain) : IntegralGroup where
  kind := .cell
  domain := sampleMesh
  subdomains := subdomains
  enabled := []
  terms := [{
    integrand := .terminal (.number (.int 2))
    metadata := {
      degree := some (.int 1), scheme := some (.text "custom")
      points := some ⟨[1, 2], #[0.25, 0.25]⟩, weights := some ⟨[1], #[0.5]⟩ }
    elements := [] }]

/-- A form with integrals over two parts of the mesh. -/
def sampleForm : MultilinearForm where
  signature := "area"
  arguments := []
  coefficients := []
  constants := []
  positions := []
  groups := [sampleGroup [.otherwise], sampleGroup [.number 1]]

def sampleExpression : Source :=
  .expression (.terminal (.number (.int 2))) ⟨[1, 2], #[0.25, 0.25]⟩ none

def sampleSettings : Settings where
  data := {}
  options := .map [("scalar_type", .text "float64")]
  label := "m"

def sampleAnalysis : Analysis where
  forms := [{
    form := sampleForm
    groups := sampleForm.groups.map fun group =>
      { group, samplings := [.given (some ⟨[1, 2], #[0.25, 0.25]⟩) (some ⟨[1], #[0.5]⟩)] } }]
  elements := sampleMesh.coordinate.toList
  expressions := [(.terminal (.number (.int 2)), ⟨[1, 2], #[0.25, 0.25]⟩, none)]

lemma analyse_sample : analyse sampleSettings.options [.form sampleForm, sampleExpression] =
    .ok sampleAnalysis := by
  with_unfolding_all rfl

lemma digests_sampleAnalysis : ∀ texts ∈ sampleAnalysis.texts "m", ∀ t ∈ texts, ∀ t' ∈ texts,
    Digest.ofText t = Digest.ofText t' → t = t' := by
  have hlabel : Text.quoted "m" = "'m'" := by
    rw [quoted_of_letters (by simp)]
    decide
  have hkind : Text.quoted IntegralKind.cell.name = "'cell'" := by
    rw [quoted_of_letters (by simp [IntegralKind.name])]
    decide
  have hintegrals : sampleAnalysis.integralTexts "m" = [
      digestText "area" "form"
        (Text.inRounds ["'m'", "'cell'", "0", Text.inRounds ["'otherwise'"]]),
      digestText "area" "form" (Text.inRounds ["'m'", "'cell'", "0", Text.inRounds ["1"]])] := by
    rw [← hlabel, ← hkind, ← quoted_otherwise]
    rfl
  have hdigests : ((sampleAnalysis.integralTexts "m").map Digest.ofText).Nodup := by
    rw [hintegrals]
    decide +kernel
  intro texts htexts
  simp only [Analysis.texts, mem_cons, not_mem_nil, or_false] at htexts
  rcases htexts with rfl | rfl | rfl | rfl
  · simp [sampleAnalysis, sampleMesh, Analysis.elementTexts]
  · exact inj_on_of_nodup_map hdigests
  · simp [sampleAnalysis, Analysis.formTexts]
  · simp [sampleAnalysis, Analysis.expressionTexts]

/-- A form with integrals over two parts of the mesh and an expression have different names. -/
theorem names_nodup_iff_sample :
    analyse sampleSettings.options [.form sampleForm, sampleExpression] = .ok sampleAnalysis ∧
    ∃ r, records sampleSettings sampleAnalysis = .ok r ∧ r.names.length = 6 ∧ r.names.Nodup := by
  have hrun : (records sampleSettings sampleAnalysis).toOption.any (fun _ => true) = true := by
    decide +kernel
  obtain ⟨r, hr, -⟩ := any_toOption.1 hrun
  refine ⟨analyse_sample, r, hr, ?_, ?_⟩
  · rw [(names_eq_of_records hr).1]
    rfl
  · refine (names_nodup_iff analyse_sample hr digests_sampleAnalysis ?_).2 ?_
    · simp [sampleAnalysis, sampleMesh]
    · simp [sampleAnalysis, sampleForm, sampleGroup]

/-- Two equal expressions have one name. -/
theorem names_repeat : ∃ a r,
    analyse sampleSettings.options [sampleExpression, sampleExpression] = .ok a ∧
    records sampleSettings a = .ok r ∧ ¬r.names.Nodup := by
  let a : Analysis :=
    ⟨[], [], List.replicate 2 (.terminal (.number (.int 2)), ⟨[1, 2], #[0.25, 0.25]⟩, none)⟩
  have hrun : (records sampleSettings a).toOption.any (fun _ => true) = true := by decide +kernel
  obtain ⟨r, hr, -⟩ := any_toOption.1 hrun
  refine ⟨a, r, by with_unfolding_all rfl, hr, ?_⟩
  rw [(names_eq_of_records hr).1]
  simp [a, Analysis.elementTexts, Analysis.integralTexts, Analysis.formTexts,
    Analysis.expressionTexts]

end FormKernel.Compiler
