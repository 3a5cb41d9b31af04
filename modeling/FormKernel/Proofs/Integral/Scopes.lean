import FormKernel.Integral.Kernel
import FormKernel.Proofs.Integral.Names

/-!
# Every name is declared once

The scopes of a kernel are the function, the loop over the points of each rule, and the braces of
sections.  Before the loops stand the constant arrays, the values of terminals that are the same at
all points and the intermediate values of each rule that are.  In a loop stand the values that vary
and the factors times weights.  In the braces of sections stand the intermediate values that vary
and the temporaries that are hoisted.
-/

namespace FormKernel.Integral

open Binding (Layout TerminalsDiffer)
open Factor (FactorVertex)
open Form (Expr)
open Kernel (MultiIndex Operand Stmt numbered)
open Quadrature (Rule)
open List

/-! ## Names of variables -/

variable {fresh : List (FactorVertex × String)} {l : Layout} {declared : List String}
  {task : KernelTask} {vertices : List FactorVertex} {name : String} {i : Integrand}

/-- Factors that are computed once have variables of different names. -/
lemma Fresh.nodup {start stop : List (Expr × Operand)} (h : Fresh l start stop fresh)
    (hmem : ∀ p ∈ fresh, p.1 ∈ vertices)
    (hdiffer : TerminalsDiffer l vertices) : (fresh.map (·.2)).Nodup := by
  rw [List.Nodup, pairwise_map]
  refine h.distinct.imp_of_mem fun {p q} hp hq hpq hname => ?_
  have heq := hdiffer.expr_eq (hmem p hp) (hmem q hq) (h.named p hp) (hname ▸ h.named q hq)
  rw [heq] at hpq
  cases hpq

lemma Fresh.family {start stop : List (Expr × Operand)} (h : Fresh l start stop fresh) :
    ∀ x ∈ fresh.map (·.2), Family.of x = .value := by
  intro x hx
  obtain ⟨p, hp, rfl⟩ := mem_map.1 hx
  exact family_computedIn (h.named p hp)

/-! ## Blocks -/

/-- A section that declares nothing and is not joined with others. -/
structure IsComputation (s : Stmt) : Prop where
  declares : s.declares = []
  inner : ∀ scope ∈ s.inner, scope = []
  annotations : s.annotations.contains .fuse = false
  coefficient : s.isNamed "Coefficient" = false
  jacobian : s.isNamed "Jacobian" = false

/-- What the computation of blocks declares: factors times weights are numbered on from `start`. -/
structure BlockCode.Declares (start : Nat) (code : BlockCode) : Prop where
  count : code.weighted.count = start + code.intermediates.length
  names : code.intermediates.map (·.1.name) =
    (range' start code.intermediates.length).map (numbered "fw")
  sections : ∀ s ∈ code.sections, IsComputation s

section Blocks

variable {v : Variables} {point : MultiIndex} {start : Nat}

lemma BlockCode.Declares.weightedFactor {b : Block} {done done' : BlockCode} {o : Operand}
    (hdone : done.Declares start)
    (h : weightedFactor task i v b point done = .ok (o, done')) : done'.Declares start := by
  rw [Integral.weightedFactor] at h
  obtain ⟨-, h⟩ := ite_throw_eq_ok h
  dsimp only at h
  split at h
  · split at h
    · obtain ⟨f, -, weight, -, product, -, h⟩ := bind₃_eq_ok.1 h
      split at h
      · split at h
        · obtain ⟨-, rfl⟩ := Prod.mk.inj (pure_eq_ok.1 h)
          exact hdone
        · -- a new variable takes the next number
          obtain ⟨symbol, hsymbol, h⟩ := bind_eq_ok.1 h
          obtain ⟨-, rfl⟩ := Prod.mk.inj (pure_eq_ok.1 h)
          refine ⟨?_, ?_, hdone.sections⟩
          · simp [hdone.count, Nat.add_assoc]
          · rw [map_append, hdone.names, length_append, length_singleton,
              range'_1_concat, map_append]
            simp [Binding.name_symbolOf hsymbol, hdone.count, numbered]
            rfl
      · obtain ⟨-, rfl⟩ := Prod.mk.inj (pure_eq_ok.1 h)
        exact hdone
    · cases h
  · cases h

lemma BlockCode.Declares.addBlock {map : BlockMap} {b : Block} {group group' : GroupCode}
    (hgroup : group.done.Declares start)
    (h : addBlock task declared i v map point group b = .ok group') :
    group'.done.Declares start := by
  obtain ⟨dofs, -, h⟩ := bind_eq_ok.1 h
  obtain ⟨-, h⟩ := ite_throw_eq_ok h
  obtain ⟨⟨fw, done⟩, hfactor, read, -, h⟩ := bind₂_eq_ok.1 h
  obtain ⟨-, h⟩ := ite_throw_eq_ok h
  obtain ⟨⟨factors, tables⟩, -, term, -, indices, -, h⟩ := bind₃_eq_ok.1 h
  cases h
  exact hgroup.weightedFactor hfactor

lemma silent_assignments {shape : List Int} {additions : Additions} {body : List Operand}
    (h : assignments shape additions = .ok body) :
    Operand.declaresAll body = [] ∧ Operand.innerAll body = [] := by
  obtain ⟨parts, hparts, rfl⟩ := flatMapM_eq_ok h
  have hexpr : ∀ o ∈ parts.flatten, ∃ e, o = .expr e := by
    intro o ho
    obtain ⟨part, hpart, ho⟩ := mem_flatten.1 ho
    obtain ⟨⟨indices, terms⟩, -, hstep⟩ := exists_of_forall₂_right hparts hpart
    obtain ⟨index, -, hstep⟩ := bind_eq_ok.1 hstep
    obtain ⟨term, -, hterm⟩ := exists_of_mapM hstep ho
    obtain ⟨entry, -, value, -, hterm⟩ := bind₂_eq_ok.1 hterm
    exact ⟨_, (pure_eq_ok.1 hterm).symm⟩
  rw [Operand.declaresAll_eq_flatMap, Operand.innerAll_eq_flatMap, flatMap_eq_nil_iff,
    flatMap_eq_nil_iff]
  constructor
  · intro o ho
    obtain ⟨e, rfl⟩ := hexpr o ho
    rfl
  · intro o ho
    obtain ⟨e, rfl⟩ := hexpr o ho
    rfl

lemma BlockCode.Declares.groupSection {done done' : BlockCode} {group : BlockMap × List Block}
    (hdone : done.Declares start) (h : groupSection task declared i v done group = .ok done') :
    done'.Declares start := by
  obtain ⟨point, -, code, hcode, body, hbody, loops, hloops, part, hpart, h⟩ := bind₅_eq_ok.1 h
  cases h
  have hblocks : code.done.Declares start :=
    foldlM_induction (fun group : GroupCode => group.done.Declares start) hdone
      (fun _ _ _ _ hgroup hstep => hgroup.addBlock hstep) hcode
  obtain ⟨ranges, -, hloops⟩ := bind_eq_ok.1 hloops
  obtain ⟨hnone, hsilent⟩ := Kernel.scopes_wrapLoops hloops
  obtain ⟨hdeclares, hinner, hannotations, hnamed⟩ := Kernel.scopes_ofPart hpart
  obtain ⟨hbodyNames, hbodyInner⟩ := silent_assignments hbody
  have hpart : IsComputation part := by
    refine ⟨hdeclares, ?_, ?_, by rw [hnamed]; decide, by rw [hnamed]; decide⟩
    · simp only [Operand.declares, Operand.inner, hbodyNames, hbodyInner] at hnone hsilent
      rw [hinner, forall_mem_cons]
      simpa [Operand.declaresAll, Operand.innerAll, hnone] using hsilent
    · rw [hannotations]
      split <;> rfl
  exact ⟨hblocks.count, hblocks.names, forall_mem_append.2 ⟨hblocks.sections, by simpa using hpart⟩⟩

end Blocks

/-! ## The loop over points -/

lemma sizes_ofExprs {symbols : List Kernel.Expr} {sizes : List Int} {tag : Kernel.Tag}
    {m : MultiIndex} (h : MultiIndex.ofExprs symbols sizes tag = .ok m) : m.sizes = sizes := by
  obtain ⟨exprs, -, _, -, h⟩ := bind₂_eq_ok.1 h
  split at h
  · cases h
    rfl
  · obtain ⟨_, -, _, -, h⟩ := bind₂_eq_ok.1 h
    cases h
    rfl

/-- There is a loop over the points of a rule, unless the rule is a product of no factors. -/
lemma loopRanges_ne_nil {rule : Rule} {point : MultiIndex} {ranges : List (Kernel.Expr × Int)}
    (hfactors : rule.factors ≠ some []) (hpoint : Binding.ruleIndex (some rule) name = .ok point)
    (h : Kernel.loopRanges [point] = .ok ranges) : ranges ≠ [] := by
  have hsizes : point.sizes ≠ [] := by
    rw [Binding.ruleIndex] at hpoint
    dsimp only at hpoint
    split at hpoint
    · rw [sizes_ofExprs hpoint]
      simp
    · next fs hfs =>
      rw [sizes_ofExprs hpoint]
      intro hnil
      exact hfactors (by rw [hfs, map_eq_nil_iff.1 hnil])
  obtain ⟨all, hall, h⟩ := bind_eq_ok.1 h
  cases h
  obtain ⟨row, hrow, rfl⟩ := forall₂_one (mapM_eq_ok.1 hall)
  have hlength := (mapM_eq_ok.1 hrow).length_eq
  intro hnil
  simp only [flatten_cons, flatten_nil, append_nil] at hnil
  rw [hnil, length_zipIdx, length_nil, length_eq_zero_iff] at hlength
  exact hsizes hlength

/-- Optimised computations declare nothing where they stand. -/
lemma scopes_computations {sections sections' : List Stmt}
    (hsections : ∀ s ∈ sections, IsComputation s)
    (h : sections.mapM Kernel.optimizeSection = .ok sections') :
    Stmt.declaresAll sections' = [] ∧ ∀ scope ∈ Stmt.innerAll sections', scope.Nodup := by
  have hall : ∀ t ∈ sections', t.declares = [] ∧ ∀ scope ∈ t.inner, scope.Nodup := by
    intro t ht
    obtain ⟨s, hs, hst⟩ := exists_of_mapM h ht
    have hs := hsections s hs
    obtain ⟨hdeclares, hinner⟩ := Kernel.scopes_optimizeSection hs.inner hs.annotations hst
    exact ⟨hdeclares.trans hs.declares, hinner⟩
  rw [Stmt.declaresAll_eq_flatMap, Stmt.innerAll_eq_flatMap, flatMap_eq_nil_iff, forall_mem_flatMap]
  exact ⟨fun t ht => (hall t ht).1, fun t ht => (hall t ht).2⟩

/-- The body of the loop over points: definitions, the section of intermediate values, and the
    computations of blocks. -/
lemma scopes_loopBody {start : Variables} {n : Nat} {p : Partition} {code : BlockCode} {s : Stmt}
    {parts : List Stmt} (hp : p.Declares l name true start fresh) (hfresh : (fresh.map (·.2)).Nodup)
    (hcode : code.Declares n) (hdeclares : s.declares = code.intermediates.map (·.1.name))
    (hinner : s.inner = [Stmt.declaresAll p.intermediates]) (hannotations : s.annotations = [])
    (hnamed : ∀ m, s.isNamed m = ("Intermediates" == m))
    (h : Kernel.optimize (p.definitions ++ s :: code.sections) = .ok parts) :
    ∀ scope ∈ Kernel.scopes parts, scope.Nodup := by
  have hothers : ∀ t ∈ s :: code.sections,
      t.isNamed "Coefficient" = false ∧ t.isNamed "Jacobian" = false :=
    forall_mem_cons.2 ⟨⟨by rw [hnamed]; decide, by rw [hnamed]; decide⟩,
      fun t ht => ⟨(hcode.sections t ht).coefficient, (hcode.sections t ht).jacobian⟩⟩
  obtain ⟨definitions, rest, rfl, hshallow, hnames, hrest⟩ :=
    Kernel.shallow_optimize hp.shallow hothers h
  rw [mapM_cons] at hrest
  obtain ⟨s', hs', sections, hsections, hrest⟩ := bind₂_eq_ok.1 hrest
  cases hrest
  -- nothing is asked for the section of intermediate values
  obtain rfl : s = s' := by
    obtain ⟨u, hu, hs'⟩ := Kernel.optimizeSection_eq_ok hs'
    rw [hannotations, if_neg (by decide)] at hu
    cases hu
    rw [hannotations, if_neg (by decide)] at hs'
    exact Except.ok.inj hs'
  obtain ⟨hnone, hsectionScopes⟩ := scopes_computations hcode.sections hsections
  rw [Kernel.scopes, forall_mem_cons]
  constructor
  · rw [Kernel.declaresAll_append, Stmt.declaresAll, hnone, append_nil, hdeclares, hcode.names]
    have hfamily := hp.new.family
    refine nodup_append_of_family ?_ ?_ fun x hx y hy => ?_
    · exact ((hnames.trans hp.definitions).nodup_iff).2 hfresh
    · exact List.Nodup.map (Kernel.numbered_injective "fw") nodup_range'
    · rw [hfamily x ((hnames.trans hp.definitions).subset hx)]
      obtain ⟨k, -, rfl⟩ := mem_map.1 hy
      rw [Family.of, numbered, String.toList_append]
      rintro ⟨⟩
  · rw [Stmt.innerAll_append, Stmt.innerAll, hinner]
    intro scope hscope
    rcases mem_append.1 hscope with hscope | hscope
    · rw [Stmt.innerAll_eq_flatMap] at hscope
      obtain ⟨d, hd, hscope⟩ := mem_flatMap.1 hscope
      rw [(hshallow d hd).inner scope hscope]
      exact nodup_nil
    · rcases mem_cons.1 hscope with rfl | hscope
      · rw [hp.intermediates]
        exact Kernel.nodup_numbered _ _
      · exact hsectionScopes scope hscope

/-- In the loop over the points of a rule, and in the braces of its sections, every name is declared
    once. -/
lemma scopes_pointLoop {v : Variables} {weighted count : Nat} {o : Operand} {q : Partition}
    (hfactors : i.rule.factors ≠ some [])
    (hdiffer : TerminalsDiffer task.layout (i.factors.nodes.map (·.2)))
    (h : pointLoop task declared i v weighted = .ok (o, q, count)) :
    o.declares = [] ∧ (∀ scope ∈ o.inner, scope.Nodup) ∧ q.values.common = v.common := by
  obtain ⟨id, -, p, hp, groups, -, code, hcode, inputs, -, h⟩ := bind₅_eq_ok.1 h
  obtain ⟨declarations, hdeclarations, intermediates, hintermediates, point, hpoint, parts, hparts,
      loop, hloop, h⟩ := bind₅_eq_ok.1 h
  obtain ⟨rfl, hrest⟩ := Prod.mk.inj (pure_eq_ok.1 h)
  obtain ⟨rfl, -⟩ := Prod.mk.inj hrest
  obtain ⟨ranges, hranges, hloop⟩ := bind_eq_ok.1 hloop
  obtain ⟨hdeclares, hinner⟩ := Kernel.scopes_wrapLoops hloop
  rw [if_neg (loopRanges_ne_nil hfactors hpoint hranges)] at hdeclares
  obtain ⟨fresh, hfresh, hpartition⟩ := partition_declares hdiffer.refl hp
  have hblocks : code.Declares weighted :=
    foldlM_induction (fun code : BlockCode => code.Declares weighted)
      ⟨rfl, rfl, forall_mem_nil _⟩ (fun _ _ _ _ hdone hstep => hdone.groupSection hstep) hcode
  obtain ⟨hmade, hbody, hannotations, hnamed⟩ := Kernel.scopes_ofPart hintermediates
  -- declared are the factors times weights; in the braces stand the intermediate values
  have hmadeNames : Operand.declaresAll declarations = code.intermediates.map (·.1.name) := by
    refine (Operand.scopes_of_forall₂ (forall₂_map_right_iff.2 (List.Forall₂.flip
      ((mapM_eq_ok.1 hdeclarations).imp fun x o ho => ?_)))).1
    obtain ⟨t, ht, ho⟩ := bind_eq_ok.1 ho
    cases ho
    exact Kernel.declares_ofVariable ht
  obtain ⟨hsets, hsetsInner⟩ : Operand.declaresAll (code.intermediates.map fun x =>
      Operand.expr (.assign .set (.symbol x.1) x.2)) = [] ∧
      Operand.innerAll (code.intermediates.map fun x =>
        Operand.expr (.assign .set (.symbol x.1) x.2)) = [] := by
    rw [Operand.declaresAll_eq_flatMap, Operand.innerAll_eq_flatMap, flatMap_map, flatMap_map]
    simp [Operand.declares, Operand.inner]
  rw [Operand.declaresAll_append, Operand.innerAll_append, hsets, hsetsInner, append_nil,
    append_nil, Operand.declaresAll_stmts, Operand.innerAll_stmts, hpartition.silent] at hbody
  rw [hmadeNames] at hmade
  rw [append_assoc] at hparts
  have hscopes := scopes_loopBody hpartition (hpartition.new.nodup hfresh hdiffer) hblocks hmade
    hbody hannotations hnamed hparts
  rw [Kernel.scopes, forall_mem_cons] at hscopes
  refine ⟨hdeclares, fun scope hscope => ?_, hpartition.kept⟩
  rcases hinner scope hscope with rfl | rfl | hscope
  · exact nodup_nil
  · simpa [Operand.declares] using hscopes.1
  · exact hscopes.2 scope (by simpa [Operand.inner] using hscope)

/-! ## Code of all rules -/

lemma scopes_definitionCode (s : Stmt) :
    (definitionCode s).declares = s.declares ∧ (definitionCode s).inner = s.inner := by
  rw [definitionCode.eq_def]
  split
  · exact ⟨rfl, rfl⟩
  · exact ⟨rfl, rfl⟩

/-- The name of an intermediate value that is the same at all points. -/
def sharedName (id : String) (k : Nat) : String := numbered ("sp_" ++ id ++ "_") k

/-- Intermediate values of different rules have different names. -/
lemma sharedName_injective {id id' : String} {k k' : Nat}
    (h : sharedName id k = sharedName id' k') : id = id' := by
  have hlist : ("sp_".toList ++ id.toList) ++ '_' :: (toString k).toList =
      ("sp_".toList ++ id'.toList) ++ '_' :: (toString k').toList := by
    simpa [sharedName, numbered, String.toList_append] using congrArg String.toList h
  -- digits hold no mark, so the last mark ends the rule
  have hmark : ∀ k : Nat, '_' ∉ (toString k).toList := fun k => by simp [Nat.toString_eq_repr]
  rw [Table.append_last_mark_inj (hmark k) (hmark k') hlist] at hlist
  exact String.toList_inj.1 (append_cancel_left (append_cancel_right hlist))

/-- What the code of rules declares, where `ids` are the digits of the rules and `fresh` the factors
    that are computed in variables before all loops. -/
structure RuleCode.Declares (l : Layout) (vertices : List FactorVertex) (ids : List String)
    (done : RuleCode) (fresh : List (FactorVertex × String)) (shared : List String) : Prop where
  vertices : ∀ p ∈ fresh, p.1 ∈ vertices
  new : Fresh l [] done.values.common fresh
  before : (Operand.declaresAll done.before).Perm (fresh.map (·.2) ++ shared)
  nodup : shared.Nodup
  shared : ∀ x ∈ shared, ∃ id ∈ ids, ∃ k, x = sharedName id k
  inner : ∀ scope ∈ Operand.innerAll done.before, scope = []
  loops : Operand.declaresAll done.loops = []
  loopsInner : ∀ scope ∈ Operand.innerAll done.loops, scope.Nodup

/-- The code of one more rule declares the variables of its terminals and intermediates that carry
    its digits, which no rule before it has. -/
lemma RuleCode.Declares.addRuleCode {ids : List String} {done done' : RuleCode}
    {shared : List String} (hdone : done.Declares task.layout vertices ids fresh shared)
    (hdiffer : TerminalsDiffer task.layout vertices) (hi : i.factors.nodes.map (·.2) ⊆ vertices)
    (hid : i.rule.id ∉ ids) (hfactors : i.rule.factors ≠ some [])
    (h : addRuleCode task declared done i = .ok done') :
    ∃ fresh' shared', done'.Declares task.layout vertices (ids ++ [i.rule.id]) fresh' shared' := by
  obtain ⟨id, hname, h⟩ := bind_eq_ok.1 h
  obtain rfl := ruleName_eq_ok hname
  obtain ⟨p, hp, ⟨loop, q, weighted⟩, hloop, h⟩ := bind₂_eq_ok.1 h
  cases h
  obtain ⟨new, hnew, hpartition⟩ := partition_declares (hdiffer.subset hi).refl hp
  obtain ⟨hnone, hinner, hcommon⟩ := scopes_pointLoop hfactors (hdiffer.subset hi) hloop
  have hintermediates : Stmt.declaresAll p.intermediates =
      (range p.intermediates.length).map (sharedName i.rule.id) := hpartition.intermediates
  obtain ⟨hdefinitions, hdefinitionsInner⟩ :
      Operand.declaresAll (p.definitions.map definitionCode) = Stmt.declaresAll p.definitions ∧
      Operand.innerAll (p.definitions.map definitionCode) = Stmt.innerAll p.definitions := by
    rw [Operand.declaresAll_eq_flatMap, Operand.innerAll_eq_flatMap, flatMap_map,
      flatMap_map, Stmt.declaresAll_eq_flatMap, Stmt.innerAll_eq_flatMap]
    exact ⟨flatMap_congr fun s _ => (scopes_definitionCode s).1,
      flatMap_congr fun s _ => (scopes_definitionCode s).2⟩
  refine ⟨fresh ++ new, shared ++ (range p.intermediates.length).map (sharedName i.rule.id),
    ?_, ?_, ?_, ?_, ?_, ?_, ?_, ?_⟩
  · exact forall_mem_append.2 ⟨hdone.vertices, fun x hx => hi (hnew x hx)⟩
  · rw [hcommon]
    exact hdone.new.trans hpartition.new
  · rw [Operand.declaresAll_append, Operand.declaresAll, Operand.declaresAll, Operand.declaresAll,
      Operand.declares, Operand.declares, hdefinitions, Operand.declaresAll_stmts, hintermediates,
      append_nil, map_append, append_assoc]
    refine (hdone.before.append (hpartition.definitions.append_right _)).trans ?_
    rw [append_assoc]
    exact (perm_append_comm_assoc ..).append_left _
  -- intermediates of different rules have different digits
  · refine nodup_append.2 ⟨hdone.nodup, Kernel.nodup_numbered _ _, fun x hx y hy hxy => ?_⟩
    obtain ⟨id, hid', k, rfl⟩ := hdone.shared x hx
    obtain ⟨k', -, rfl⟩ := mem_map.1 hy
    exact hid (sharedName_injective hxy ▸ hid')
  · refine forall_mem_append.2 ⟨fun x hx => ?_, fun x hx => ?_⟩
    · obtain ⟨id, hid', hk⟩ := hdone.shared x hx
      exact ⟨id, mem_append_left _ hid', hk⟩
    · obtain ⟨k, -, rfl⟩ := mem_map.1 hx
      exact ⟨i.rule.id, by simp, k, rfl⟩
  · rw [Operand.innerAll_append, Operand.innerAll, Operand.innerAll, Operand.innerAll,
      Operand.inner, Operand.inner, hdefinitionsInner, Operand.innerAll_stmts, hpartition.silent,
      append_nil, append_nil]
    refine forall_mem_append.2 ⟨hdone.inner, ?_⟩
    rw [Stmt.innerAll_eq_flatMap]
    exact forall_mem_flatMap.2 fun d hd => (hpartition.shallow d hd).inner
  · simp [Operand.declaresAll, hdone.loops, hnone]
  · rw [Operand.innerAll_append, Operand.innerAll, Operand.innerAll, append_nil]
    exact forall_mem_append.2 ⟨hdone.loopsInner, hinner⟩

section Before

variable {ids : List String} {code : RuleCode} {shared : List String}

lemma RuleCode.Declares.family_shared (h : code.Declares l vertices ids fresh shared) :
    ∀ x ∈ shared, Family.of x = .intermediate := by
  intro x hx
  obtain ⟨id, -, k, rfl⟩ := h.shared x hx
  rw [Family.of, sharedName, numbered, String.toList_append, String.toList_append,
    String.toList_append]
  rfl

lemma RuleCode.Declares.family_before (h : code.Declares l vertices ids fresh shared) :
    ∀ x ∈ Operand.declaresAll code.before, Family.of x = .value ∨ Family.of x = .intermediate := by
  intro x hx
  rcases mem_append.1 (h.before.subset hx) with hx | hx
  · exact .inl (h.new.family x hx)
  · exact .inr (h.family_shared x hx)

lemma RuleCode.Declares.nodup_before (h : code.Declares l vertices ids fresh shared)
    (hdiffer : TerminalsDiffer l vertices) : (Operand.declaresAll code.before).Nodup := by
  rw [h.before.nodup_iff]
  refine nodup_append_of_family (h.new.nodup h.vertices hdiffer) h.nodup fun x hx y hy => ?_
  rw [h.new.family x hx, h.family_shared y hy]
  decide

end Before

lemma ruleCode_declares {r : Representation} {code : RuleCode}
    (hids : (r.integrands.map fun i => i.rule.id).Nodup)
    (hfactors : ∀ i ∈ r.integrands, i.rule.factors ≠ some [])
    (hdiffer : TerminalsDiffer task.layout r.vertices)
    (h : r.integrands.foldlM (addRuleCode task declared) {} = .ok code) :
    ∃ fresh shared, code.Declares task.layout r.vertices (r.integrands.map fun i => i.rule.id) fresh
      shared := by
  refine foldlM_prefix (fun (is : List Integrand) (code : RuleCode) => ∃ fresh shared,
    code.Declares task.layout r.vertices (is.map fun i => i.rule.id) fresh shared) ?_ ?_ h
  · exact ⟨[], [], by simp, .refl _ _, .refl _, nodup_nil, by simp, by simp [Operand.innerAll],
      rfl, by simp [Operand.innerAll]⟩
  · rintro done i rest code code' hsplit ⟨fresh, shared, hcode⟩ hstep
    have hi : i ∈ r.integrands := by simp [hsplit]
    have hvertices : i.factors.nodes.map (·.2) ⊆ r.vertices := fun v hv =>
      mem_flatMap.2 ⟨i, hi, hv⟩
    have hnew : i.rule.id ∉ done.map fun i => i.rule.id := by
      rw [hsplit, map_append, map_cons, nodup_append] at hids
      exact fun hmem => hids.2.2 _ hmem _ mem_cons_self rfl
    rw [map_append]
    exact hcode.addRuleCode hdiffer hvertices hnew (hfactors i hi) hstep

/-- No scope of a kernel declares a name twice, if different rules have different digits and
    different terminals are computed in variables of different names. -/
theorem kernel_declares_once {task : Task} {kernelTask : KernelTask}
    {integrands : List (Rule × Expr)}
    {r : Representation} {code : List Stmt} (hr : represent task integrands = .ok r)
    (hids : (r.integrands.map fun i => i.rule.id).Nodup)
    (hfactors : ∀ i ∈ r.integrands, i.rule.factors ≠ some [])
    (hdiffer : TerminalsDiffer kernelTask.layout r.vertices)
    (h : kernel kernelTask r = .ok code) : ∀ scope ∈ Kernel.scopes code, scope.Nodup := by
  obtain ⟨weights, hweights, h⟩ := bind_eq_ok.1 h
  obtain ⟨tables, htables, h⟩ := bind_eq_ok.1 h
  obtain ⟨geometry, hgeometry, h⟩ := bind_eq_ok.1 h
  obtain ⟨rules, hrules, h⟩ := bind_eq_ok.1 h
  have hW := declares_weights hids hweights
  have hT := declares_namedTables (named_represent hr) (by split <;> simp) htables
  have hG := declares_geometry hgeometry
  obtain ⟨fresh, shared, hR⟩ := ruleCode_declares hids hfactors hdiffer hrules
  obtain ⟨hdeclares, hinner⟩ := Kernel.scopes_toStmts h
  have hT := hT.commented ["Precomputed values of basis functions and precomputations",
    "FE* dimensions: [permutation][entities][points][dofs]"]
  rw [Kernel.scopes, List.forall_mem_cons, hdeclares, hinner]
  simp only [Operand.declaresAll_append, Operand.innerAll_append, hW.inner, hT.inner, hG.inner,
    hR.loops, List.append_nil, List.nil_append]
  -- weights, tables, geometry and variables have names of different families
  constructor
  · refine nodup_append_of_family (nodup_append_of_family (nodup_append_of_family hW.nodup hT.nodup
      ?_) hG.nodup ?_) (hR.nodup_before hdiffer) ?_
    · intro x hx y hy
      rw [hW.family x hx, hT.family y hy]
      decide
    · intro x hx y hy
      rw [hG.family y hy]
      rcases List.mem_append.1 hx with hx | hx
      · rw [hW.family x hx]
        decide
      · rw [hT.family x hx]
        decide
    · intro x hx y hy
      have hy := hR.family_before y hy
      rcases List.mem_append.1 hx with hx | hx
      · rcases List.mem_append.1 hx with hx | hx
        · rw [hW.family x hx]
          rcases hy with hy | hy <;> rw [hy] <;> decide
        · rw [hT.family x hx]
          rcases hy with hy | hy <;> rw [hy] <;> decide
      · rw [hG.family x hx]
        rcases hy with hy | hy <;> rw [hy] <;> decide
  · refine List.forall_mem_append.2 ⟨fun scope hscope => ?_, hR.loopsInner⟩
    rw [hR.inner scope hscope]
    exact List.nodup_nil

/-! ### Two rules on a triangle -/

/-- The coefficient in a value on the reference cell. -/
def coefficientOf : Expr → Form.Terminal
  | .operator _ [.terminal t] .. => t
  | _ => .zero

/-- The task of writing the kernel of an integral of a coefficient over triangles. -/
def triangleKernel (e : Expr) : KernelTask where
  data := triangleData
  layout := {
    kind := .cell, entity := .cell
    coefficientNumbers := [(coefficientOf e, 0)], coefficientOffsets := [(coefficientOf e, 0)] }
  shape := []

/-- Two rules with different points share a table and a variable, each of which is declared once. -/
theorem kernel_declares_once_abscissas :
    ∃ r code, represent (triangleTask .cell .cell) abscissas = .ok r ∧ r.integrands.length = 2 ∧
      kernel (triangleKernel (triangleCoefficient [(1.0, [1, 0])])) r = .ok code ∧
      ∀ scope ∈ Kernel.scopes code, scope.Nodup := by
  have hrun : (represent (triangleTask .cell .cell) abscissas).toOption.any (fun r =>
      r.integrands.length == 2 && decide (r.integrands.map fun i => i.rule.id).Nodup &&
      (r.integrands.all fun i => i.rule.factors.isNone) &&
      decide (TerminalsDiffer (triangleKernel (triangleCoefficient [(1.0, [1, 0])])).layout
        r.vertices) &&
      (kernel (triangleKernel (triangleCoefficient [(1.0, [1, 0])])) r).toOption.isSome) = true :=
        by
    decide +kernel
  obtain ⟨r, hr, hall⟩ := any_toOption.1 hrun
  simp only [Bool.and_eq_true, beq_iff_eq, decide_eq_true_eq, List.all_eq_true,
    Option.isNone_iff_eq_none] at hall
  obtain ⟨⟨⟨⟨hlength, hids⟩, hfactors⟩, hdiffer⟩, hcode⟩ := hall
  cases hkernel : kernel (triangleKernel (triangleCoefficient [(1.0, [1, 0])])) r with
  | error e => simp [hkernel, Except.toOption] at hcode
  | ok code =>
    exact ⟨r, code, hr, hlength, hkernel,
      kernel_declares_once hr hids (fun i hi => by simp [hfactors i hi]) hdiffer hkernel⟩

def weightRule (weight : Float) : Rule := { pointRule 0.25 with weights := ⟨[1], #[weight]⟩ }

/-- Two rules that differ only in their weights have the same digits: their weights are declared
    twice under one name. -/
theorem kernel_declares_weights_twice :
    ∃ r code, represent (triangleTask .cell .cell)
        [(weightRule 0.5, triangleCoefficient [(1.0, [1, 0])]),
          (weightRule 0.25, triangleCoefficient [(1.0, [1, 0])])] = .ok r ∧
      kernel (triangleKernel (triangleCoefficient [(1.0, [1, 0])])) r = .ok code ∧
      ∃ scope ∈ Kernel.scopes code, ¬scope.Nodup := by
  have hrun : (represent (triangleTask .cell .cell)
      [(weightRule 0.5, triangleCoefficient [(1.0, [1, 0])]),
        (weightRule 0.25, triangleCoefficient [(1.0, [1, 0])])]).toOption.any (fun r =>
      (kernel (triangleKernel (triangleCoefficient [(1.0, [1, 0])])) r).toOption.any fun code =>
        (Kernel.scopes code).any fun scope => decide (¬scope.Nodup)) = true := by
    decide +kernel
  obtain ⟨r, hr, hany⟩ := any_toOption.1 hrun
  obtain ⟨code, hcode, hany⟩ := any_toOption.1 hany
  obtain ⟨scope, hscope, hnodup⟩ := List.any_eq_true.1 hany
  exact ⟨r, code, hr, hcode, scope, hscope, of_decide_eq_true hnodup⟩

end FormKernel.Integral
