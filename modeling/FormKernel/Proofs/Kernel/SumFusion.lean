import FormKernel.Proofs.Kernel.Steps
import Mathlib.Data.List.Pairwise

/-!
# Fusion of sections of sums

Sections that declare variables and add to them in nests of loops are joined, and so are their
loops.  No statement is lost, and every variable keeps its sequence of additions.
-/

namespace FormKernel.Kernel

open List

/-! ## Passing through code -/

section Passing

variable (pass : Int → Int → List Int)

mutual

/-- The steps of a statement inside of loops.  A loop is passed through with the values that `pass`
    gives for its bounds. -/
def Stmt.steps (loops : List Passage) : Stmt → List Step
  | .expr (.assign .add (.symbol x) e) => [.add x.name loops e]
  | .loop (.symbol i) (.int (.int a)) (.int (.int b)) body =>
    (pass a b).flatMap fun k => Stmt.stepsAll (⟨i.name, a, b, k⟩ :: loops) body
  | s => [.other s]

/-- The steps of statements, one after the other. -/
def Stmt.stepsAll (loops : List Passage) : List Stmt → List Step
  | [] => []
  | s :: ss => s.steps loops ++ Stmt.stepsAll loops ss

end

def Stmt.declaring : Stmt → Step
  | .variableDecl _ x (some e) => .declare x.name e
  | s => .other s

/-- The steps of a node of code: a section of declarations and additions is passed through, and
    everything else is one step. -/
def Stmt.passed : Stmt → List Step
  | .part tag name body declarations input output annotations =>
    let steps := declarations.map Stmt.declaring ++ Stmt.stepsAll pass [] body
    if steps.all Step.isPlain then steps
    else [.other (.part tag name body declarations input output annotations)]
  | s => [.other s]

lemma Stmt.stepsAll_eq_flatMap (loops : List Passage) (ss : List Stmt) :
    Stmt.stepsAll pass loops ss = ss.flatMap (Stmt.steps pass loops) := by
  induction ss with
  | nil => rfl
  | cons s ss ih => rw [stepsAll, ih, flatMap_cons]

end Passing

/-- Passes through a loop as often as it runs. -/
def running (a b : Int) : List Int := (range (b - a).toNat).map fun k => a + k

/-- Passes through a loop once. -/
def once (_ _ : Int) : List Int := [0]

/-! ## Nests -/

/-- A loop with literal bounds. -/
abbrev Stmt.range (i : Symbol) (a b : Int) (body : List Stmt) : Stmt :=
  .loop (.symbol i) (.int (.int a)) (.int (.int b)) body

/-- A nest of loops around an addition to a variable. -/
inductive Nest (x : String) (e : Expr) : Stmt → Prop
  | add {s : Symbol} : s.name = x → Nest x e (.expr (.assign .add (.symbol s) e))
  | loop (i : Symbol) (a b : Int) {s : Stmt} : Nest x e s → Nest x e (.range i a b [s])

variable {x y : String} {e f : Expr} {s t : Stmt} {pass : Int → Int → List Int}
  {loops loops' : List Passage} {p : Step}

lemma Nest.eq_of_mem_steps (h : Nest x e s)
    (hp : p ∈ s.steps pass loops) : ∃ loops', p = .add x loops' e := by
  induction h generalizing loops with
  | add hx => exact ⟨loops, hx ▸ mem_singleton.1 hp⟩
  | loop i a b _ ih =>
    obtain ⟨k, -, hp⟩ := mem_flatMap.1 hp
    exact ih (by simpa [Stmt.stepsAll] using hp)

lemma Nest.exists_mem_steps (h : Nest x e s) (loops : List Passage) :
    ∃ loops', Step.add x loops' e ∈ s.steps once loops := by
  induction h generalizing loops with
  | add hx => exact ⟨loops, by simp [Stmt.steps, hx]⟩
  | loop i a b _ ih => simpa [Stmt.steps, once, Stmt.stepsAll] using ih _

/-- Nests that add to different variables, of which none reads the variable of the other. -/
def Separate (s t : Stmt) : Prop :=
  ∀ ⦃x e y f⦄, Nest x e s → Nest y f t → x ∉ y :: f.names ∧ y ∉ x :: e.names

lemma independent_add : (Step.add x loops e).Independent (.add y loops' f) ↔
    x ∉ y :: f.names ∧ y ∉ x :: e.names := by
  simp only [Step.Independent, Step.sets, Step.names, singleton_disjoint]

lemma Nest.apart (hs : Nest x e s) (ht : Nest y f t) (h : Separate s t) :
    Apart (s.steps pass loops) (t.steps pass loops') := by
  intro p hp q hq
  obtain ⟨_, rfl⟩ := hs.eq_of_mem_steps hp
  obtain ⟨_, rfl⟩ := ht.eq_of_mem_steps hq
  exact independent_add.2 (h hs ht)

/-! ## Joined loops -/

/-- A group of loops with literal bounds around single statements. -/
def LoopGroup.literal (i : Symbol) (a b : Int) (ss : List Stmt) : LoopGroup :=
  ⟨.symbol i, .int (.int a), .int (.int b), ss.map ([·])⟩

def LoopGroup.loop (g : LoopGroup) : Stmt := .loop g.index g.lower g.upper g.bodies.flatten

lemma loop_literal (i : Symbol) (a b : Int) (ss : List Stmt) :
    (LoopGroup.literal i a b ss).loop = .range i a b ss :=
  congrArg (Stmt.range i a b) (flatMap_singleton' ss)

lemma ofLoop_literal (i : Symbol) (a b : Int) (ss : List Stmt) : let g := LoopGroup.literal i a b ss
    Stmt.ofLoop g.index (.expr g.lower) (.expr g.upper)
    (g.bodies.map fun b => .stmt (.list b)) = .ok g.loop := by
  have hbody : Operand.toStmts ((ss.map ([·])).map fun b => .stmt (.list b)) = .ok ss := by
    induction ss with
    | nil => rfl
    | cons s ss ih => simp only [map_cons, Operand.toStmts, ih]; rfl
  simp only [loop_literal, Stmt.ofLoop]
  simp only [LoopGroup.literal, hbody]
  rfl

lemma steps_literal (i : Symbol) (a b : Int) (ss : List Stmt) :
    (LoopGroup.literal i a b ss).loop.steps pass [] =
      (pass a b).flatMap fun k => ss.flatMap (Stmt.steps pass [⟨i.name, a, b, k⟩]) := by
  simp only [loop_literal, Stmt.steps, Stmt.stepsAll_eq_flatMap]

def groupSteps (pass : Int → Int → List Int) (gs : List LoopGroup) : List Step :=
  gs.flatMap fun g => g.loop.steps pass []

variable {gs : List LoopGroup} {declarations before rest : List Stmt} {xs : List String}

/-- A loop joins the group with its index and bounds. -/
lemma addToGroup_reordered {i : Symbol} {a b : Int}
    (hgs : ∀ g ∈ gs, ∃ j c d ss, g = .literal j c d ss) :
    (∀ g ∈ addToGroup (.symbol i) (.int (.int a)) (.int (.int b)) [s] gs, ∃ j c d ss,
      g = .literal j c d ss) ∧
    ∀ pass, Apart (groupSteps pass gs) ((Stmt.range i a b [s]).steps pass []) →
      Reordered (groupSteps pass gs ++ (Stmt.range i a b [s]).steps pass [])
        (groupSteps pass (addToGroup (.symbol i) (.int (.int a)) (.int (.int b)) [s] gs)) := by
  have hloop : ∀ pass, (Stmt.range i a b [s]).steps pass [] =
      (LoopGroup.literal i a b [s]).loop.steps pass [] :=
    fun _ => rfl
  simp only [hloop]
  induction gs with
  | nil =>
    refine ⟨fun g hg => ⟨i, a, b, [s], mem_singleton.1 hg⟩, fun pass _ => ?_⟩
    rw [addToGroup, groupSteps, groupSteps, flatMap_cons, flatMap_nil, nil_append, append_nil]
    exact .refl _
  | cons g gs ih =>
    rw [forall_mem_cons] at hgs
    obtain ⟨hliteral, hsteps⟩ := ih hgs.2
    rw [addToGroup]
    split
    · next hsame =>
      obtain ⟨j, c, d, ss, rfl⟩ := hgs.1
      obtain ⟨⟨hindex, rfl⟩, rfl⟩ : (j.name = i.name ∧ c = a) ∧ d = b := by
        simpa [LoopGroup.literal, Expr.same, Expr.equal, Symbol.same, Whole.same, Numeral.same,
          Whole.numeral, Numeral.int?] using hsame
      have hjoined : { LoopGroup.literal j c d ss with bodies :=
        (LoopGroup.literal j c d ss).bodies ++ [[s]] } =
          LoopGroup.literal j c d (ss ++ [s]) := by simp [LoopGroup.literal]
      rw [hjoined]
      refine ⟨forall_mem_cons.2 ⟨⟨j, c, d, ss ++ [s], rfl⟩, hgs.2⟩, fun pass happart => ?_⟩
      rw [groupSteps, flatMap_cons] at happart ⊢
      rw [groupSteps, flatMap_cons, append_assoc]
      -- the loop passes the other groups, and its passages join those of its own
      refine .trans (.append_left _ (.append_comm fun p hp => happart p (mem_append_right _ hp))) ?_
      rw [← append_assoc]
      refine .append_right ?_ _
      simp only [steps_literal, hindex, flatMap_append] at happart ⊢
      refine (Reordered.flatMap_append
        (pairwise_of_forall_mem_list fun k hk l hl p hp q hq => ?_)).symm
      exact (happart q (mem_append_left _ (mem_flatMap.2 ⟨l, hl, hq⟩)) p
        (mem_flatMap.2 ⟨k, hk, hp⟩)).symm
    · refine ⟨forall_mem_cons.2 ⟨hgs.1, hliteral⟩, fun pass happart => ?_⟩
      rw [groupSteps, groupSteps, flatMap_cons, flatMap_cons, append_assoc]
      exact .append_left _ (hsteps pass fun p hp => happart p (mem_append_right _ hp))

variable {body : List Stmt} {name : String}

/-- Loops are grouped and follow the other statements. -/
lemma groupLoops_reordered (hbody : ∀ s ∈ body, ∃ x e, Nest x e s)
    (hgs : ∀ g ∈ gs, ∃ j c d ss, g = .literal j c d ss) :
    ∃ gs', groupLoops body gs = .ok gs' ∧ (∀ g ∈ gs', ∃ j c d ss, g = .literal j c d ss) ∧
    ∀ pass, (body.Pairwise fun s t => Apart (s.steps pass []) (t.steps pass [])) →
      (∀ s ∈ body, Apart (groupSteps pass gs) (s.steps pass [])) →
      Reordered (groupSteps pass gs ++ Stmt.stepsAll pass [] body)
        (Stmt.stepsAll pass [] (body.filter fun s => !s.isLoop) ++ groupSteps pass gs') := by
  induction body generalizing gs with
  | nil => exact ⟨gs, rfl, hgs, fun pass _ _ => (append_nil (groupSteps pass gs)).symm ▸ .refl _⟩
  | cons s body ih =>
    rw [forall_mem_cons] at hbody
    obtain ⟨⟨x, e, hs⟩, hbody⟩ := hbody
    cases hs with
    | add hx =>
      obtain ⟨gs', hgroups, hliteral, hsteps⟩ := ih hbody hgs
      refine ⟨gs', hgroups, hliteral, fun pass hpairs happart => ?_⟩
      rw [forall_mem_cons] at happart
      rw [Stmt.stepsAll, ← append_assoc]
      refine .trans ((Reordered.append_comm happart.1).append_right _) ?_
      rw [append_assoc]
      exact .append_left _ (hsteps pass (pairwise_cons.1 hpairs).2 happart.2)
    | @loop i a b s hs =>
      obtain ⟨hadded, hjoined⟩ := addToGroup_reordered (s := s) (i := i) (a := a) (b := b) hgs
      obtain ⟨gs', hgroups, hliteral, hsteps⟩ := ih hbody hadded
      refine ⟨gs', hgroups, hliteral, fun pass hpairs happart => ?_⟩
      rw [forall_mem_cons] at happart
      obtain ⟨hfirst, hpairs⟩ := pairwise_cons.1 hpairs
      have hjoined := hjoined pass happart.1
      rw [Stmt.stepsAll, ← append_assoc]
      refine .trans (hjoined.append_right _) (hsteps pass hpairs fun t ht p hp => ?_)
      rcases mem_append.1 (hjoined.perm.mem_iff.2 hp) with hp | hp
      · exact happart.2 t ht p hp
      · exact hfirst t ht p hp

lemma loopsLast_reordered (hbody : ∀ s ∈ body, ∃ x e, Nest x e s)
    (hpairs : body.Pairwise Separate) :
    ∃ body', loopsLast body = .ok body' ∧ (∀ s ∈ body', s.isSingle = true) ∧
      ∀ pass, Reordered (Stmt.stepsAll pass [] body) (Stmt.stepsAll pass [] body') := by
  obtain ⟨gs, hgroups, hliteral, hsteps⟩ := groupLoops_reordered hbody (forall_mem_nil _)
  have hloops : gs.mapM (fun g => Stmt.ofLoop g.index (.expr g.lower) (.expr g.upper)
      (g.bodies.map fun b => .stmt (.list b))) = .ok (gs.map LoopGroup.loop) := by
    rw [mapM_eq_ok, forall₂_map_right_iff, forall₂_same]
    intro g hg
    obtain ⟨i, a, b, ss, rfl⟩ := hliteral g hg
    exact ofLoop_literal i a b ss
  refine ⟨_, bind_eq_ok.2 ⟨gs, hgroups, bind_eq_ok.2 ⟨_, hloops, rfl⟩⟩, fun s hs => ?_,
    fun pass => ?_⟩
  · rcases mem_append.1 hs with hs | hs
    · obtain ⟨x, e, hs⟩ := hbody s (mem_of_mem_filter hs)
      cases hs <;> rfl
    · obtain ⟨g, -, rfl⟩ := mem_map.1 hs
      rfl
  · have happart : body.Pairwise fun s t => Apart (s.steps pass []) (t.steps pass []) :=
      hpairs.imp_of_mem fun hs ht h =>
        let ⟨_, _, hs⟩ := hbody _ hs
        let ⟨_, _, ht⟩ := hbody _ ht
        hs.apart ht h
    rw [Stmt.stepsAll_eq_flatMap pass [] (_ ++ _), flatMap_append, ← Stmt.stepsAll_eq_flatMap,
      flatMap_map]
    exact hsteps pass happart fun _ _ p hp => absurd hp not_mem_nil

/-! ## Sections -/

/-- A section that declares variables with the value zero and has a nest for each that is added to.
    No nest reads the variable of another one. -/
structure Stmt.IsSum (s : Stmt) : Prop where
  part : ∃ name, s.isNamed name = true
  zero : ∀ d ∈ s.declarations, ∃ tag x, d = .variableDecl tag x (some (.float 0.0))
  nests : ∀ t ∈ s.body, ∃ x e, Nest x e t ∧ x ∈ s.declares
  separate : s.body.Pairwise Separate

lemma passed_of_isPlain {tag : Tag} {input output : List Symbol} {annotations : List Annotation}
    (h : ∀ p ∈ declarations.map Stmt.declaring ++ Stmt.stepsAll pass [] body, p.isPlain = true) :
    (Stmt.part tag name body declarations input output annotations).passed pass =
      declarations.map Stmt.declaring ++ Stmt.stepsAll pass [] body :=
  if_pos (all_eq_true.2 h)

/-- Every step of a section of sums declares a variable or is a step of a nest. -/
lemma Stmt.IsSum.cases (h : s.IsSum)
    (hp : p ∈ s.declarations.map Stmt.declaring ++ Stmt.stepsAll pass [] s.body) :
    (∃ x ∈ s.declares, p = .declare x (.float 0.0)) ∨
      ∃ t ∈ s.body, ∃ x ∈ s.declares, ∃ loops e, Nest x e t ∧ p = .add x loops e := by
  obtain ⟨name, hname⟩ := h.part
  rcases mem_append.1 hp with hp | hp
  · obtain ⟨d, hd, rfl⟩ := mem_map.1 hp
    obtain ⟨tag, x, rfl⟩ := h.zero d hd
    refine .inl ⟨x.name, ?_, rfl⟩
    rw [declares_of_isNamed hname, declaresAll_eq_flatMap]
    exact mem_flatMap.2 ⟨_, hd, mem_singleton.2 rfl⟩
  · rw [stepsAll_eq_flatMap] at hp
    obtain ⟨t, ht, hp⟩ := mem_flatMap.1 hp
    obtain ⟨x, e, hnest, hx⟩ := h.nests t ht
    obtain ⟨loops, rfl⟩ := hnest.eq_of_mem_steps hp
    exact .inr ⟨t, ht, x, hx, loops, e, hnest, rfl⟩

lemma Stmt.IsSum.passed_eq (h : s.IsSum) (pass : Int → Int → List Int) :
    s.passed pass = s.declarations.map Stmt.declaring ++ Stmt.stepsAll pass [] s.body := by
  have hplain : ∀ p ∈ s.declarations.map Stmt.declaring ++ Stmt.stepsAll pass [] s.body,
      p.isPlain = true := by
    intro p hp
    rcases h.cases hp with ⟨x, -, rfl⟩ | ⟨t, -, x, -, loops, e, -, rfl⟩ <;> rfl
  obtain ⟨name, hname⟩ := h.part
  cases s with
  | part => exact passed_of_isPlain hplain
  | _ => simp [Stmt.isNamed] at hname

/-- Sections of which no step of one depends on a step of the other. -/
def Stmt.Foreign (s t : Stmt) : Prop := ∀ pass, Apart (s.passed pass) (t.passed pass)

lemma Stmt.Foreign.symm (h : s.Foreign t) : t.Foreign s := fun pass => (h pass).symm

lemma Nest.names_subset (h : Nest x e s) : e.names ⊆ s.uses.map (·.1) := by
  induction h with
  | add => simp [Stmt.uses, Expr.uses, Expr.names]
  | loop i a b _ ih =>
    intro y hy
    simpa [Stmt.uses, Stmt.usesAll, Expr.uses] using .inr (by simpa using ih hy)

/-- A section of sums sets no names but those of its variables. -/
lemma Stmt.IsSum.sets_names (h : s.IsSum) (hp : p ∈ s.passed pass) : p.sets ⊆ s.declares ∧
    p.names ⊆ s.names := by
  have hdeclares : s.declares ⊆ s.names := by simp [Stmt.names, scopes, declaresAll]
  rw [h.passed_eq] at hp
  rcases h.cases hp with ⟨x, hx, rfl⟩ | ⟨t, ht, x, hx, loops, e, hnest, rfl⟩
  · exact ⟨by
      simpa [Step.sets] using hx, by simpa [Step.names, Expr.names, Expr.uses] using hdeclares hx⟩
  · refine ⟨by simpa [Step.sets] using hx, cons_subset.2 ⟨hdeclares hx, fun y hy => ?_⟩⟩
    obtain ⟨u, hu, rfl⟩ := mem_map.1 (hnest.names_subset hy)
    obtain ⟨name, hname⟩ := h.part
    cases s with
    | part => exact mem_append_left _ (mem_map_of_mem
        (mem_append_right _ (Stmt.mem_usesAll.2 ⟨t, ht, hu⟩)))
    | _ => simp [Stmt.isNamed] at hname

lemma foreign_of_names {ys : List String}
    (hs : ∀ {pass p}, p ∈ s.passed pass → p.sets ⊆ xs ∧ p.names ⊆ s.names)
    (ht : ∀ {pass p}, p ∈ t.passed pass → p.sets ⊆ ys ∧ p.names ⊆ t.names)
    (h : (∀ x ∈ xs, x ∉ t.names) ∧ ∀ y ∈ ys, y ∉ s.names) : s.Foreign t := fun _ _ hp _ hq =>
  ⟨fun x hx hx' => h.1 x ((hs hp).1 hx) ((ht hq).2 hx'),
    fun y hy hy' => h.2 y ((ht hq).1 hy) ((hs hp).2 hy')⟩

/-- Nests of sections that do not depend on each other are separate. -/
lemma Stmt.Foreign.separate (h : s.Foreign t) (hs : s.IsSum) (ht : t.IsSum) {m n : Stmt}
    (hm : m ∈ s.body) (hn : n ∈ t.body) : Separate m n := by
  intro x e y f hx hy
  obtain ⟨l, hl⟩ := hx.exists_mem_steps []
  obtain ⟨l', hl'⟩ := hy.exists_mem_steps []
  have happart := h once
  rw [hs.passed_eq, ht.passed_eq, stepsAll_eq_flatMap, stepsAll_eq_flatMap] at happart
  exact independent_add.1 (happart _ (mem_append_right _ (mem_flatMap.2 ⟨m, hm, hl⟩)) _
    (mem_append_right _ (mem_flatMap.2 ⟨n, hn, hl'⟩)))

/-- A section of given statements and declarations. -/
lemma ofPart_stmts (hbody : ∀ s ∈ body, s.isSingle = true)
    (hdeclarations : ∀ d ∈ declarations, ∃ tag x, d = .variableDecl tag x (some (.float 0.0)))
    (input output : List Symbol) (annotations : List Annotation) :
    Stmt.ofPart name (body.map .stmt) (declarations.map .stmt) input output annotations =
      .ok (.part 0 name body declarations input (Stmt.withDeclared output declarations)
        annotations) := by
  refine bind_eq_ok.2 ⟨body, ?_, bind_eq_ok.2 ⟨declarations, ?_, rfl⟩⟩
  · rw [mapM_eq_ok, forall₂_map_left_iff, forall₂_same]
    exact fun s hs => toStmt_of_isSingle (hbody s hs)
  · rw [mapM_eq_ok, forall₂_map_left_iff, forall₂_same]
    intro d hd
    obtain ⟨tag, x, rfl⟩ := hdeclarations d hd
    rfl

/-- Sections of sums that do not depend on each other make one section of sums. -/
lemma exists_fused {parts : List Stmt} (hsum : ∀ s ∈ parts, s.IsSum)
    (hforeign : parts.Pairwise Stmt.Foreign)
    (name : String) (input output : List Symbol) (annotations : List Annotation) :
    ∃ fused, Stmt.ofPart name ((parts.flatMap Stmt.body).map .stmt)
    ((parts.flatMap Stmt.declarations).map .stmt)
        input output annotations = .ok fused ∧ fused.IsSum ∧ fused.isNamed name = true ∧
      ∀ pass, Reordered (parts.flatMap (Stmt.passed pass)) (fused.passed pass) := by
  have hzero : ∀ d ∈ parts.flatMap Stmt.declarations, ∃ tag x,
      d = .variableDecl tag x (some (.float 0.0)) :=
    fun d hd => let ⟨s, hs, hd⟩ := mem_flatMap.1 hd
      (hsum s hs).zero d hd
  have hsingle : ∀ t ∈ parts.flatMap Stmt.body, t.isSingle = true := fun t ht => by
    obtain ⟨s, hs, ht⟩ := mem_flatMap.1 ht
    obtain ⟨x, e, hnest, -⟩ := (hsum s hs).nests t ht
    cases hnest <;> rfl
  have hnamed : (Stmt.part 0 name (parts.flatMap Stmt.body) (parts.flatMap Stmt.declarations) input
      (Stmt.withDeclared output (parts.flatMap Stmt.declarations)) annotations).isNamed name =
        true := by
    simp [Stmt.isNamed]
  refine ⟨_, ofPart_stmts hsingle hzero input output annotations, ?_⟩
  have hfused : (Stmt.part 0 name (parts.flatMap Stmt.body) (parts.flatMap Stmt.declarations) input
      (Stmt.withDeclared output (parts.flatMap Stmt.declarations)) annotations).IsSum := by
    refine ⟨⟨name, hnamed⟩, hzero, fun t ht => ?_, ?_⟩
    · obtain ⟨s, hs, ht⟩ := mem_flatMap.1 ht
      obtain ⟨x, e, hnest, hx⟩ := (hsum s hs).nests t ht
      refine ⟨x, e, hnest, ?_⟩
      rw [declares_of_isNamed (hsum s hs).part.choose_spec, Stmt.declaresAll_eq_flatMap] at hx
      rw [Stmt.declares, Stmt.declaresAll_eq_flatMap, flatMap_assoc]
      exact mem_flatMap.2 ⟨s, hs, hx⟩
    · exact pairwise_flatMap.2
        ⟨fun s hs => (hsum s hs).separate, hforeign.imp_of_mem fun hs ht h m hm n hn =>
        h.separate (hsum _ hs) (hsum _ ht) hm hn⟩
  refine ⟨hfused, hnamed, fun pass => ?_⟩
  have hsteps : ∀ s ∈ parts, s.passed pass = s.declarations.map Stmt.declaring ++
      Stmt.stepsAll pass [] s.body :=
    fun s hs => (hsum s hs).passed_eq pass
  rw [hfused.passed_eq, flatMap_congr hsteps]
  simp only [Stmt.declarations, Stmt.body, map_flatMap, Stmt.stepsAll_eq_flatMap, flatMap_assoc]
  -- the nests of a section pass the declarations of those behind it
  refine .flatMap_append (hforeign.imp_of_mem fun {s t} hs ht h p hp q hq => h pass p ?_ q ?_)
  · rw [hsteps s hs, Stmt.stepsAll_eq_flatMap]
    exact mem_append_right _ hp
  · rw [hsteps t ht]
    exact mem_append_left _ hq

lemma fuseLoops_reordered (h : s.IsSum) : ∃ t, fuseLoops s = .ok t ∧
    (∀ name, t.isNamed name = s.isNamed name) ∧ ∀ pass, Reordered (s.passed pass)
    (t.passed pass) := by
  obtain ⟨body', hbody', hsingle, hsteps⟩ :=
    loopsLast_reordered (fun t ht => let ⟨x, e, hnest, _⟩ := h.nests t ht; ⟨x, e, hnest⟩) h.separate
  have hpassed := h.passed_eq
  have hcases := fun pass p => @Stmt.IsSum.cases s pass p h
  obtain ⟨name, hname⟩ := h.part
  cases s with
  | part tag name body declarations input output annotations =>
    refine ⟨_, bind_eq_ok.2 ⟨body', hbody', ofPart_stmts hsingle h.zero input output []⟩,
      fun _ => rfl, fun pass => ?_⟩
    have hreordered := (hsteps pass).append_left (declarations.map Stmt.declaring)
    rw [hpassed, passed_of_isPlain fun p hp => ?_]
    · exact hreordered
    · rcases hcases pass p (hreordered.perm.mem_iff.2 hp) with
        ⟨x, -, rfl⟩ | ⟨t, -, x, -, loops, e, -, rfl⟩ <;> rfl
  | _ => simp [Stmt.isNamed] at hname

/-! ## Code -/

/-- Whether a section is joined with others of its name. -/
def Stmt.isJoined (s : Stmt) : Bool := s.isNamed "Coefficient" || s.isNamed "Jacobian"

/-- Code in which sections of sums are joined.  No section that is joined stands in `before`, and
    none depends on what stands between it and the first. -/
structure Fusible (before rest : List Stmt) : Prop where
  free : ∀ s ∈ before, s.isJoined = false
  sums : ∀ s ∈ before ++ rest, s.isJoined = true ∨ s.annotations.contains .fuse = true → s.IsSum
  foreign : rest.Pairwise fun s t => t.isJoined = true → s.Foreign t

lemma isJoined_of_isNamed (hname : name = "Coefficient" ∨ name = "Jacobian")
    (h : s.isNamed name = true) : s.isJoined = true := by
  rcases hname with rfl | rfl <;> simp [Stmt.isJoined, h]

/-- Sections may be replaced by one to which everything is foreign that is foreign to them all. -/
lemma Fusible.joined {before rest ys : List Stmt} {u fused : Stmt} {p : Stmt → Bool}
    (h : Fusible before rest)
    (hp : ∀ {s}, p s = true → s.isJoined = true) (hdrop : (rest.dropWhile fun s => !p s) = u :: ys)
    (hsum : fused.IsSum) (hfused : ∀ t, (∀ s ∈ rest.filter p, s.Foreign t) → fused.Foreign t) :
    Fusible before (rest.takeWhile (fun s => !p s) ++ fused :: ys.filter fun s => !p s) := by
  obtain ⟨-, hsplit, hfilter, -⟩ := split_of_dropWhile hdrop
  have hold : ∀ s ∈ ys.filter fun s => !p s, s ∈ rest := fun s hs => by
    rw [← hsplit]
    exact mem_append_right _ (mem_cons_of_mem u (mem_of_mem_filter hs))
  have hpairs := h.foreign
  rw [← hsplit, pairwise_append] at hpairs
  obtain ⟨hfront, hback, hacross⟩ := hpairs
  refine ⟨h.free, fun s hs hkind => ?_,
    pairwise_append.2 ⟨hfront, pairwise_cons.2 ⟨fun t ht htj => ?_,
    (pairwise_cons.1 hback).2.sublist filter_sublist⟩, fun s hs t ht htj => ?_⟩⟩
  · rcases mem_append.1 hs with hs | hs
    · exact h.sums s (mem_append_left _ hs) hkind
    · rcases mem_append.1 hs with hs | hs
      · exact h.sums s (mem_append_right _ ((takeWhile_sublist _).subset hs)) hkind
      · rcases mem_cons.1 hs with rfl | hs
        · exact hsum
        · exact h.sums s (mem_append_right _ (hold s hs)) hkind
  · -- another section that is joined may stand before or behind
    let R (s t : Stmt) : Prop := s.isJoined = true → t.isJoined = true → s.Foreign t
    have : Std.Symm R := ⟨fun _ _ h hs ht => (h ht hs).symm⟩
    have hsym : rest.Pairwise R := h.foreign.imp fun {a b} hab _ hb => hab hb
    refine hfused t fun s hs => ?_
    obtain ⟨hs, hps⟩ := mem_filter.1 hs
    refine hsym.forall hs (hold t ht) ?_ (hp hps) htj
    rintro rfl
    simp [hps] at ht
  · rcases mem_cons.1 ht with rfl | ht
    · refine (hfused s fun v hv => ?_).symm
      rw [hfilter] at hv
      exact (hacross s hs v (mem_of_mem_filter hv) (hp (of_mem_filter hv))).symm
    · exact hacross s hs t (mem_cons_of_mem u (mem_of_mem_filter ht)) htj

/-- Joining the sections of one name moves their steps to the first of them, past foreign steps
    only; what has another name stays where it is. -/
lemma fuseSections_reordered (hname : name = "Coefficient" ∨ name = "Jacobian")
    (h : Fusible before rest) :
    ∃ rest', fuseSections (before ++ rest) name = .ok (before ++ rest') ∧ Fusible before rest' ∧
      (rest'.filter fun s => !s.isJoined) = (rest.filter fun s => !s.isJoined) ∧
      ∀ pass, Reordered (rest.flatMap (Stmt.passed pass)) (rest'.flatMap (Stmt.passed pass)) := by
  have hjoined : ∀ {s : Stmt}, s.isNamed name = true → s.isJoined = true :=
    isJoined_of_isNamed hname
  have hbefore : ∀ s ∈ before, (!s.isNamed name) = true := fun s hs => by
    by_contra hnamed
    exact Bool.false_ne_true ((h.free s hs).symm.trans (hjoined (by simpa using hnamed)))
  have hparts : (before ++ rest).filter (·.isNamed name) = rest.filter (Stmt.isNamed name) := by
    rw [filter_append, filter_eq_nil_iff.2 fun s hs => by simpa using hbefore s hs, nil_append]
  set parts := (before ++ rest).filter (·.isNamed name) with hset
  have hmem : ∀ s ∈ parts, s ∈ rest ∧ s.isJoined = true := fun s hs =>
    let ⟨hs, hnamed⟩ := mem_filter.1 (hparts ▸ hs)
    ⟨hs, hjoined hnamed⟩
  have hsum : ∀ s ∈ parts, s.IsSum := fun s hs =>
    h.sums s (mem_append_right _ (hmem s hs).1) (.inl (hmem s hs).2)
  have hforeign : parts.Pairwise Stmt.Foreign :=
    (h.foreign.sublist (hparts ▸ filter_sublist)).imp_of_mem fun _ ht h => h (hmem _ ht).2
  obtain ⟨fused, hfused, hfusedSum, hfusedName, hsteps⟩ := exists_fused hsum hforeign name
    (distinctSymbols (parts.flatMap Stmt.input)) (distinctSymbols (parts.flatMap Stmt.output))
    ((parts.getLast?.map Stmt.annotations).getD [])
  cases hdrop : rest.dropWhile (fun s => !s.isNamed name) with
  | nil => -- no section has the name
    refine ⟨rest, bind_eq_ok.2 ⟨fused, hfused, ?_⟩, h, rfl, fun pass => .refl _⟩
    rw [dropWhile_append_of_pos hbefore, hdrop]
    rfl
  | cons x ys =>
    obtain ⟨hx, hsplit, hfilter, hothers⟩ := split_of_dropWhile hdrop
    refine ⟨rest.takeWhile (fun s => !s.isNamed name) ++
      fused :: ys.filter fun s => !s.isNamed name,
      bind_eq_ok.2 ⟨fused, hfused, ?_⟩, ?_, ?_, fun pass => ?_⟩
    · rw [dropWhile_append_of_pos hbefore, takeWhile_append_of_pos hbefore, hdrop, ← append_assoc]
      rfl
    · refine h.joined hjoined hdrop hfusedSum fun t ht pass p hp q hq => ?_
      obtain ⟨s, hs, hp⟩ := mem_flatMap.1 ((hsteps pass).perm.mem_iff.2 hp)
      exact ht s (hparts ▸ hs) pass p hp q hq
    · conv_rhs => rw [← hsplit]
      have hdropped : (ys.filter fun s => !s.isNamed name).filter (fun s => !s.isJoined) =
          ys.filter fun s => !s.isJoined := by
        rw [filter_filter]
        refine filter_congr fun s _ => ?_
        cases hs : s.isNamed name <;> simp [hs, hjoined]
      rw [filter_append, filter_append, filter_cons_of_neg (by simp [hjoined hfusedName]),
        filter_cons_of_neg (by simp [hjoined hx]), hdropped]
    · -- first all sections of the name come forward as they are, and then they are joined
      conv_lhs => rw [← hsplit, flatMap_append]
      have hlater := h.foreign.sublist (hdrop ▸ dropWhile_sublist fun s : Stmt => !s.isNamed name)
      rw [flatMap_append]
      refine .append_left _ (.trans (.flatMap_filter (Stmt.isNamed name)
        (hlater.imp fun h _ ht => h (hjoined ht) pass)) ?_)
      rw [hothers, flatMap_cons, ← hfilter, ← hparts]
      exact (hsteps pass).append_right _

lemma fuse_reordered (h : s.annotations.contains .fuse = true → s.IsSum) : ∃ t, s.fuse = .ok t ∧
    (∀ name, t.isNamed name = s.isNamed name) ∧ ∀ pass, Reordered (s.passed pass)
    (t.passed pass) := by
  unfold Stmt.fuse
  split
  · next hfuse => exact fuseLoops_reordered (h hfuse)
  · exact ⟨s, rfl, fun _ => rfl, fun pass => .refl _⟩

/-- The fusion of optimisation: sections of coefficients and of Jacobians are joined, and then
    loops. -/
def fusion (code : List Stmt) : Outcome (List Stmt) := do
  let code ← fuseSections code "Coefficient"
  let code ← fuseSections code "Jacobian"
  code.mapM Stmt.fuse

/-- Optimisation hoists from the sections that fusion leaves. -/
lemma optimize_of_fusion {code code' : List Stmt} (h : fusion code = .ok code') :
    optimize code = code'.mapM Stmt.hoisted := by
  obtain ⟨c, hc, d, hd, h⟩ := bind₂_eq_ok.1 h
  have hsections : optimize code = d.mapM optimizeSection := by
    simp only [optimize, hc, hd, bind, Except.bind]
  rw [hsections]
  have hfused := mapM_eq_ok.1 h
  clear * - hfused
  induction hfused with
  | nil => rfl
  | cons hst _ ih =>
    rw [mapM_cons, mapM_cons, ih, optimizeSection_eq_bind, hst]
    rfl

/-- Fusion of sections of sums succeeds.  It keeps all other nodes in order, every declaration and
    every addition with the loops around it, and the sequence of the steps that set a variable.  So
    every variable has the same value as before, however values are added. -/
theorem fusion_keeps_additions (h : Fusible before rest) :
    ∃ code, fusion (before ++ rest) = .ok code ∧
      optimize (before ++ rest) = code.mapM Stmt.hoisted ∧
      ((before ++ rest).filter fun s => !s.isJoined).mapM Stmt.fuse =
        .ok (code.filter fun s => !s.isJoined) ∧
      (code.flatMap (Stmt.passed once)).Perm ((before ++ rest).flatMap (Stmt.passed once)) ∧
      (∀ x, ((code.flatMap (Stmt.passed running)).filter fun p => p.sets.contains x) =
        ((before ++ rest).flatMap (Stmt.passed running)).filter fun p => p.sets.contains x) ∧
      ∀ {V : Type} (M : Machine V) (σ : String → V),
        M.run (code.flatMap (Stmt.passed running)) σ =
          M.run ((before ++ rest).flatMap (Stmt.passed running)) σ := by
  obtain ⟨rest₁, hcode₁, h₁, hothers₁, hsteps₁⟩ := fuseSections_reordered (.inl rfl) h
  obtain ⟨rest₂, hcode₂, h₂, hothers₂, hsteps₂⟩ := fuseSections_reordered (.inr rfl) h₁
  obtain ⟨code, hcode⟩ :=
    exists_forall₂ fun s hs => fuse_reordered fun hfuse => h₂.sums s hs (.inr hfuse)
  have hfusion : fusion (before ++ rest) = .ok code :=
    bind_eq_ok.2 ⟨_, hcode₁, bind_eq_ok.2 ⟨_, hcode₂, mapM_eq_ok.2 (hcode.imp fun _ _ h => h.1)⟩⟩
  have hreordered : ∀ pass,
      Reordered ((before ++ rest).flatMap (Stmt.passed pass))
      (code.flatMap (Stmt.passed pass)) := by
    intro pass
    have hsections : Reordered ((before ++ rest).flatMap (Stmt.passed pass))
        ((before ++ rest₂).flatMap (Stmt.passed pass)) := by
      rw [List.flatMap_append, List.flatMap_append]
      exact .append_left _ (.trans (hsteps₁ pass) (hsteps₂ pass))
    exact .trans hsections (.flatMap (hcode.imp fun _ _ h => h.2.2 pass))
  refine ⟨code, hfusion, optimize_of_fusion hfusion, ?_, (hreordered once).perm.symm,
    fun x => ((hreordered running).filter_sets x).symm,
    fun M σ => (M.run_reordered (hreordered running) σ).symm⟩
  rw [List.filter_append, ← hothers₁, ← hothers₂, ← List.filter_append, mapM_eq_ok]
  refine (List.rel_filter (fun s t hst => ?_) hcode).imp fun _ _ h => h.1
  simp only [Stmt.isJoined, hst.2.1]

def addEntry (x array index : String) : Stmt :=
  .expr (.assign .add (.symbol ⟨x, some .scalar⟩)
    (.access ⟨array, some .scalar⟩ [.symbol ⟨index, some .int⟩]))

def fusedSection (name : String) (xs : List String) (body : List Stmt) : Stmt :=
  .part 0 name body (xs.map fun x => .variableDecl 0 ⟨x, some .scalar⟩ (some (.float 0.0)))
  [] [] [.fuse]

lemma isSum_fusedSection (hbody : ∀ t ∈ body, ∃ x e, Nest x e t ∧ x ∈ xs)
    (hseparate : body.Pairwise Separate) : (fusedSection name xs body).IsSum := by
  refine ⟨⟨name, by simp [fusedSection, Stmt.isNamed]⟩, fun d hd => ?_, fun t ht => ?_, hseparate⟩
  · obtain ⟨x, -, rfl⟩ := mem_map.1 hd
    exact ⟨0, ⟨x, some .scalar⟩, rfl⟩
  · obtain ⟨x, e, hnest, hx⟩ := hbody t ht
    refine ⟨x, e, hnest, ?_⟩
    rw [fusedSection, Stmt.declares, Stmt.declaresAll_eq_flatMap, flatMap_map]
    exact mem_flatMap.2 ⟨x, hx, mem_singleton.2 rfl⟩

/-- Two sections of coefficients with an array and a section of a Jacobian in between. -/
def sampleCode : List Stmt := [
  fusedSection "Coefficient" ["w0"] [.range ⟨"i", some .int⟩ 0 2 [addEntry "w0" "w" "i"]],
  .arrayDecl 0 ⟨"T", some .scalar⟩ [2] none false,
  fusedSection "Jacobian" ["J0", "J1"] [.range ⟨"i", some .int⟩ 0 3 [addEntry "J0" "x" "i"],
    .range ⟨"i", some .int⟩ 0 3 [addEntry "J1" "y" "i"]],
  fusedSection "Coefficient" ["w1"] [.range ⟨"i", some .int⟩ 0 2
    [.range ⟨"j", some .int⟩ 0 2 [addEntry "w1" "w" "j"]]]]

lemma fusible_sampleCode : Fusible [] sampleCode := by
  have hw₀ : (sampleCode[0]).IsSum := isSum_fusedSection
    (forall_mem_singleton.2 ⟨_, _, .loop _ _ _ (.add rfl), by decide⟩) (pairwise_singleton _ _)
  have hw₁ : (sampleCode[3]).IsSum := isSum_fusedSection
    (forall_mem_singleton.2 ⟨_, _, .loop _ _ _ (.loop _ _ _ (.add rfl)), by decide⟩)
    (pairwise_singleton _ _)
  have hJ : (sampleCode[2]).IsSum := by
    refine isSum_fusedSection (forall_mem_cons.2 ⟨⟨_, _, .loop _ _ _ (.add rfl), by decide⟩,
      forall_mem_singleton.2 ⟨_, _, .loop _ _ _ (.add rfl), by decide⟩⟩) (pairwise_pair.2 ?_)
    intro x e y f hx hy
    rcases hx with _ | ⟨_, _, _, ⟨rfl⟩⟩
    rcases hy with _ | ⟨_, _, _, ⟨rfl⟩⟩
    decide
  have hT : ∀ {pass p}, p ∈ (sampleCode[1]).passed pass → p.sets ⊆ ["T"] ∧
      p.names ⊆ (sampleCode[1]).names := by
    intro pass p hp
    cases mem_singleton.1 hp
    decide +kernel
  refine ⟨forall_mem_nil _, ?_, ?_⟩
  · exact forall_mem_cons.2 ⟨fun _ => hw₀, forall_mem_cons.2 ⟨fun h => absurd h (by decide),
      forall_mem_cons.2 ⟨fun _ => hJ, forall_mem_singleton.2 fun _ => hw₁⟩⟩⟩
  · refine .cons ?_ (.cons ?_ (pairwise_pair.2 fun _ => ?_))
    · refine forall_mem_cons.2 ⟨fun h => absurd h (by decide), forall_mem_cons.2
        ⟨fun _ => ?_, forall_mem_singleton.2 fun _ => ?_⟩⟩
      · exact foreign_of_names hw₀.sets_names hJ.sets_names (by decide +kernel)
      · exact foreign_of_names hw₀.sets_names hw₁.sets_names (by decide +kernel)
    · refine forall_mem_cons.2 ⟨fun _ => ?_, forall_mem_singleton.2 fun _ => ?_⟩
      · exact foreign_of_names hT hJ.sets_names (by decide +kernel)
      · exact foreign_of_names hT hw₁.sets_names (by decide +kernel)
    · exact foreign_of_names hJ.sets_names hw₁.sets_names (by decide +kernel)

theorem fusion_keeps_additions_sampleCode :
    ∃ code, fusion sampleCode = .ok code ∧
      (code.flatMap (Stmt.passed once)).Perm (sampleCode.flatMap (Stmt.passed once)) ∧
      ∀ {V : Type} (M : Machine V) (σ : String → V),
        M.run (code.flatMap (Stmt.passed running)) σ =
          M.run (sampleCode.flatMap (Stmt.passed running)) σ :=
  let ⟨code, hcode, _, _, hperm, _, hrun⟩ := fusion_keeps_additions fusible_sampleCode
  ⟨code, hcode, hperm, hrun⟩

/-- The order of additions to one variable in two nests is not kept, and a loop with two statements
    is not accepted. -/
theorem fusion_loses_order :
    (let two :=
      [fusedSection "Coefficient" ["w0"] [.range ⟨"i", some .int⟩ 0 2 [addEntry "w0" "a" "i"],
        .range ⟨"i", some .int⟩ 0 2 [addEntry "w0" "b" "i"]]]
      ∃ code, fusion two = .ok code ∧ (code.flatMap (Stmt.passed running)).map Step.names ≠
        (two.flatMap (Stmt.passed running)).map Step.names) ∧
    ∃ message,
    fusion [fusedSection "Coefficient" ["w0"] [.range ⟨"i", some .int⟩ 0 3 [addEntry "w0" "w" "i"]],
      fusedSection "Other" ["s", "t"]
      [.range ⟨"i", some .int⟩ 0 2 [addEntry "s" "a" "i", addEntry "t" "b" "i"]]] =
        .error message :=
  ⟨⟨_, rfl, by decide +kernel⟩, _, rfl⟩

end FormKernel.Kernel
