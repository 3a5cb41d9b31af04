import FormKernel.Proofs.Modules.Calls
import Mathlib.Logic.Function.Basic

/-!
# Calls that share a directory of modules

Any number of calls may ask for one module at the same time.  They share the files of a directory
and nothing else, and between two steps of a call there may be any steps of others.  Whoever creates
the C file holds it until it has marked the module as ready or has moved the C file away; whoever is
told to stop in between holds it for ever.  All else follows from what the two files say about those
who hold the C file.
-/

namespace FormKernel.Modules

section Definitions

variable (t : Toolchain) (directory name : String)

/-- A number of calls and the files that they share. -/
structure System (ι : Type) where
  files : Files
  phase : ι → Phase

variable {ι : Type} [DecidableEq ι]

/-- The system after a step of one of its calls. -/
def System.put (s : System ι) (p : ι) (next : Files × Phase) : System ι :=
  ⟨next.1, Function.update s.phase p next.2⟩

/-- The system after the next step of one of its calls. -/
def System.advance (calls : ι → Call) (s : System ι) (p : ι) : System ι :=
  s.put p (Modules.advance t directory name (calls p) s.files (s.phase p))

/-- A step of one of the calls. -/
inductive Step (calls : ι → Call) : System ι → System ι → Prop
  | intro {s : System ι} {p : ι} {next : Files × Phase}
    (h : Moves t directory name (calls p) (s.files, s.phase p) next) : Step calls s (s.put p next)

/-- A system in which nothing has been done for a module. -/
structure System.Starts (s : System ι) : Prop where
  source : s.files.has (sourcePath directory name) = false
  ready : s.files.has (readyPath directory name) = false
  failed : s.files.isDirectory (failedPath directory name) = false
  phase : ∀ p, s.phase p = .arriving

/-- A system that comes about by steps of its calls. -/
def Reachable (calls : ι → Call) (s : System ι) : Prop :=
  ∃ s₀ : System ι, s₀.Starts directory name ∧
    Relation.ReflTransGen (Step t directory name calls) s₀ s

/-- A toolchain keeps the C file of the module that it builds, does not touch the mark and makes no
    directory where the C file of a failed build goes. -/
structure Toolchain.Respects : Prop where
  source : ∀ (c : Call) (files : Files), files.has (sourcePath directory name) = true →
    (t.build (c.request directory name) files).2.has (sourcePath directory name) = true
  ready : ∀ (c : Call) (files : Files),
    (t.build (c.request directory name) files).2.has (readyPath directory name) =
      files.has (readyPath directory name)
  failed : ∀ (c : Call) (files : Files), files.isDirectory (failedPath directory name) = false →
    (t.build (c.request directory name) files).2.isDirectory (failedPath directory name) = false

end Definitions

/-! ## Steps -/

/-- What a step does to the C file and to the mark, and what becomes of the call. -/
inductive Effect (directory name : String) (files : Files) (phase : Phase) (next : Files × Phase) :
    Prop
  /-- Neither file is created or moved away, and the call holds the C file if it did. -/
  | keeps
    (source : next.1.has (sourcePath directory name) = files.has (sourcePath directory name))
    (ready : next.1.has (readyPath directory name) = files.has (readyPath directory name))
    (holds : next.2.holds = phase.holds) (completed : next.2.hasCompleted = phase.hasCompleted)
    (cached : next.2.usesCache = true →
      phase.usesCache = true ∨ files.has (readyPath directory name) = true)
  /-- The call creates the C file, which was not there. -/
  | reserves (before : phase = .arriving) (after : next.2 = .building)
    (absent : files.has (sourcePath directory name) = false)
    (source : next.1.has (sourcePath directory name) = true)
    (ready : next.1.has (readyPath directory name) = files.has (readyPath directory name))
  /-- The call marks the module, which was not marked. -/
  | completes (before : phase.holds = true) (after : next.2 = .completed)
    (ready : next.1.has (readyPath directory name) = true)
    (source : next.1.has (sourcePath directory name) = files.has (sourcePath directory name))
  /-- The call moves the C file away. -/
  | releases (before : phase.holds = true) {f : Fault} (after : next.2 = .failed f)
    (source : next.1.has (sourcePath directory name) = false)
    (ready : next.1.has (readyPath directory name) = files.has (readyPath directory name))

section Steps

variable {t : Toolchain} {directory name : String} {c : Call} {files : Files} {phase : Phase}
  {next : Files × Phase}

lemma effect_arriving (hname : Path.IsPlain name) :
    Effect directory name files .arriving (advance t directory name c files .arriving) := by
  have hne := readyPath_ne_sourcePath directory hname
  rw [advance]
  split
  · exact .keeps rfl rfl rfl rfl (by simp [Phase.usesCache])
  · cases hsource : files.has (sourcePath directory name) with
    | false =>
      rw [Files.create_of_not_has hsource]
      refine .reserves rfl rfl hsource ?_ ?_
      · rw [Files.has_write, beq_self_eq_true, Bool.true_or]
      · rw [Files.has_write, beq_eq_false_iff_ne.2 hne, Bool.false_or]
    | true =>
      rw [Files.create_of_has hsource]
      dsimp only
      split <;> exact .keeps rfl rfl rfl rfl (by simp [Phase.usesCache])

lemma effect_waiting (looks : Nat) :
    Effect directory name files (.waiting looks)
      (advance t directory name c files (.waiting looks)) := by
  cases looks with
  | zero => exact .keeps rfl rfl rfl rfl (by simp [advance, Phase.usesCache])
  | succ n =>
    rw [advance]
    split
    · next hready => exact .keeps rfl rfl rfl rfl fun _ => .inr hready
    · exact .keeps rfl rfl rfl rfl (by simp [Phase.usesCache])

lemma effect_building (ht : t.Respects directory name)
    (hsource : files.has (sourcePath directory name) = true) :
    Effect directory name files .building (advance t directory name c files .building) := by
  have hsource' := (ht.source c files hsource).trans hsource.symm
  have hready := ht.ready c files
  rw [advance]
  split
  all_goals
    next heq =>
    rw [heq] at hsource' hready
    exact .keeps hsource' hready rfl rfl (by simp [Phase.usesCache])

lemma effect_compiled (hname : Path.IsPlain name) (messages : String) :
    Effect directory name files (.compiled messages)
      (advance t directory name c files (.compiled messages)) := by
  have hne := readyPath_ne_sourcePath directory hname
  cases hready : files.has (readyPath directory name) with
  | false =>
    rw [advance, Files.create_of_not_has hready]
    refine .completes rfl rfl ?_ ?_
    · rw [Files.has_write, beq_self_eq_true, Bool.true_or]
    · rw [Files.has_write, beq_eq_false_iff_ne.2 hne.symm, Bool.false_or]
  | true =>
    rw [advance, Files.create_of_has hready]
    exact .keeps rfl rfl rfl rfl (by simp [Phase.usesCache])

lemma effect_failing (hname : Path.IsPlain name)
    (hroom : files.isDirectory (failedPath directory name) = false)
    (hsource : files.has (sourcePath directory name) = true) (f : Fault) :
    Effect directory name files (.failing f) (advance t directory name c files (.failing f)) := by
  rw [advance]
  split
  · exact .keeps rfl rfl rfl rfl (by simp [Phase.usesCache])
  · obtain ⟨hgone, hready⟩ := has_abandoned hname hroom hsource
    exact .releases rfl rfl hgone hready

lemma effect_of_moves (hname : Path.IsPlain name) (ht : t.Respects directory name)
    (hroom : files.isDirectory (failedPath directory name) = false)
    (hsource : phase.holds = true → files.has (sourcePath directory name) = true)
    (h : Moves t directory name c (files, phase) next) :
    Effect directory name files phase next := by
  cases h with
  | raises _ hphase | stops _ hphase =>
    refine .keeps rfl rfl ?_ ?_ ?_ <;> cases phase <;>
      simp_all [Phase.mayRaise, Phase.isCompiling, Phase.holds, Phase.hasCompleted, Phase.usesCache]
  | advances =>
    cases phase with
    | arriving => exact effect_arriving hname
    | waiting looks => exact effect_waiting looks
    | building => exact effect_building ht (hsource rfl)
    | compiled messages => exact effect_compiled hname messages
    | failing f => exact effect_failing hname hroom (hsource rfl) f
    | found | completed =>
      rw [advance]
      split
      all_goals exact .keeps rfl rfl rfl rfl (by simp [Phase.usesCache])
    | served _ | loaded _ | unloaded _ | failed _ | stopped =>
      exact .keeps rfl rfl rfl rfl (by simp [advance, Phase.usesCache])

lemma isDirectory_create (hname : Path.IsPlain name) {path text suffix : String} {created : Files}
    (hsuffix : '/' ∉ suffix.toList) (hpath : path = Path.fileIn directory (name ++ suffix))
    (hroom : files.isDirectory (failedPath directory name) = false)
    (h : files.create path text = .ok created) :
    created.isDirectory (failedPath directory name) = false := by
  subst hpath
  rw [failedPath_eq directory hname] at hroom ⊢
  unfold Files.create at h
  split at h
  · cases h
  · cases h
    exact Files.isDirectory_write (Path.isPart_append hname hsuffix)
      (Path.isPart_append hname (by decide)) text hroom

/-- No step makes a directory where the C file of a failed build goes. -/
lemma Moves.room (hname : Path.IsPlain name) (ht : t.Respects directory name)
    (hroom : files.isDirectory (failedPath directory name) = false)
    (h : Moves t directory name c (files, phase) next) :
    next.1.isDirectory (failedPath directory name) = false := by
  cases h with
  | raises | stops => exact hroom
  | advances =>
    cases phase with
    | arriving =>
      rw [advance]
      split
      · exact hroom
      · split
        · next h =>
          exact isDirectory_create hname (by decide) (sourcePath_eq directory hname) hroom h
        · split <;> exact hroom
    | waiting looks => cases looks <;> exact hroom
    | building =>
      have hbuild := ht.failed c files hroom
      rw [advance]
      split <;> simp_all
    | compiled messages =>
      rw [advance]
      split
      · next h => exact isDirectory_create hname (by decide) (readyPath_eq directory hname) hroom h
      · exact hroom
    | failing f =>
      rw [advance]
      split
      · exact hroom
      · exact isDirectory_abandoned hname hroom
    | found | completed =>
      rw [advance]
      split <;> exact hroom
    | served _ | loaded _ | unloaded _ | failed _ | stopped => exact hroom

/-- Whoever was stopped does nothing any more. -/
lemma Moves.stopped (h : Moves t directory name c (files, .stopped) next) : next.2 = .stopped := by
  cases h with
  | advances => rfl
  | raises _ h | stops _ h => cases h

end Steps

/-! ## Systems of calls -/

section Systems

variable {ι : Type} {t : Toolchain} {directory name : String} {calls : ι → Call} {s s' : System ι}

/-- What the files say about the calls: the C file is there while somebody holds it or the module is
    marked, nobody holds the C file of a marked module, and a mark was made by a call that has built
    the module. -/
structure Safe (directory name : String) (s : System ι) : Prop where
  single : ∀ p q, (s.phase p).holds = true → (s.phase q).holds = true → p = q
  source : s.files.has (sourcePath directory name) = true ↔
    (∃ p, (s.phase p).holds = true) ∨ s.files.has (readyPath directory name) = true
  unmarked : ∀ p, (s.phase p).holds = true → s.files.has (readyPath directory name) = false
  marked : s.files.has (readyPath directory name) = true ↔ ∃ p, (s.phase p).hasCompleted = true
  cached : ∀ p, (s.phase p).usesCache = true → ∃ q, (s.phase q).hasCompleted = true
  room : s.files.isDirectory (failedPath directory name) = false

lemma System.Starts.safe (h : s.Starts directory name) : Safe directory name s where
  single p _ hp := by simp [h.phase p, Phase.holds] at hp
  source := by simp [h.source, h.ready, h.phase, Phase.holds]
  unmarked p hp := by simp [h.phase p, Phase.holds] at hp
  marked := by simp [h.ready, h.phase, Phase.hasCompleted]
  cached p hp := by simp [h.phase p, Phase.usesCache] at hp
  room := h.failed

/-- The C file is there exactly while somebody owns the module or has marked it. -/
lemma Safe.has_source_iff (hs : Safe directory name s) :
    s.files.has (sourcePath directory name) = true ↔
      ∃ p, (s.phase p).holds = true ∨ (s.phase p).hasCompleted = true := by
  rw [hs.source, hs.marked, exists_or]

/-- The C file of a call that was stopped is there without a mark, and nobody builds the module or
    takes it from the directory. -/
lemma Safe.of_stopped (hs : Safe directory name s) {p : ι} (hp : s.phase p = .stopped) :
    s.files.has (sourcePath directory name) = true ∧
      s.files.has (readyPath directory name) = false ∧
      ∀ q, (s.phase q).isCompiling = false ∧ (s.phase q).hasCompleted = false ∧
        (s.phase q).usesCache = false := by
  have hholds : (s.phase p).holds = true := by rw [hp]; rfl
  have hready := hs.unmarked p hholds
  have hdone : ∀ q, (s.phase q).hasCompleted = false := fun q =>
    Bool.eq_false_iff.2 fun hq => by simp [hs.marked.2 ⟨q, hq⟩] at hready
  refine ⟨hs.source.2 (.inl ⟨p, hholds⟩), hready, fun q => ⟨?_, hdone q, ?_⟩⟩
  · refine Bool.eq_false_iff.2 fun hq => ?_
    rw [hs.single q p (Phase.holds_of_isCompiling hq) hholds, hp] at hq
    cases hq
  · refine Bool.eq_false_iff.2 fun hq => ?_
    obtain ⟨r, hr⟩ := hs.cached q hq
    simp [hdone r] at hr

variable [DecidableEq ι]

lemma System.phase_put (s : System ι) (p : ι) (next : Files × Phase) (q : ι) :
    (s.put p next).phase q = if q = p then next.2 else s.phase q :=
  Function.update_apply ..

variable {next : Files × Phase} {p : ι}

/-- A property of phases that a step of one call does not change. -/
lemma System.eq_of_put {α : Type} {f : Phase → α} (h : f next.2 = f (s.phase p)) (q : ι) :
    f ((s.put p next).phase q) = f (s.phase q) := by
  rw [System.phase_put]
  split
  · next hq => rw [h, hq]
  · rfl

/-- When the only holder lets go of the C file there is none left. -/
lemma Safe.no_holder (hs : Safe directory name s) (hbefore : (s.phase p).holds = true)
    (hafter : next.2.holds = false) (q : ι) : ((s.put p next).phase q).holds = false := by
  rw [System.phase_put]
  split
  · exact hafter
  · next hq => exact Bool.eq_false_iff.2 fun hholds => hq (hs.single q p hholds hbefore)

lemma Safe.of_keeps (hs : Safe directory name s)
    (hsource : next.1.has (sourcePath directory name) = s.files.has (sourcePath directory name))
    (hready : next.1.has (readyPath directory name) = s.files.has (readyPath directory name))
    (hholds : next.2.holds = (s.phase p).holds)
    (hcompleted : next.2.hasCompleted = (s.phase p).hasCompleted)
    (hcached : next.2.usesCache = true →
      (s.phase p).usesCache = true ∨ s.files.has (readyPath directory name) = true)
    (hroom : next.1.isDirectory (failedPath directory name) = false) :
    Safe directory name (s.put p next) := by
  have hfiles : (s.put p next).files = next.1 := rfl
  have hholds := System.eq_of_put hholds
  have hdone := System.eq_of_put hcompleted
  refine ⟨?_, ?_, ?_, ?_, fun q hq => ?_, hroom⟩
  · simpa only [hholds] using hs.single
  · simpa only [hholds, hfiles, hsource, hready] using hs.source
  · simpa only [hholds, hfiles, hready] using hs.unmarked
  · simpa only [hdone, hfiles, hready] using hs.marked
  · have hserved : (s.phase q).usesCache = true ∨
        s.files.has (readyPath directory name) = true := by
      rw [System.phase_put] at hq
      split at hq
      · next heq => exact heq ▸ hcached hq
      · exact .inl hq
    simpa only [hdone] using hserved.elim (hs.cached q) hs.marked.1

lemma Safe.of_reserves (hs : Safe directory name s) (hbefore : s.phase p = .arriving)
    (hafter : next.2 = .building) (habsent : s.files.has (sourcePath directory name) = false)
    (hsource : next.1.has (sourcePath directory name) = true)
    (hready : next.1.has (readyPath directory name) = s.files.has (readyPath directory name))
    (hroom : next.1.isDirectory (failedPath directory name) = false) :
    Safe directory name (s.put p next) := by
  have hfiles : (s.put p next).files = next.1 := rfl
  -- without the C file nobody held it, and the module was not marked
  obtain ⟨hnone, hunmarked⟩ := not_or.1 (hs.source.not.1 (by simp [habsent]))
  have honly : ∀ q, ((s.put p next).phase q).holds = true → q = p := by
    intro q hq
    rw [System.phase_put] at hq
    split at hq
    · assumption
    · exact absurd ⟨q, hq⟩ hnone
  have hdone : ∀ q, ((s.put p next).phase q).hasCompleted = (s.phase q).hasCompleted :=
    System.eq_of_put (by rw [hbefore, hafter]; rfl)
  have hserved : ∀ q, ((s.put p next).phase q).usesCache = (s.phase q).usesCache :=
    System.eq_of_put (by rw [hbefore, hafter]; rfl)
  refine ⟨fun q r hq hr => (honly q hq).trans (honly r hr).symm, ?_, fun _ _ => ?_, ?_, ?_, hroom⟩
  · refine ⟨fun _ => .inl ⟨p, ?_⟩, fun _ => hsource⟩
    rw [System.phase_put, if_pos rfl, hafter]
    rfl
  · rw [hfiles, hready]
    simpa using hunmarked
  · simpa only [hdone, hfiles, hready] using hs.marked
  · simpa only [hdone, hserved] using hs.cached

lemma Safe.of_completes (hs : Safe directory name s) (hbefore : (s.phase p).holds = true)
    (hafter : next.2 = .completed) (hready : next.1.has (readyPath directory name) = true)
    (hsource : next.1.has (sourcePath directory name) = s.files.has (sourcePath directory name))
    (hroom : next.1.isDirectory (failedPath directory name) = false) :
    Safe directory name (s.put p next) := by
  have hnone := hs.no_holder hbefore (by rw [hafter]; rfl)
  have hdone : ((s.put p next).phase p).hasCompleted = true := by
    rw [System.phase_put, if_pos rfl, hafter]
    rfl
  refine ⟨fun q _ hq => ?_, ?_, fun q hq => ?_, ?_, fun _ _ => ⟨p, hdone⟩, hroom⟩
  · simp [hnone q] at hq
  · exact ⟨fun _ => .inr hready, fun _ => hsource.trans (hs.source.2 (.inl ⟨p, hbefore⟩))⟩
  · simp [hnone q] at hq
  · exact ⟨fun _ => ⟨p, hdone⟩, fun _ => hready⟩

lemma Safe.of_releases (hs : Safe directory name s) (hbefore : (s.phase p).holds = true) {f : Fault}
    (hafter : next.2 = .failed f) (hsource : next.1.has (sourcePath directory name) = false)
    (hready : next.1.has (readyPath directory name) = s.files.has (readyPath directory name))
    (hroom : next.1.isDirectory (failedPath directory name) = false) :
    Safe directory name (s.put p next) := by
  have hfiles : (s.put p next).files = next.1 := rfl
  have hnone := hs.no_holder hbefore (by rw [hafter]; rfl)
  have hunmarked : (s.put p next).files.has (readyPath directory name) = false :=
    hready.trans (hs.unmarked p hbefore)
  have hdone : ∀ q, ((s.put p next).phase q).hasCompleted = (s.phase q).hasCompleted :=
    System.eq_of_put (by rw [hafter, Phase.hasCompleted_of_holds hbefore]; rfl)
  have hserved : ∀ q, ((s.put p next).phase q).usesCache = (s.phase q).usesCache :=
    System.eq_of_put (by rw [hafter, Phase.usesCache_of_holds hbefore]; rfl)
  refine ⟨fun q _ hq => ?_, ?_, fun _ _ => hunmarked, ?_, ?_, hroom⟩
  · simp [hnone q] at hq
  · simp [hfiles, hsource, hready, hs.unmarked p hbefore, hnone]
  · simpa only [hdone, hfiles, hready] using hs.marked
  · simpa only [hdone, hserved] using hs.cached

/-- A step keeps what the files say. -/
lemma Safe.step (hname : Path.IsPlain name) (ht : t.Respects directory name)
    (hs : Safe directory name s) (h : Step t directory name calls s s') :
    Safe directory name s' := by
  cases h with
  | @intro p next hmoves =>
  have hroom := hmoves.room hname ht hs.room
  cases effect_of_moves hname ht hs.room (fun hp => hs.source.2 (.inl ⟨p, hp⟩)) hmoves with
  | keeps source ready holds completed cached =>
    exact hs.of_keeps source ready holds completed cached hroom
  | reserves before after absent source ready =>
    exact hs.of_reserves before after absent source ready hroom
  | completes before after ready source => exact hs.of_completes before after ready source hroom
  | releases before after source ready => exact hs.of_releases before after source ready hroom

lemma safe_of_reachable (hname : Path.IsPlain name) (ht : t.Respects directory name)
    (h : Reachable t directory name calls s) : Safe directory name s := by
  obtain ⟨s₀, hstarts, hsteps⟩ := h
  induction hsteps with
  | refl => exact hstarts.safe
  | tail _ hstep ih => exact ih.step hname ht hstep

/-- An owner that has built the module finds no mark and marks it. -/
lemma Safe.advance_compiled (hs : Safe directory name s) {messages : String}
    (hp : s.phase p = .compiled messages) : s.files.has (readyPath directory name) = false ∧
      (s.advance t directory name calls p).phase p = .completed := by
  have hready := hs.unmarked p (by rw [hp]; rfl)
  refine ⟨hready, ?_⟩
  rw [System.advance, System.phase_put, if_pos rfl, hp, Modules.advance,
    Files.create_of_not_has hready]

/-- Whoever fails at a build moves the C file away, and then nobody holds it. -/
lemma Safe.advance_failing (hname : Path.IsPlain name) (hs : Safe directory name s) {f : Fault}
    (hp : s.phase p = .failing f) (hf : f ≠ .interrupted) :
    (s.advance t directory name calls p).phase p = .failed f ∧
      (s.advance t directory name calls p).files.has (sourcePath directory name) = false ∧
      ∀ q, ((s.advance t directory name calls p).phase q).holds = false := by
  have hholds : (s.phase p).holds = true := by rw [hp]; rfl
  have hnext : Modules.advance t directory name (calls p) s.files (s.phase p) =
      (s.files.abandoned directory name, .failed f) := by rw [hp, Modules.advance, if_neg hf]
  rw [System.advance, hnext]
  refine ⟨by rw [System.phase_put, if_pos rfl], ?_, hs.no_holder hholds rfl⟩
  exact (has_abandoned hname hs.room (hs.source.2 (.inl ⟨p, hholds⟩))).1

lemma stopped_of_steps (hp : s.phase p = .stopped)
    (h : Relation.ReflTransGen (Step t directory name calls) s s') : s'.phase p = .stopped := by
  induction h with
  | refl => exact hp
  | @tail s₁ s₂ _ hstep ih =>
    cases hstep with
    | @intro q next hmoves =>
    rw [System.phase_put]
    split
    · next heq =>
      rw [← heq, ih] at hmoves
      exact hmoves.stopped
    · exact ih

/-- A call that arrives becomes the owner exactly if there is none and nobody has marked the
    module. -/
lemma Safe.advance_arriving (hs : Safe directory name s) {q : ι} (hq : s.phase q = .arriving)
    (hdir : s.files.makeDirectory directory = .ok ()) :
    (s.advance t directory name calls q).phase q = .building ↔
      ∀ p, (s.phase p).holds = false ∧ (s.phase p).hasCompleted = false := by
  rw [System.advance, System.phase_put, if_pos rfl, hq, Modules.advance, hdir]
  cases hsource : s.files.has (sourcePath directory name) with
  | false =>
    have := hs.has_source_iff
    rw [Files.create_of_not_has hsource]
    simp_all
  | true =>
    have := hs.has_source_iff.1 hsource
    rw [Files.create_of_has hsource]
    cases attempts (calls q).timeout <;> · simp; grind

lemma Reachable.steps (h : Reachable t directory name calls s)
    (hsteps : Relation.ReflTransGen (Step t directory name calls) s s') :
    Reachable t directory name calls s' := by
  obtain ⟨s₀, hstarts, h⟩ := h
  exact ⟨s₀, hstarts, h.trans hsteps⟩

lemma Reachable.advance (h : Reachable t directory name calls s) (p : ι) :
    Reachable t directory name calls (s.advance t directory name calls p) :=
  h.steps (.single (.intro (.advances ..)))

end Systems

/-- The dry toolchain writes the C file and the file of the module. -/
lemma respects_dryToolchain (directory : String) {name : String} (hname : Path.IsPlain name)
    (fails : Bool) : (dryToolchain fails).Respects directory name where
  source c files _ := by
    cases fails <;> simp [dryToolchain, Call.request, join_source directory hname, Files.has_write]
  ready c files := by
    have hsource := beq_eq_false_iff_ne.2 (readyPath_ne_sourcePath directory hname)
    have hmodule := fileIn_ne directory hname (s := ".c.cached") (t := ".so")
      (by decide) (by decide) (by decide)
    rw [← readyPath_eq directory hname] at hmodule
    rw [← Path.join_eq_fileIn directory (Path.isPart_append hname (by decide)),
      ← beq_eq_false_iff_ne] at hmodule
    cases fails <;>
      simp [dryToolchain, Call.request, join_source directory hname, Files.has_write, hsource,
      hmodule]
  failed c files h := by
    rw [failedPath_eq directory hname] at h ⊢
    have hfile : ∀ suffix ∈ [".c", ".so", ".c.failed"], Path.IsPart (name ++ suffix) :=
      fun suffix hsuffix => Path.isPart_append hname ((by decide :
        ∀ s ∈ [".c", ".so", ".c.failed"], '/' ∉ s.toList) suffix hsuffix)
    have hfailed := hfile ".c.failed" (by simp)
    have hsource := Files.isDirectory_write (hfile ".c" (by simp)) hfailed "" h
    cases fails with
    | true =>
      simpa [dryToolchain, Call.request, join_source directory hname, sourcePath_eq directory hname]
    | false =>
      have hmodule :=
        fun text => Files.isDirectory_write (hfile ".so" (by simp)) hfailed text hsource
      simpa [dryToolchain, Call.request, join_source directory hname, sourcePath_eq directory hname,
        Path.join_eq_fileIn directory (hfile ".so" (by simp))] using hmodule _

/-- Calls that share a directory do not disturb each other, in whatever order their steps are done
    and whenever a build fails.  At most one of them is between the creation of the C file and its
    completion.  It can create the mark.  Modules are taken from the directory only when somebody
    has completed one.  When a build fails the C file is gone after the next step of the call.  A
    call that is told to stop leaves the C file there, and from then on nobody builds the module or
    takes it from the directory.  A call that arrives builds the module exactly if nobody holds the
    C file or has built the module.  The steps are those that `moduleFor` runs through. -/
theorem shared_module_safe {ι : Type} [DecidableEq ι] {kind : ModuleKind} {platform : Platform}
    {a : BuildArguments} {options : Entries Json} {objects : List Compiler.Source} {t : Toolchain}
    {directory name : String} {calls : ι → Call} {s : System ι}
    (hname : kind.moduleName platform a options objects = .ok name)
    (ht : t.Respects directory name) (hs : Reachable t directory name calls s) :
    (∀ p q, (s.phase p).isCompiling = true → (s.phase q).isCompiling = true → p = q) ∧
    (∀ p messages, s.phase p = .compiled messages →
      s.files.has (readyPath directory name) = false ∧
      (s.advance t directory name calls p).phase p = .completed) ∧
    (∀ p, (s.phase p).usesCache = true → ∃ q, (s.phase q).hasCompleted = true) ∧
    (∀ p f, s.phase p = .failing f → f ≠ .interrupted →
      (s.advance t directory name calls p).phase p = .failed f ∧
      (s.advance t directory name calls p).files.has (sourcePath directory name) = false ∧
      ∀ q, ((s.advance t directory name calls p).phase q).holds = false) ∧
    (∀ p s', s.phase p = .stopped → Relation.ReflTransGen (Step t directory name calls) s s' →
      s'.files.has (sourcePath directory name) = true ∧
      s'.files.has (readyPath directory name) = false ∧
      ∀ q, (s'.phase q).isCompiling = false ∧ (s'.phase q).hasCompleted = false ∧
        (s'.phase q).usesCache = false) ∧
    (∀ q, s.phase q = .arriving → s.files.makeDirectory directory = .ok () →
      ((s.advance t directory name calls q).phase q = .building ↔
        ∀ p, (s.phase p).holds = false ∧ (s.phase p).hasCompleted = false)) ∧
    ∀ (data : Reference.CellData) (w w₁ w' : Workspace) (symbols : List (List (String × String)))
      (r : Outcome Module), a.directory = some directory →
      (Action.readOptions a.options).run w = (.ok options, w₁) →
      objects.zipIdx.mapM (fun (o, i) => kind.objectsOf name o i) = .ok symbols →
      (moduleFor t data platform kind a objects).run w = (r, w') →
      ∃ phase, phase.Returns r ∧
        Relation.ReflTransGen (Moves t directory name (a.call symbols.flatten))
          (w.files, .arriving) (w'.files, phase) := by
  have hplain := isPlain_moduleName hname
  have hsafe : Safe directory name s := safe_of_reachable hplain ht hs
  refine ⟨fun p q hp hq => ?_, fun p messages => hsafe.advance_compiled, hsafe.cached,
    fun p f => hsafe.advance_failing hplain, fun p s' hp hsteps => ?_,
    fun q => hsafe.advance_arriving, fun data w w₁ w' symbols r hdirectory hoptions hsymbols hrun =>
      moduleFor_moves hdirectory hoptions hname hsymbols hrun⟩
  · exact hsafe.single p q (Phase.holds_of_isCompiling hp) (Phase.holds_of_isCompiling hq)
  · exact (safe_of_reachable hplain ht (hs.steps hsteps)).of_stopped (stopped_of_steps hp hsteps)

/-- Of two calls one reserves the module and fails to build it.  Its next step makes room for the
    other. -/
theorem shared_module_safe_failing :
    ∃ (name : String) (calls : Bool → Call) (s : System Bool) (f : Fault),
    ModuleKind.forms.moduleName ⟨some "", some ""⟩ {} []
    [.form ⟨"mass", [], [], [], [], [], none⟩] =
      .ok name ∧
    (dryToolchain true).Respects "cache" name ∧ Reachable (dryToolchain true) "cache" name calls s ∧
    s.phase true = .arriving ∧ s.phase false = .failing f ∧
    s.files.has (sourcePath "cache" name) = true ∧
    (s.advance (dryToolchain true) "cache" name calls false).files.has (sourcePath "cache" name) =
      false := by
  obtain ⟨name, hname⟩ : ∃ name, ModuleKind.forms.moduleName ⟨some "", some ""⟩ {} []
      [.form ⟨"mass", [], [], [], [], [], none⟩] = .ok name := ⟨_, rfl⟩
  have ht := respects_dryToolchain "cache" (isPlain_moduleName hname) true
  let calls : Bool → Call := fun _ => { symbols := [], timeout := .int 10 }
  let s₀ : System Bool := ⟨[], fun _ => .arriving⟩
  have hs₀ : Reachable (dryToolchain true) "cache" name calls s₀ :=
    ⟨s₀, ⟨rfl, rfl, rfl, fun _ => rfl⟩, .refl⟩
  let s₁ := s₀.advance (dryToolchain true) "cache" name calls false
  let s₂ := s₁.advance (dryToolchain true) "cache" name calls false
  have hs₂ : Reachable (dryToolchain true) "cache" name calls s₂ :=
    (hs₀.advance false).advance false
  have hsource : Files.has [] (sourcePath "cache" name) = false := rfl
  have hdirectory : Files.makeDirectory [] "cache" = .ok () := by
    simp [Files.makeDirectory, Files.has]
  have hs₁ : s₁ = s₀.put false (Files.write [] (sourcePath "cache" name) "", .building) := by
    simp only [s₁, s₀, System.advance, advance, hdirectory, Files.create_of_not_has hsource]
  have hs₂' : s₂.phase false = .failing (.misfit .system) ∧
      s₂.files.has (sourcePath "cache" name) = true := by
    simp only [s₂, hs₁]
    simp [System.advance, System.put, advance, dryToolchain, misfit, Call.request, calls,
      join_source "cache" (isPlain_moduleName hname), Files.has_write]
  refine ⟨name, calls, s₂, _, hname, ht, hs₂, rfl, hs₂'.1, hs₂'.2, ?_⟩
  exact ((shared_module_safe hname ht hs₂).2.2.2.1 false _ hs₂'.1 Fault.noConfusion).2.1

/-- The files with a directory where the C file of a failed build goes. -/
def blockedFiles : Files := [("cache/m.c.failed/note", "kept")]

/-- With a directory where the C file of a failed build goes the file cannot be moved away.  The
    first of two calls fails to build the module, and the second one finds the C file without a mark
    and waits in vain. -/
theorem module_left_behind : ∃ s : System Bool,
    Relation.ReflTransGen (Step (dryToolchain true) "cache" "m"
      fun _ => { symbols := [], timeout := .int 1 }) ⟨blockedFiles, fun _ => .arriving⟩ s ∧
    s.phase false = .failed (.misfit .system) ∧ s.files.has (sourcePath "cache" "m") = true ∧
    s.phase true = .failed (.buildTimedOut (sourcePath "cache" "m")) := by
  let calls : Bool → Call := fun _ => { symbols := [], timeout := .int 1 }
  let next := System.advance (dryToolchain true) "cache" "m" calls
  have hstep : ∀ s p, Step (dryToolchain true) "cache" "m" calls s (next s p) :=
    fun s p => .intro (.advances ..)
  have hrun : ∀ (ps : List Bool) (s : System Bool), Relation.ReflTransGen
      (Step (dryToolchain true) "cache" "m" calls) s (ps.foldl next s) := by
    intro ps
    induction ps with
    | nil => exact fun s => .refl
    | cons p ps ih => exact fun s => .head (hstep s p) (ih _)
  refine ⟨_, hrun [false, false, false, true, true, true] _, ?_⟩
  decide +kernel

end FormKernel.Modules
