import FormKernel.Proofs.Modules.Files
import Mathlib.Logic.Relation

/-!
# Calls for a module

A call for a module that is kept in a directory runs in steps: it looks for a file, creates one,
moves one away, has the module built or loads it.  While it is at work on a build it may fail or be
told to stop at any time.  What a step does depends on the files that it finds, so that other calls
may run between any two steps.
-/

namespace FormKernel.Modules

/-! ## Calls -/

/-- What a call for a module loads, how often it looks for the mark and how it builds the module. -/
structure Call where
  symbols : List (String × String)
  timeout : Json
  extraArguments : Json := .null
  libraries : List Json := []
  debug : Json := .null

def Call.request (c : Call) (directory name : String) : BuildRequest where
  directory := directory
  name := name
  objects := c.symbols
  extraArguments := c.extraArguments
  libraries := c.libraries
  debug := c.debug

/-- Where a call stands. -/
inductive Phase where
  /-- Nothing has been done. -/
  | arriving
  /-- The C file was there; the mark will be looked for a number of times. -/
  | waiting (looks : Nat)
  /-- The mark was there. -/
  | found
  /-- The objects were loaded from a module that was there. -/
  | served (objects : List String)
  /-- The C file has been created. -/
  | building
  /-- The toolchain has built the module. -/
  | compiled (messages : String)
  /-- The build has failed, and the C file is still there. -/
  | failing (f : Fault)
  /-- The module has been marked as ready. -/
  | completed
  /-- The objects were loaded from the module that the call has built. -/
  | loaded (objects : List String)
  /-- The objects could not be loaded from the module that the call has built. -/
  | unloaded (f : Fault)
  /-- The call has failed. -/
  | failed (f : Fault)
  /-- The call was told to stop while it was at work on a build, and has left the C file there. -/
  | stopped
  deriving DecidableEq

namespace Phase

/-- Whether a call is at work on a build: it has created the C file and has neither marked the
    module nor moved the file away. -/
def isCompiling : Phase → Bool
  | .building | .compiled _ | .failing _ => true
  | _ => false

/-- Whether the C file is there because of a call: it is at work on the build, or was stopped at
    that. -/
def holds : Phase → Bool
  | .building | .compiled _ | .failing _ | .stopped => true
  | _ => false

/-- Whether a call is within the part of a build whose failures are handled. -/
def mayRaise : Phase → Bool
  | .building | .compiled _ => true
  | _ => false

/-- Whether a call has built the module and marked it. -/
def hasCompleted : Phase → Bool
  | .completed | .loaded _ | .unloaded _ => true
  | _ => false

/-- Whether a call takes the module from the directory. -/
def usesCache : Phase → Bool
  | .found | .served _ => true
  | _ => false

/-- What a call gives back. -/
def Returns : Phase → Outcome Module → Prop
  | .served objects, r => r = .ok { objects }
  | .loaded objects, r =>
    ∃ declarations code, r = .ok { objects, declarations := some declarations, code := some code }
  | .failed f, r | .unloaded f, r => r = .error f
  | .stopped, r => r = .error .interrupted
  | _, _ => False

variable {phase : Phase}

lemma holds_of_isCompiling (h : phase.isCompiling = true) : phase.holds = true := by
  cases phase <;> first | rfl | contradiction

lemma isCompiling_of_holds (h : phase.holds = false) : phase.isCompiling = false := by
  cases phase <;> first | rfl | contradiction

lemma hasCompleted_of_holds (h : phase.holds = true) : phase.hasCompleted = false := by
  cases phase <;> first | rfl | contradiction

lemma usesCache_of_holds (h : phase.holds = true) : phase.usesCache = false := by
  cases phase <;> first | rfl | contradiction

end Phase

section Steps

variable (t : Toolchain) (directory name : String)

/-- The next step of a call. -/
def advance (c : Call) (files : Files) : Phase → Files × Phase
  | .arriving =>
    match files.makeDirectory directory with
    | .error f => (files, .failed f)
    | .ok () =>
      match files.create (sourcePath directory name) "" with
      | .ok files => (files, .building)
      | .error _ =>
        match attempts c.timeout with
        | .ok n => (files, .waiting n)
        | .error f => (files, .failed f)
  | .waiting 0 => (files, .failed (.buildTimedOut (sourcePath directory name)))
  | .waiting (n + 1) => (files, if files.has (readyPath directory name) then .found else .waiting n)
  | .found =>
    match t.loadFrom directory name (c.symbols.map (·.2)) files with
    | .ok objects => (files, .served objects)
    | .error f => (files, .failed f)
  | .building =>
    match t.build (c.request directory name) files with
    | (.ok messages, files) => (files, .compiled messages)
    | (.error f, files) => (files, .failing f)
  | .compiled messages =>
    match files.create (readyPath directory name) messages with
    | .ok files => (files, .completed)
    | .error f => (files, .failing f)
  | .failing f =>
    if f = .interrupted then (files, .stopped) else (files.abandoned directory name, .failed f)
  | .completed =>
    match t.loadFrom directory name (c.symbols.map (·.2)) files with
    | .ok objects => (files, .loaded objects)
    | .error f => (files, .unloaded f)
  | phase => (files, phase)

/-- A step of a call: the next one, or a failure while it is at work on a build, or the end of the
    call when it is told to stop there; nothing is done about the C file then. -/
inductive Moves (c : Call) : Files × Phase → Files × Phase → Prop
  | advances (files : Files) (phase : Phase) :
    Moves c (files, phase) (advance t directory name c files phase)
  | raises (files : Files) {phase : Phase} (h : phase.mayRaise = true) (f : Fault) :
    Moves c (files, phase) (files, .failing f)
  | stops (files : Files) {phase : Phase} (h : phase.isCompiling = true) :
    Moves c (files, phase) (files, .stopped)

end Steps

/-! ## What actions do -/

namespace Action

variable {α β : Type}

@[simp]
lemma run_bind (x : Action α) (f : α → Action β) (w : Workspace) :
    (x >>= f).run w = match x.run w with
      | (.ok a, w) => (f a).run w
      | (.error e, w) => (.error e, w) := by
  have hbind : (x >>= f).run w = ExceptT.bindCont f (x.run w).1 (x.run w).2 := rfl
  rw [hbind]
  rcases x.run w with ⟨_ | _, _⟩ <;> rfl

@[simp]
lemma run_tryCatch (x : Action α) (f : Fault → Action α) (w : Workspace) :
    (tryCatch x f).run w = match x.run w with
      | (.ok a, w) => (.ok a, w)
      | (.error e, w) => (f e).run w := by
  cases hrun : x.run w with
  | mk r w' =>
    have hx : x w = (r, w') := hrun
    cases r <;>
      simp [ExceptT.run, bind, tryCatch, tryCatchThe, MonadExceptOf.tryCatch, ExceptT.tryCatch,
      ExceptT.mk, StateT.bind, hx]
    rfl

variable {f : α → Action β} {r : Outcome β} {w w' : Workspace}

/-- An action that is followed by another has failed, or the other has run after it. -/
lemma run_bind_cases {x : Action α} (h : (x >>= f).run w = (r, w')) :
    (∃ a w₁, x.run w = (.ok a, w₁) ∧ (f a).run w₁ = (r, w')) ∨
      ∃ e, x.run w = (.error e, w') ∧ r = .error e := by
  rw [run_bind] at h
  split at h
  · next a w₁ hx => exact .inl ⟨a, w₁, hx, h⟩
  · next e w₁ hx =>
    cases h
    exact .inr ⟨e, hx, rfl⟩

@[simp]
lemma run_pure (a : α) (w : Workspace) : (pure a : Action α).run w = (.ok a, w) := rfl

@[simp]
lemma run_get (w : Workspace) : (get : Action Workspace).run w = (.ok w, w) := rfl

@[simp]
lemma run_set (w w' : Workspace) : (set w' : Action PUnit).run w = (.ok (), w') := rfl

@[simp]
lemma run_modify (f : Workspace → Workspace) (w : Workspace) :
    (modify f : Action PUnit).run w = (.ok (), f w) := rfl

@[simp]
lemma run_ofOutcome (x : Outcome α) (w : Workspace) : (ofOutcome x).run w = (x, w) := by
  cases x <;> rfl

/-- An outcome that is followed by an action is a failure, or the action has run after it. -/
lemma run_ofOutcome_bind_cases {x : Outcome α} (h : (ofOutcome x >>= f).run w = (r, w')) :
    (∃ a, x = .ok a ∧ (f a).run w = (r, w')) ∨ ∃ e, x = .error e ∧ w' = w ∧ r = .error e := by
  cases x with
  | ok a => exact .inl ⟨a, rfl, h⟩
  | error e =>
    cases h
    exact .inr ⟨e, rfl, rfl, rfl⟩

lemma files_readOptions (given : Json)
    (w : Workspace) : ((readOptions given).run w).2.files = w.files := by
  simp only [readOptions, run_bind, run_get, run_ofOutcome]
  split <;> simp_all

end Action

/-! ## Calls that nobody disturbs -/

section Runs

open Relation (ReflTransGen)

variable {t : Toolchain} {directory name : String} {c : Call} {w w' : Workspace}

/-- The next step of a call, given what it does. -/
lemma Moves.of_advance {files files' : Files} {phase phase' : Phase}
    (h : advance t directory name c files phase = (files', phase')) :
    Moves t directory name c (files, phase) (files', phase') :=
  h ▸ .advances files phase

lemma awaitReady_moves (n : Nat) (w : Workspace) :
    ∃ found w', (awaitReady (readyPath directory name) n).run w = (.ok found, w') ∧
      w'.files = w.files ∧ ReflTransGen (Moves t directory name c) (w.files, .waiting n)
        (w.files, if found then .found else .waiting 0) := by
  induction n generalizing w with
  | zero => exact ⟨false, w, rfl, rfl, .refl⟩
  | succ n ih =>
    cases hready : w.files.has (readyPath directory name) with
    | true =>
      refine ⟨true, w, by simp [awaitReady, hready], rfl, .single (.of_advance ?_)⟩
      simp [advance, hready]
    | false =>
      obtain ⟨found, w', hrun, hfiles, hmoves⟩ := ih { w with waits := w.waits + 1 }
      refine ⟨found, w', by simp [awaitReady, hready, hrun], hfiles, .head (.of_advance ?_) hmoves⟩
      simp [advance, hready]

/-- Where a call stands that has looked for a module. -/
def Phase.ofLookup : Outcome (Option (List String)) → Phase
  | .ok (some objects) => .served objects
  | .ok none => .building
  | .error f => .failed f

/-- Where a call stands that has worked on a build. -/
def Phase.ofBuild {α : Type} : Outcome α → Phase
  | .ok _ => .completed
  | .error f => .failing f

/-- A call that arrives reserves the module, or waits for the call that has. -/
lemma cachedModule_moves {r : Outcome (Option (List String))}
    (h : (cachedModule t directory name (c.symbols.map (·.2)) c.timeout).run w = (r, w')) :
    ReflTransGen (Moves t directory name c) (w.files, .arriving) (w'.files, .ofLookup r) := by
  cases hdir : w.files.makeDirectory directory with
  | error f =>
    simp only [cachedModule, Action.run_bind, Action.run_get, Action.run_ofOutcome, hdir] at h
    cases h
    exact .single (.of_advance (by simp [advance, hdir, Phase.ofLookup]))
  | ok =>
    cases hsource : w.files.has (sourcePath directory name) with
    | false =>
      simp only [cachedModule, reserve, Action.run_bind, Action.run_get, Action.run_ofOutcome, hdir,
        Files.create_of_not_has hsource] at h
      cases h
      refine .single (.of_advance ?_)
      simp [advance, hdir, Files.create_of_not_has hsource, Phase.ofLookup]
    | true =>
      cases hlooks : attempts c.timeout with
      | error f =>
        simp [cachedModule, reserve, hdir, Files.create_of_has hsource, hlooks] at h
        obtain ⟨rfl, rfl⟩ := h
        refine .single (.of_advance ?_)
        simp [advance, hdir, Files.create_of_has hsource, hlooks, Phase.ofLookup]
      | ok n =>
        obtain ⟨found, w₁, hrun, hfiles, hmoves⟩ := @awaitReady_moves t directory name c n w
        have hwait : Moves t directory name c (w.files, .arriving) (w.files, .waiting n) :=
          .of_advance (by simp [advance, hdir, Files.create_of_has hsource, hlooks])
        refine .trans (.head hwait hmoves) (.single (.of_advance ?_))
        cases found with
        | false =>
          simp [cachedModule, reserve, hdir, Files.create_of_has hsource, hlooks, hrun] at h
          obtain ⟨rfl, rfl⟩ := h
          simp [advance, hfiles, Phase.ofLookup]
        | true =>
          cases hload : t.loadFrom directory name (c.symbols.map (·.2)) w.files <;>
          · simp [cachedModule, reserve, hdir, Files.create_of_has hsource, hlooks, hrun,
              loadModule, hfiles, hload] at h
            obtain ⟨rfl, rfl⟩ := h
            simp [advance, hload, hfiles, Phase.ofLookup, Except.map]

lemma runBuild_moves (hname : Path.IsPlain name) {verbose : Bool} {r : Outcome Unit}
    (h : (runBuild t (c.request directory name) verbose).run w = (r, w')) :
    ReflTransGen (Moves t directory name c) (w.files, .building) (w'.files, .ofBuild r) := by
  have hready : Path.withSuffix (Path.join directory (name ++ ".c")) ".c.cached" =
      readyPath directory name := by
    rw [join_source directory hname, readyPath]
  rcases hbuild : t.build (c.request directory name) w.files with ⟨result, files⟩
  have hdirectory : (c.request directory name).directory = directory := rfl
  have hmodule : (c.request directory name).name = name := rfl
  cases result with
  | error f =>
    simp [runBuild, hbuild] at h
    obtain ⟨rfl, rfl⟩ := h
    exact .single (.of_advance (by simp [advance, hbuild, Phase.ofBuild]))
  | ok messages =>
    have hcompiled : Moves t directory name c (w.files, .building) (files, .compiled messages) :=
      .of_advance (by simp [advance, hbuild])
    refine .head hcompiled (.single (.of_advance ?_))
    cases hcreate : files.create (readyPath directory name) messages <;> cases verbose <;>
    · simp [runBuild, hbuild, Action.changeFiles, hdirectory, hmodule, hready, hcreate] at h
      obtain ⟨rfl, rfl⟩ := h
      simp [advance, hcreate, Phase.ofBuild]

def BuildArguments.call (a : BuildArguments) (symbols : List (String × String)) : Call where
  symbols := symbols
  timeout := a.timeout
  extraArguments := a.extraArguments
  libraries := (librariesOf a.libraries).toOption.getD []
  debug := a.debug

variable {data : Reference.CellData} {kind : ModuleKind} {a : BuildArguments}
  {options : Entries Json} {symbols : List (String × String)} {objects : List Compiler.Source}

/-- Work on a build that fails before the toolchain is run leaves the files alone. -/
lemma raises_moves (files : Files) (f : Fault) :
    ReflTransGen (Moves t directory name c) (files, .building) (files, .failing f) :=
  .single (.raises files rfl f)

lemma buildIn_moves (hname : Path.IsPlain name) {r : Outcome (String × String)}
    (h : (buildIn t data kind a options directory name symbols objects).run w = (r, w')) :
    ReflTransGen (Moves t directory name (a.call symbols)) (w.files, .building)
    (w'.files, .ofBuild r) := by
  simp only [buildIn] at h
  obtain ⟨_, -, h⟩ | ⟨f, -, rfl, rfl⟩ := Action.run_ofOutcome_bind_cases h
  · obtain ⟨libraries, hlibraries, h⟩ | ⟨f, -, rfl, rfl⟩ := Action.run_ofOutcome_bind_cases h
    · obtain ⟨code, -, h⟩ | ⟨f, -, rfl, rfl⟩ := Action.run_ofOutcome_bind_cases h
      · rw [Action.run_bind, Action.run_get] at h
        obtain ⟨_, -, h⟩ | ⟨f, -, rfl, rfl⟩ := Action.run_ofOutcome_bind_cases h
        · have hcall : (a.call symbols).libraries = libraries := by
            simp [BuildArguments.call, hlibraries, Except.toOption]
          subst hcall
          obtain ⟨_, w₁, hbuild, h⟩ | ⟨f, hbuild, rfl⟩ := Action.run_bind_cases h
          · cases h
            exact runBuild_moves (c := a.call symbols) hname hbuild
          · exact runBuild_moves (c := a.call symbols) hname hbuild
        · exact raises_moves ..
      · exact raises_moves ..
    · exact raises_moves ..
  · exact raises_moves ..

variable {r : Outcome Module}

lemma buildAndLoad_moves (hname : Path.IsPlain name)
    (h : (buildAndLoad t data kind a options directory name symbols objects).run w = (r, w')) :
    ∃ phase, phase.Returns r ∧
      ReflTransGen (Moves t directory name (a.call symbols)) (w.files, .building)
      (w'.files, phase) := by
  rcases hbuild : (buildIn t data kind a options directory name symbols objects).run w with
    ⟨result, w₁⟩
  have hmoves := buildIn_moves hname hbuild
  cases result with
  | error f =>
    by_cases hf : f = .interrupted
    · simp [buildAndLoad, hbuild, hf] at h
      obtain ⟨rfl, rfl⟩ := h
      refine ⟨.stopped, rfl, .tail hmoves (.of_advance ?_)⟩
      rw [Phase.ofBuild, advance, if_pos hf]
    · simp [buildAndLoad, hbuild, abandon, hf] at h
      obtain ⟨rfl, rfl⟩ := h
      refine ⟨.failed f, rfl, .tail hmoves (.of_advance ?_)⟩
      rw [Phase.ofBuild, advance, if_neg hf]
  | ok text =>
    cases hload : t.loadFrom directory name (symbols.map (·.2)) w₁.files with
    | error f =>
      simp [buildAndLoad, hbuild, loadModule, hload] at h
      obtain ⟨rfl, rfl⟩ := h
      refine ⟨.unloaded f, rfl, .tail hmoves (.of_advance ?_)⟩
      simp [Phase.ofBuild, advance, BuildArguments.call, hload]
    | ok loaded =>
      simp [buildAndLoad, hbuild, loadModule, hload] at h
      obtain ⟨rfl, rfl⟩ := h
      refine ⟨.loaded loaded, ⟨_, _, rfl⟩, .tail hmoves (.of_advance ?_)⟩
      simp [Phase.ofBuild, advance, BuildArguments.call, hload]

/-- A call that nobody disturbs runs through the steps and ends as they say. -/
lemma moduleFor_moves {platform : Platform} {w₁ : Workspace}
    {symbols : List (List (String × String))} (hdirectory : a.directory = some directory)
    (hoptions : (Action.readOptions a.options).run w = (.ok options, w₁))
    (hname : kind.moduleName platform a options objects = .ok name)
    (hsymbols : objects.zipIdx.mapM (fun (o, i) => kind.objectsOf name o i) = .ok symbols)
    (h : (moduleFor t data platform kind a objects).run w = (r, w')) :
    ∃ phase, phase.Returns r ∧
      ReflTransGen (Moves t directory name (a.call symbols.flatten)) (w.files, .arriving)
        (w'.files, phase) := by
  have hfiles : w₁.files = w.files := by
    simpa only [hoptions] using Action.files_readOptions a.options w
  rcases hlookup : (cachedModule t directory name (symbols.flatten.map (·.2)) a.timeout).run w₁
    with ⟨result, w₂⟩
  have hmoves := cachedModule_moves (c := a.call symbols.flatten) hlookup
  rw [hfiles] at hmoves
  match result with
  | .error f =>
    simp [moduleFor, hoptions, hname, hsymbols, hdirectory, hlookup, -List.map_flatten] at h
    obtain ⟨rfl, rfl⟩ := h
    exact ⟨.failed f, rfl, hmoves⟩
  | .ok (some loaded) =>
    simp [moduleFor, hoptions, hname, hsymbols, hdirectory, hlookup, -List.map_flatten] at h
    obtain ⟨rfl, rfl⟩ := h
    exact ⟨.served loaded, rfl, hmoves⟩
  | .ok none =>
    simp [moduleFor, hoptions, hname, hsymbols, hdirectory, hlookup, -List.map_flatten] at h
    obtain ⟨phase, hreturns, hbuild⟩ := buildAndLoad_moves (isPlain_moduleName hname) h
    exact ⟨phase, hreturns, hmoves.trans hbuild⟩

end Runs

end FormKernel.Modules
