import FormKernel.Json.Access
import FormKernel.Json.Writer
import FormKernel.Modules.Files
import FormKernel.Options

/-! # The place where modules are built

A workspace holds the files of a working directory and what else building a module touches: the
options that have been read, who listens to messages, what has been printed and how long has been
waited.  An action may fail; what it did before stays done. -/

namespace FormKernel.Modules

inductive Listener where
  /-- A listener of the surrounding program. -/
  | standing (id : Nat)
  /-- A listener that keeps the messages of a build. -/
  | capture
  deriving DecidableEq

structure BuildRequest where
  directory : String
  name : String
  objects : List (String × String)
  extraArguments : Json := .null
  libraries : List Json := []
  debug : Json := .null

/-- The state that building modules changes. -/
structure Workspace where
  files : Files := []
  /-- The number of temporary directories that have been made. -/
  scratch : Nat := 0
  options : Options.Store := {}
  listeners : List Listener := [.standing 0]
  printed : String := ""
  waits : Nat := 0
  requests : List BuildRequest := []

/-- Something that is done in a workspace. -/
abbrev Action := ExceptT Fault (StateM Workspace)

namespace Action

def ofOutcome {α : Type} : Outcome α → Action α
  | .ok a => pure a
  | .error f => throw f

def changeFiles (f : Files → Outcome Files) : Action Unit := do
  let files ← ofOutcome (f (← get).files)
  modify fun w => { w with files }

/-- The options for those given directly.  Option files are read once. -/
def readOptions (given : Json) : Action (Entries Json) := do
  let w ← get
  let store := match w.options.loaded with
    | some _ => w.options
    | none => { w.options with own := w.files.lookup "ffcx_options.json" }
  let store ← ofOutcome store.load
  set { w with options := store }
  ofOutcome (store.get given)

end Action

/-! ## Toolchains

A toolchain turns source code into a module that can be loaded.  The dry toolchain makes modules
that hold no code but the list of their objects. -/

structure Toolchain where
  /-- Builds a module: the messages of the build or why it failed, and the files after it. -/
  build : BuildRequest → Files → Outcome String × Files
  find : Files → String → String → Option String
  /-- The objects of given names in the text of a module. -/
  load : String → List String → Outcome (List String)

/-- The objects of given names in a list of objects with their types. -/
def loadListed (text : String) (names : List String) : Outcome (List String) := do
  let some list := Json.parse? text | misfit .malformed
  let objects := list.items.map fun o =>
    let type := (o.items.headD .null).toText
    let name := (o.items.getLastD .null).toText
    (name, s!"{type} {name}")
  names.mapM fun name => orMisfit (objects.lookup name) .noMember

/-- The toolchain that lists the objects of a module; it can be told to fail. -/
def dryToolchain (fails : Bool) : Toolchain where
  build r files :=
    let files := files.write (Path.join r.directory (r.name ++ ".c")) ""
    if fails then (misfit .system, files)
    else
      let listed : Json := .list (r.objects.map fun (type, name) => Json.ofTexts [type, name])
      (.ok s!"compiled {r.name}\n",
        files.write (Path.join r.directory (r.name ++ ".so")) listed.render)
  find files directory name :=
    let path := Path.join directory (name ++ ".so")
    if files.has path then some path else none
  load := loadListed

end FormKernel.Modules
