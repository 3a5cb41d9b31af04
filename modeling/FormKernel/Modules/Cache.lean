import FormKernel.Modules.Workspace

/-! # Modules kept in a directory

Whoever creates the C file of a module builds it; a second file marks that the module is ready.
Others wait for the mark.  When a build fails its C file is moved away, so that the module can be
built again. -/

namespace FormKernel.Modules

def sourcePath (directory name : String) : String := Path.withSuffix (Path.join directory name) ".c"

def readyPath (directory name : String) : String :=
  Path.withSuffix (sourcePath directory name) ".c.cached"

def failedPath (directory name : String) : String :=
  Path.withSuffix (sourcePath directory name) ".c.failed"

/-- The objects of given names of a module in files. -/
def Toolchain.loadFrom (t : Toolchain) (directory name : String) (names : List String)
    (files : Files) : Outcome (List String) :=
  match t.find files directory name with
  | some path => t.load ((files.lookup path).getD "") names
  | none => .error .moduleMissing

/-- The objects of given names of a module that has been built. -/
def loadModule (t : Toolchain) (directory name : String) (names : List String) :
    Action (List String) := do
  Action.ofOutcome (t.loadFrom directory name names (← get).files)

/-- Looks for the mark of a module a number of times and waits after each look. -/
def awaitReady (path : String) : Nat → Action Bool
  | 0 => return false
  | n + 1 => do
    if (← get).files.has path then return true
    modify fun w => { w with waits := w.waits + 1 }
    awaitReady path n

/-- How often the mark is looked for. -/
def attempts : Json → Outcome Nat
  | .int n => .ok n.toNat
  | .bool b => .ok (if b then 1 else 0)
  | _ => misfit .wrongKind

/-- Reserves a module: creates its C file unless it is there. -/
def reserve (path : String) : Action Bool := do
  let w ← get
  match w.files.create path "" with
  | .ok files =>
    set { w with files }
    return true
  | .error _ => return false

/-- The objects of a module that is kept in a directory, or nothing if the module has been
    reserved and is now to be built. -/
def cachedModule (t : Toolchain) (directory name : String) (names : List String) (timeout : Json) :
    Action (Option (List String)) := do
  Action.ofOutcome ((← get).files.makeDirectory directory)
  let source := sourcePath directory name
  if ← reserve source then return none
  if ← awaitReady (readyPath directory name) (← Action.ofOutcome (attempts timeout)) then
    return some (← loadModule t directory name names)
  throw (.buildTimedOut source)

/-- The files after the C file of a module has been moved away, if it was there. -/
def Files.abandoned (directory name : String) (files : Files) : Files :=
  let source := Path.join directory (name ++ ".c")
  match files.rename source (Path.withSuffix source ".c.failed") with
  | .ok files => files
  | .error _ => files

/-- Moves the C file of a module away if it is there. -/
def abandon (directory name : String) : Action Unit :=
  modify fun w => { w with files := w.files.abandoned directory name }

end FormKernel.Modules
