import FormKernel.Compiler.Compile
import FormKernel.Modules.Cache
import FormKernel.Modules.Interface

/-! # Building modules

A module is named after everything that its code depends on: the objects, the options and the way
it is built.  It is looked for in a directory of modules, and built if it is not there. -/

namespace FormKernel.Modules

open Compiler (Source Settings)
open Integral (Drawing)
open Reference (CellData)

inductive ModuleKind where
  | elements | forms | expressions
  deriving DecidableEq

/-- How modules are built on the machine at hand. -/
structure Platform where
  flags : Option String := none
  abi : Option String := none

structure BuildArguments where
  options : Json := .null
  directory : Option String := none
  timeout : Json := .int 10
  extraArguments : Json := .null
  verbose : Bool := false
  debug : Json := .null
  libraries : Json := .null
  drawing : Drawing := .off

/-- A module: its objects, and its declarations and code if it was built. -/
structure Module where
  objects : List String
  declarations : Option String := none
  code : Option String := none

/-- What the way of building adds to the name of a module. -/
def Platform.signature (p : Platform) (extraArguments debug : Json) : Outcome String :=
  match p.flags, p.abi with
  | some flags, some abi => .ok (extraArguments.plain ++ debug.plain ++ flags ++ abi)
  | _, _ => misfit .wrongKind

namespace ModuleKind

def word : ModuleKind → String
  | .elements => "elements"
  | .forms => "forms"
  | .expressions => "expressions"

def moduleName (kind : ModuleKind) (platform : Platform) (a : BuildArguments)
    (options : Entries Json) (objects : List Source) : Outcome String := do
  let way ← platform.signature a.extraArguments a.debug
  let digest ← Compiler.digestAll objects (Compiler.optionText options ++ way)
  return s!"libffcx_{kind.word}_{digest}"

/-- The objects of a module that belong to something that is compiled, with their types. -/
def objectsOf (kind : ModuleKind) (label : String) (o : Source) (id : Nat) :
    Outcome (List (String × String)) :=
  match kind with
  | .elements =>
    match o with
    | .element e => .ok [("ufcx_finite_element", Compiler.elementName label e),
        ("ufcx_dofmap", Compiler.dofmapName label e)]
    | _ => misfit .unmet
  | .forms => do
    let digest ← Compiler.digestAll [o] (Compiler.formTag label id)
    return [("ufcx_form", "form_" ++ digest)]
  | .expressions =>
    match o with
    | .expression e points _ => .ok [("ufcx_expression", Compiler.expressionName label e points)]
    | .other => misfit .unmet
    | _ => misfit .wrongKind

def interface : ModuleKind → String
  | .elements => basicDeclarations ++ elementDeclaration ++ dofmapDeclaration
  | .forms => basicDeclarations ++ elementDeclaration ++ dofmapDeclaration ++
      integralDeclaration ++ formDeclaration
  | .expressions => basicDeclarations ++ elementDeclaration ++ dofmapDeclaration ++
      integralDeclaration ++ formDeclaration ++ expressionDeclaration

end ModuleKind

def librariesOf : Json → Outcome (List Json)
  | .null => .ok [.text "m"]
  | .list more => .ok (.text "m" :: more)
  | _ => misfit .wrongKind

/-- Runs a toolchain with a listener that keeps its messages, marks the module as ready and puts the
    listeners back. -/
def runBuild (t : Toolchain) (request : BuildRequest) (verbose : Bool) : Action Unit := do
  let w ← get
  let listeners := w.listeners
  let (result, files) := t.build request w.files
  set { w with listeners := [.capture], files, requests := w.requests ++ [request] }
  let messages ← Action.ofOutcome result
  if verbose then modify fun w => { w with printed := w.printed ++ messages ++ "\n" }
  let source := Path.join request.directory (request.name ++ ".c")
  Action.changeFiles fun files => files.create (Path.withSuffix source ".c.cached") messages
  modify fun w => { w with listeners }

/-- Compiles objects and builds a module in a directory: its declarations and code. -/
def buildIn (t : Toolchain) (data : CellData) (kind : ModuleKind) (a : BuildArguments)
    (options : Entries Json) (directory name : String) (symbols : List (String × String))
    (objects : List Source) : Action (String × String) := do
  let _ ← Action.ofOutcome (Code.isComplex (.map options))
  let externs := symbols.map fun (type, name) => s!"extern {type} {name};\n"
  let declarations := kind.interface ++ String.join externs
  let libraries ← Action.ofOutcome (librariesOf a.libraries)
  let settings : Settings := { data, options := .map options, label := name, drawing := a.drawing }
  let code ← Action.ofOutcome (Compiler.compile settings (objects.map Source.anonymous))
  Action.ofOutcome ((← get).files.makeDirectory directory)
  runBuild t { directory, name, objects := symbols, extraArguments := a.extraArguments
               libraries, debug := a.debug } a.verbose
  return (declarations, code.implementation)

def temporaryDirectory : Action String := do
  let w ← get
  set { w with scratch := w.scratch + 1 }
  return s!"tmp{w.scratch + 1}"

/-- Builds a module and loads its objects.  When the build fails the C file is moved away, but not
    when the program is told to stop. -/
def buildAndLoad (t : Toolchain) (data : CellData) (kind : ModuleKind) (a : BuildArguments)
    (options : Entries Json) (directory name : String) (symbols : List (String × String))
    (objects : List Source) : Action Module := do
  let (declarations, code) ← tryCatch
    (buildIn t data kind a options directory name symbols objects)
    fun f => do
      if f ≠ .interrupted then abandon directory name
      throw f
  let loaded ← loadModule t directory name (symbols.map (·.2))
  return { objects := loaded, declarations := some declarations, code := some code }

def moduleFor (t : Toolchain) (data : CellData) (platform : Platform) (kind : ModuleKind)
    (a : BuildArguments) (objects : List Source) : Action Module := do
  let options ← Action.readOptions a.options
  let name ← Action.ofOutcome (kind.moduleName platform a options objects)
  let symbols ← Action.ofOutcome (objects.zipIdx.mapM fun (o, i) => kind.objectsOf name o i)
  let symbols := symbols.flatten
  match a.directory with
  | none => buildAndLoad t data kind a options (← temporaryDirectory) name symbols objects
  | some directory =>
    match ← cachedModule t directory name (symbols.map (·.2)) a.timeout with
    | some loaded => return { objects := loaded }
    | none => buildAndLoad t data kind a options directory name symbols objects

end FormKernel.Modules
