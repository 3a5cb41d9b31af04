import FormKernel.CommandLine.Run

/-! # The program

Compiles the files that are named on the command line.  A file describes reference cells under
`cells` and what is to be compiled under `env`, `objects` and `names`. -/

namespace FormKernel.CommandLine

open Compiler (Description)
open Reference (CellData)

/-- What the options that end the program show. -/
def shown : String → String
  | "version" => s!"ffcx (version {Code.compilerVersion})"
  | _ => "usage: ffcx [options] file [file ...]\n\noptions:\n" ++
      "\n".intercalate (switches.map fun s => "  " ++ ", ".intercalate s.names)

/-- Reads a description from the text of a file. -/
def describe : Option String → Outcome (CellData × Description)
  | none => misfit .noFile
  | some text => do
    let some j := Json.parse? text | misfit .malformed
    return (CellData.ofJson j["cells"], ← Description.ofJson j)

def readText? (path : String) : IO (Option String) := do
  try return some (← IO.FS.readFile path)
  catch _ => return none

def userOptions? : IO (Option String) := do
  let config ← match ← IO.getEnv "XDG_CONFIG_HOME" with
    | some directory => pure directory
    | none => do pure (((← IO.getEnv "HOME").getD "") ++ "/.config")
  readText? (config ++ "/ffcx/ffcx_options.json")

/-- Compiles the files of a command and writes the outputs. -/
def Command.perform (c : Command) : IO UInt32 := do
  let store : Options.Store := { user := ← userOptions?, own := ← readText? "ffcx_options.json" }
  let texts ← c.files.mapM fun file => do return (file, ← readText? file)
  match c.outputs store (fun file => describe ((texts.lookup file).getD none)) fun _ => true with
  | .error f =>
    IO.eprintln (f.message.getD s!"{repr f.category}")
    return 1
  | .ok outputs =>
    for (path, text) in outputs do IO.FS.writeFile path (text.getD "")
    return 0

end FormKernel.CommandLine

/-- Compiles the files that are named on the command line. -/
def main (words : List String) : IO UInt32 := do
  match FormKernel.CommandLine.read words with
  | .ok command => command.perform
  | .error stop =>
    match stop with
    | .shows key => IO.println (FormKernel.CommandLine.shown key)
    | .misuse => IO.eprintln (FormKernel.CommandLine.shown "help")
    return stop.code.toUInt32
