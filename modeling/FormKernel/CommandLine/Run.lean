import FormKernel.CommandLine.Parse
import FormKernel.Compiler.Compile
import FormKernel.Compiler.Description
import FormKernel.Options
import FormKernel.Path

/-! # Running a command

For every file that is given, a header and a source file are written to a directory.  Their name is
that of the file without suffix; characters that C does not allow in names are replaced. -/

namespace FormKernel.CommandLine

open Compiler (Description)
open Reference (CellData)

def isNameChar (c : Char) : Bool := c.isAlpha || c.isDigit || c == '_'

/-- A name with every run of other characters replaced by an underscore. -/
def safeName : List Char → List Char
  | [] => []
  | [c] => if isNameChar c then [c] else ['_']
  | c :: d :: rest =>
    if isNameChar c then c :: safeName (d :: rest)
    else if isNameChar d then '_' :: safeName (d :: rest)
    else safeName (d :: rest)

def outputName (file : String) : String :=
  String.ofList (safeName (Path.stem (Path.name file)).toList)

/-- A file that is written; the measurements of a profile are not text. -/
structure Output where
  path : String
  text : Option String
  deriving DecidableEq

/-- The outputs for a file with a description of objects. -/
def outputsFor (options : Entries Json) (data : CellData) (d : Description) (file : String)
    (isDirectory : String → Bool) : Outcome (List Output) := do
  let options := Json.map options
  let name := outputName file
  let code ← Compiler.compile {
    data, options, label := name, names := d.names
    drawing := if options["visualise"].toBool then .unavailable else .off } d.objects
  let directory := options["output_directory"].toText
  if !isDirectory (Path.plain directory) then misfit .noFile
  let profile := if options["profile"].toBool
    then [{ path := s!"ffcx_{name}.profile", text := none : Output }] else []
  return [{ path := Path.join directory (name ++ ".h"), text := some code.declaration },
    { path := Path.join directory (name ++ ".c"), text := some code.implementation }] ++ profile

/-- The outputs for all files; a later output takes the place of one with the same path.  A file
    is loaded when its turn comes. -/
def Command.outputs (c : Command) (store : Options.Store)
    (load : String → Outcome (CellData × Description)) (isDirectory : String → Bool) :
    Outcome (List (String × Option String)) := do
  let store ← store.load
  let options ← store.get (.map c.values)
  c.files.foldlM (fun out file => do
    let (data, d) ← load file
    let written ← outputsFor options data d file isDirectory
    return written.foldl (fun out o => assign o.path o.text out) out) []

end FormKernel.CommandLine
