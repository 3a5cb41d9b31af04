import FormKernel.Graph.Basic
import FormKernel.Path

/-! # Files of a working directory

A working directory is a list of files under relative paths.  Directories exist as far as they hold
files; a path below a file is not a directory. -/

namespace FormKernel.Modules

/-- Files by path, with their texts. -/
abbrev Files := List (String × String)

namespace Files

/-- Whether there is a file at a path. -/
def has (files : Files) (path : String) : Bool := (files.lookup path).isSome

def write (files : Files) (path text : String) : Files := assign path text files

def without (files : Files) (path : String) : Files := files.filter fun f => f.1 != path

def isDirectory (files : Files) (path : String) : Bool :=
  files.any fun f => (Path.parts path).isPrefixOf (Path.parts f.1).dropLast

/-- Creates a file that must not be there. -/
def create (files : Files) (path text : String) : Outcome Files :=
  if files.has path then misfit .fileExists else .ok (files.write path text)

def remove (files : Files) (path : String) : Outcome Files :=
  if files.has path then .ok (files.without path) else misfit .noFile

/-- Moves a file to another path, where it takes the place of what is there. -/
def rename (files : Files) (path target : String) : Outcome Files :=
  match files.lookup path with
  | some text =>
    if files.isDirectory target then misfit .system
    else .ok ((files.without path).write target text)
  | none => misfit .noFile

/-- Makes a directory with all directories above it. -/
def makeDirectory (files : Files) (path : String) : Outcome Unit :=
  let parts := Path.parts path
  let above := (List.range parts.length).map fun n => "/".intercalate (parts.take n)
  if above.any files.has then misfit .notDirectory
  else if files.has (Path.plain path) then misfit .fileExists
  else .ok ()

def paths (files : Files) : List String := (files.map (·.1)).mergeSort fun a b => decide (a ≤ b)

end Files

end FormKernel.Modules
