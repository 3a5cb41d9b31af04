/-! # Paths

Relative paths are names separated by slashes.  A name may have a suffix, which starts with its
last point. -/

namespace FormKernel.Path

/-- The pieces of a text between the places where a character stands. -/
def pieces (c : Char) (text : String) : List String := (text.toList.splitOn c).map String.ofList

/-- The parts of a path: empty parts and those that stay where they are do not count. -/
def parts (path : String) : List String := (pieces '/' path).filter fun p => p != "" && p != "."

def plain (path : String) : String :=
  match parts path with
  | [] => "."
  | ps => "/".intercalate ps

def join (directory name : String) : String := "/".intercalate (parts directory ++ parts name)

def name (path : String) : String := (parts path).getLastD ""

/-- A name without its suffix.  A point that is the first or the last character starts none. -/
def stem (name : String) : String :=
  match (pieces '.' name).reverse with
  | last :: first :: rest =>
    let front := ".".intercalate (first :: rest).reverse
    if last.isEmpty || front.isEmpty then name else front
  | _ => name

def withSuffix (path suffix : String) : String :=
  "/".intercalate ((parts path).dropLast ++ [stem (name path) ++ suffix])

end FormKernel.Path
