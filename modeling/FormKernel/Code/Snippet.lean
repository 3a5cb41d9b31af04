import FormKernel.Dense
import FormKernel.Fault

/-! # Pieces of C code

A piece of generated code has a part for the header and a part for the source file. -/

namespace FormKernel.Code

def extent (a : Dense Float) (axis : Nat) : Outcome Nat := orMisfit a.shape[axis]? .outOfRange

/-- The declaration and the implementation of an object. -/
structure Snippet where
  declaration : String
  implementation : String
  deriving DecidableEq

/-- Lines of text, the first after a line break, the last followed by one. -/
def block (lines : List String) : String := "\n" ++ "\n".intercalate lines ++ "\n"

def braced (items : String) : String := s!"\x7b{items}\x7d"

def array (type name : String) (items : List String) : String :=
  let values := braced (", ".intercalate items)
  s!"{type} {name}[{items.length}] = {values};"

/-- The definition of an array that is not written out if it is empty, and how it is referred to. -/
def optionalArray (type name : String) (items : List String) : String × String :=
  if items.isEmpty then ("", "NULL") else (array type name items, name)

def quote (text : String) : String := s!"\"{text}\""

def truth (b : Bool) : String := if b then "true" else "false"

/-- A function space: its element and dofmap, and the coordinate element of its mesh. -/
structure FunctionSpace where
  element : String
  dofmap : String
  family : String
  degree : Int
  cell : Int
  variant : Option Int
  valueShape : List Int
  deriving DecidableEq

/-- The lines that define a function space under a name, and those that define its value shape
    under another. -/
def FunctionSpace.lines (s : FunctionSpace) (name shapeName : String) :
    Outcome (List String × List String) := do
  let some variant := s.variant | misfit .wrongKind
  let shape := s.valueShape.map toString
  let extents := ", ".intercalate shape
  let start := [
    s!"static ufcx_function_space {name} =", "\x7b",
    s!".finite_element = &{s.element},", s!".dofmap = &{s.dofmap},",
    s!".geometry_family = \"{s.family}\",", s!".geometry_degree = {s.degree},",
    s!".geometry_basix_cell = {s.cell},", s!".geometry_basix_variant = {variant},",
    s!".value_rank = {shape.length},"]
  if shape.isEmpty then return (start ++ [".value_shape = NULL", "\x7d;"], [])
  return (start ++ [s!".value_shape = {shapeName}", "\x7d;"],
    [s!"int {shapeName}[{shape.length}] = \x7b", "  " ++ extents, "\x7d;"])

end FormKernel.Code
