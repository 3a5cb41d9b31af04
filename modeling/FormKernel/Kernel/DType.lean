import FormKernel.Machine.Numeral

/-! # Types and whole numbers of a kernel

A value of a kernel has the type of the geometry, the type of the element tensor, or is a whole
number or truth value.  `DType.merge` is the type of a combination.  A whole-number literal
remembers how it was given: as a plain number, as a truth value, or as a machine word, whose
arithmetic wraps around. -/

namespace FormKernel.Kernel

/-- A whole number as it was given. -/
inductive Whole where
  | int (n : Int)
  | bool (b : Bool)
  | word (bits : Nat) (signed : Bool) (n : Int)
  /-- The result of words whose formats no word format holds. -/
  | real (x : Float)
  deriving BEq

namespace Whole

def numeral : Whole → Numeral
  | .int n => .int n
  | .bool b => .bool b
  | .word bits signed n => .machine (.word bits signed n)
  | .real x => .machine (.double x)

/-- A number as a whole number of a kernel. -/
def ofNumeral : Numeral → Outcome Whole
  | .int n => .ok (.int n)
  | .bool b => .ok (.bool b)
  | .machine (.word bits signed n) => .ok (.word bits signed n)
  | .machine (.double x) => .ok (.real x)
  | _ => misfit .unmet

/-- How the number is written. -/
def text (n : Whole) : Outcome String := n.numeral.text

/-- Whether two numbers have one value. -/
def same (m n : Whole) : Bool := m.numeral.same n.numeral

def hasValue (n : Whole) (k : Int) : Bool := n.numeral.same (.int k)

/-- Difference of two numbers. -/
def sub (m n : Whole) : Outcome Whole := do
  ofNumeral (← ArithOp.sub.onNumerals m.numeral n.numeral)

/-- Product of two numbers. -/
def mul (m n : Whole) : Outcome Whole := do
  ofNumeral (← ArithOp.mul.onNumerals m.numeral n.numeral)

/-- The number with the opposite sign. -/
def neg : Whole → Whole
  | .int n => .int (-n)
  | .bool b => .int (if b then -1 else 0)
  | .word bits signed n => .word bits signed (Machine.wrap bits signed (-n))
  | .real x => .real (-x)

end Whole

inductive DType where
  | real
  /-- The type of the element tensor. -/
  | scalar
  | int
  | bool
  /-- No value at all, such as an assignment. -/
  | none
  deriving DecidableEq

namespace DType

def name : DType → String
  | .real => "REAL"
  | .scalar => "SCALAR"
  | .int => "INT"
  | .bool => "BOOL"
  | .none => "NONE"

def code : DType → Nat
  | .real => 0
  | .scalar => 1
  | .int => 2
  | .bool => 3
  | .none => 4

/-- A type as it stands in a message. -/
def label (t : DType) : String := s!"<DataType.{t.name}: {t.code}>"

/-- A type that may be missing as it stands in a message. -/
def label? : Option DType → String
  | some t => t.label
  | Option.none => "None"

/-- The type of a combination of values, each type with its text: the first of scalar, real, int
    and bool that occurs.  A type that is not given takes no part. -/
def mergeLabelled (ts : List (Option DType × String)) : Outcome DType :=
  let types := ts.map (·.1)
  let labels := "[" ++ ", ".intercalate (ts.map (·.2)) ++ "]"
  if types.contains (some .none) then .error (.invalidType labels)
  else if types.contains (some .scalar) then .ok .scalar
  else if types.contains (some .real) then .ok .real
  else if types.contains (some .int) then .ok .int
  else if types.contains (some .bool) then .ok .bool
  else .error (.noCommonType labels)

/-- The type of a combination of values. -/
def merge (ts : List (Option DType)) : Outcome DType :=
  mergeLabelled (ts.map fun t => (t, label? t))

end DType

end FormKernel.Kernel
