import FormKernel.Machine.Number

/-! # Plain numbers and numbers of the machine

A plain number has no format: a whole number is as large as it has to be, and a floating-point
number has double precision.  Beside a number of the machine it takes that number's format, where
it has to fit.  Between plain numbers a division by zero and a result beyond all floating-point
numbers are faults. -/

namespace FormKernel

/-- A number, plain or of a machine format. -/
inductive Numeral where
  | bool (b : Bool)
  | int (n : Int)
  | float (x : Float)
  | complex (re im : Float)
  | machine (m : Machine.Number)

/-- Whole numbers of more digits have no text. -/
def digitLimit : Nat := 4300

def wholeText (n : Int) : Outcome String :=
  if n.natAbs < Nat.pow 10 digitLimit then .ok (toString n) else misfit .wrongValue

namespace Numeral

open Machine

def type : Numeral → String
  | .bool _ => "bool"
  | .int _ => "int"
  | .float _ => "float"
  | .complex .. => "complex"
  | .machine m => "numpy." ++ m.format.name

/-- The plain number of the same value. -/
def plain : Numeral → Numeral
  | .machine (.bool b) => .bool b
  | .machine (.word _ _ n) => .int n
  | .machine (.half x) | .machine (.double x) => .float x
  | .machine (.single x) => .float x.toFloat
  | .machine (.complexSingle re im) => .complex re.toFloat im.toFloat
  | .machine (.complexDouble re im) => .complex re im
  | n => n

/-- The text of a number, that of the plain number of the same value. -/
def text (n : Numeral) : Outcome String :=
  match n.plain with
  | .bool b => .ok (if b then "True" else "False")
  | .int n => wholeText n
  | .float x | .machine (.extended x) => .ok (Decimal.shortestText x)
  | .complex re im => .ok (Decimal.complexText (Decimal.decode re) (Decimal.decode im))
  | .machine m => .ok m.text

/-- The text of a number with its format, if it has one. -/
def label (n : Numeral) : Outcome String :=
  match n with
  | .machine (.bool b) => .ok (if b then "np.True_" else "np.False_")
  | .machine m =>
    let text := if m.text.startsWith "(" then m.text else "(" ++ m.text ++ ")"
    .ok ("np." ++ m.format.name ++ text)
  | n => n.text

/-- The whole number that a truth value or whole number is. -/
def int? : Numeral → Option Int
  | .bool b => some (if b then 1 else 0)
  | .int n => some n
  | .machine m => m.int?
  | _ => none

/-- A number as it is beside a number of the machine. -/
def beside (other : Format) : Numeral → Outcome Number
  | .machine m => .ok m
  | .bool b => .ok (.bool b)
  | .int n =>
    let word (bits : Nat) (signed : Bool) : Outcome Number :=
      if fits bits signed n then .ok (.word bits signed n) else misfit .overflow
    match other, floatOfInt? n with
    | .bool, _ => word 64 true
    | .word bits signed, _ => word bits signed
    | f, some x => .ok (.ofParts f x 0.0)
    | _, none => misfit .overflow
  | .float x =>
    match other with
    | .bool | .word .. => .ok (.double x)
    | f => .ok (.ofParts f x 0.0)
  | .complex re im => .ok (.ofParts (Format.ofRank other.rank true) re im)

/-- Equality by value; a NaN differs from itself. -/
def same (a b : Numeral) : Bool :=
  match a.int?, b.int? with
  | some m, some n => m == n
  | _, _ =>
    let beside (x : Number) (n : Numeral) : Bool :=
      match n.beside x.format with
      | .ok y => x.same y
      | .error _ => false
    match a, b with
    | .machine x, n | n, .machine x => beside x n
    | .float x, .float y => x == y
    | .complex u v, .complex x y => u == x && v == y
    | .float x, .complex u v | .complex u v, .float x => v == 0.0 && u == x
    | .float x, n | n, .float x => n.int?.any (isValue · x)
    | .complex u v, n | n, .complex u v => v == 0.0 && n.int?.any (isValue · u)
    | _, _ => false

/-- The number with the opposite sign. -/
def negated : Numeral → Outcome Numeral
  | .bool b => .ok (.int (if b then -1 else 0))
  | .int n => .ok (.int (-n))
  | .float x => .ok (.float (-x))
  | .complex re im => .ok (.complex (-re) (-im))
  | .machine m => return .machine (← m.negated)

end Numeral

namespace ArithOp

open Machine

/-- The operation on plain whole numbers; a quotient is a floating-point number. -/
def onInts (op : ArithOp) (m n : Int) : Outcome Numeral :=
  match op with
  | .add => .ok (.int (m + n))
  | .sub => .ok (.int (m - n))
  | .mul => .ok (.int (m * n))
  | .div =>
    if n == 0 then misfit .zeroDivision
    else
      match quotient? m n with
      | some x => .ok (.float x)
      | none => misfit .overflow
  | .floorDiv => if n == 0 then misfit .zeroDivision else .ok (.int (m.fdiv n))

/-- The operation on plain floating-point numbers. -/
def onFloats (op : ArithOp) (x y : Float) : Outcome Numeral :=
  match op with
  | .div | .floorDiv =>
    if y == 0.0 then misfit .zeroDivision else .ok (.float (op.onDoubles x y))
  | _ => .ok (.float (op.onDoubles x y))

/-- The floating-point number of a plain real number. -/
def realOf : Numeral → Outcome Float
  | .float x => .ok x
  | n =>
    match n.int?.map floatOfInt? with
    | some (some x) => .ok x
    | some none => misfit .overflow
    | none => misfit .wrongKind

/-- The operation on two numbers. -/
def onNumerals (op : ArithOp) (a b : Numeral) : Outcome Numeral := do
  match a, b with
  | .machine x, n => return .machine (← op.onNumbers x (← n.beside x.format))
  | n, .machine y => return .machine (← op.onNumbers (← n.beside y.format) y)
  | a, b =>
    match a.int?, b.int? with
    | some m, some n => op.onInts m n
    | _, _ => op.onFloats (← realOf a) (← realOf b)

end ArithOp

end FormKernel
