import FormKernel.Machine.Format
import FormKernel.Machine.Rounding

/-! # Numbers of the machine

A number with its format.  Words wrap around, floating-point numbers are rounded to their format
after every operation, and no operation stops at a division by zero: a word divided by zero and
rounded down is zero, any other quotient is infinite or no number.

`ArithOp.onNumbers` brings two numbers to the format in which they meet and applies an operation
there. -/

namespace FormKernel

/-- The four operations of arithmetic and division rounded down. -/
inductive ArithOp where
  | add | sub | mul | div | floorDiv
  deriving DecidableEq

namespace Machine

/-- A number of a machine format.  Half and extended precision are held in double precision. -/
inductive Number where
  | bool (b : Bool)
  | word (bits : Nat) (signed : Bool) (n : Int)
  | half (x : Float)
  | single (x : Float32)
  | double (x : Float)
  | extended (x : Float)
  | complexSingle (re im : Float32)
  | complexDouble (re im : Float)

namespace Number

def format : Number → Format
  | .bool _ => .bool
  | .word bits signed _ => .word bits signed
  | .half _ => .half
  | .single _ => .single
  | .double _ => .double
  | .extended _ => .extended
  | .complexSingle .. => .complexSingle
  | .complexDouble .. => .complexDouble

def text : Number → String
  | .bool b => if b then "True" else "False"
  | .word _ _ n => toString n
  | .half x => (Precision.half.decode x).text .shortest Decimal.Binary.shortest
  | .single x => Decimal.shortestTextSingle x
  | .double x => Decimal.shortestText x
  | .extended x => (Precision.extended.decode x).text .shortest Decimal.Binary.shortest
  | .complexSingle re im =>
    Decimal.complexText (Decimal.decodeSingle re) (Decimal.decodeSingle im)
  | .complexDouble re im => Decimal.complexText (Decimal.decode re) (Decimal.decode im)

/-- The whole number that a truth value or word is. -/
def int? : Number → Option Int
  | .bool b => some (if b then 1 else 0)
  | .word _ _ n => some n
  | _ => none

/-- The real part in double precision. -/
def real : Number → Float
  | .bool b => if b then 1.0 else 0.0
  | .word _ _ n => (floatOfInt? n).getD 0.0
  | .half x | .double x | .extended x => x
  | .single x => x.toFloat
  | .complexSingle re _ => re.toFloat
  | .complexDouble re _ => re

/-- The imaginary part in double precision. -/
def imag : Number → Float
  | .complexSingle _ im => im.toFloat
  | .complexDouble _ im => im
  | _ => 0.0

/-- A number in double precision as a floating-point number of a format. -/
def ofParts (f : Format) (re im : Float) : Number :=
  match f with
  | .half => .half (Precision.half.round re)
  | .single => .single re.toFloat32
  | .extended => .extended re
  | .complexSingle => .complexSingle re.toFloat32 im.toFloat32
  | .complexDouble => .complexDouble re im
  | _ => .double re

def convert (f : Format) (x : Number) : Number :=
  match f, x.int? with
  | .bool, _ => .bool (x.real != 0.0 || x.imag != 0.0)
  | .word bits signed, some n => .word bits signed (wrap bits signed n)
  | _, _ => ofParts f x.real x.imag

/-- The number with the opposite sign; truth values have none. -/
def negated : Number → Outcome Number
  | .bool _ => misfit .wrongKind
  | .word bits signed n => .ok (.word bits signed (wrap bits signed (-n)))
  | .half x => .ok (.half (-x))
  | .single x => .ok (.single (-x))
  | .double x => .ok (.double (-x))
  | .extended x => .ok (.extended (-x))
  | .complexSingle re im => .ok (.complexSingle (-re) (-im))
  | .complexDouble re im => .ok (.complexDouble (-re) (-im))

/-- Equality by value; a NaN differs from itself. -/
def same (x y : Number) : Bool :=
  match x.int?, y.int? with
  | some m, some n => m == n
  | _, _ =>
    let f := x.format.join y.format
    let x := x.convert f
    let y := y.convert f
    x.real == y.real && x.imag == y.imag

end Number

section Complex

variable {α : Type} [Add α] [Sub α] [Mul α]

/-- Quotient of complex numbers, scaled by the larger part of the divisor. -/
def complexQuotient [Div α] [OfScientific α] [LE α] [DecidableLE α] [BEq α] (abs : α → α)
    (a b c d : α) : α × α :=
  if abs c ≥ abs d then
    if abs c == 0.0 && abs d == 0.0 then (a / abs c, b / abs c)
    else
      let ratio := d / c
      let scale := 1.0 / (c + d * ratio)
      ((a + b * ratio) * scale, (b - a * ratio) * scale)
  else
    let ratio := c / d
    let scale := 1.0 / (d + c * ratio)
    ((a * ratio + b) * scale, (b * ratio - a) * scale)

def onComplex (quotient : α → α → α → α → α × α) (op : ArithOp) (a b c d : α) : Outcome (α × α) :=
  match op with
  | .add => .ok (a + c, b + d)
  | .sub => .ok (a - c, b - d)
  | .mul => .ok (a * c - b * d, a * d + b * c)
  | .div => .ok (quotient a b c d)
  | .floorDiv => misfit .wrongKind

end Complex

end Machine

namespace ArithOp

open Machine

def onWords (bits : Nat) (signed : Bool) (op : ArithOp) (m n : Int) : Number :=
  match op with
  | .add => .word bits signed (wrap bits signed (m + n))
  | .sub => .word bits signed (wrap bits signed (m - n))
  | .mul => .word bits signed (wrap bits signed (m * n))
  | .div => .double ((floatOfInt? m).getD 0.0 / (floatOfInt? n).getD 0.0)
  | .floorDiv => .word bits signed (if n == 0 then 0 else wrap bits signed (m.fdiv n))

/-- The operation on truth values, which meet as such in a sum and a product. -/
def onBools (op : ArithOp) (a b : Bool) : Outcome Number :=
  match op with
  | .add => .ok (.bool (a || b))
  | .mul => .ok (.bool (a && b))
  | .sub => misfit .wrongKind
  | .div | .floorDiv => .ok (onWords 8 true op (if a then 1 else 0) (if b then 1 else 0))

/-- The operation on double-precision numbers. -/
def onDoubles (op : ArithOp) (x y : Float) : Float :=
  match op with
  | .add => x + y
  | .sub => x - y
  | .mul => x * y
  | .div => x / y
  | .floorDiv => if y == 0.0 then x / y else floorQuotient x y

/-- The operation on single-precision numbers. -/
def onSingles (op : ArithOp) (x y : Float32) : Float32 :=
  match op with
  | .add => x + y
  | .sub => x - y
  | .mul => x * y
  | .div => x / y
  | .floorDiv => if y == 0.0 then x / y else floorQuotientSingle x y

/-- The operation on two numbers, in the format in which they meet. -/
def onNumbers (op : ArithOp) (x y : Number) : Outcome Number :=
  let f := x.format.join y.format
  match x.convert f, y.convert f with
  | .bool a, .bool b => op.onBools a b
  | .word bits signed m, .word _ _ n => .ok (op.onWords bits signed m n)
  | .half x, .half y =>
    .ok (.half (Precision.half.round (op.onSingles x.toFloat32 y.toFloat32).toFloat))
  | .single x, .single y => .ok (.single (op.onSingles x y))
  | .double x, .double y => .ok (.double (op.onDoubles x y))
  | .extended x, .extended y => .ok (.extended (op.onDoubles x y))
  | .complexSingle a b, .complexSingle c d =>
    (onComplex (complexQuotient Float32.abs) op a b c d).map fun (re, im) => .complexSingle re im
  | .complexDouble a b, .complexDouble c d =>
    (onComplex (complexQuotient Float.abs) op a b c d).map fun (re, im) => .complexDouble re im
  | _, _ => misfit .wrongKind

end ArithOp

end FormKernel
