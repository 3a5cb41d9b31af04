import FormKernel.Decimal.Layout

/-! # Correct rounding

Whole numbers and fractions as floating-point numbers, each the nearest there is and of two
equally near ones the even.  A number beyond the range of a format has no nearest one.

`floorQuotient` is division rounded down.  It goes through the remainder, which is exact, so that
the result is right also where the quotient itself is rounded to the next whole number. -/

namespace FormKernel.Machine

open Decimal (Ratio Decoded)

/-- A binary floating-point format. -/
structure Precision where
  /-- Number of digits of a mantissa. -/
  digits : Nat
  /-- Exponent of the least positive number. -/
  least : Int
  /-- All numbers are below two to this power. -/
  limit : Int
  deriving DecidableEq

namespace Precision

def half : Precision := ⟨11, -24, 16⟩

def single : Precision := ⟨24, -149, 128⟩

def double : Precision := ⟨53, -1074, 1024⟩

def extended : Precision := ⟨64, -16445, 16384⟩

/-- The exponent at which a number whose leading digit has the given exponent is rounded. -/
def unit (p : Precision) (leading : Int) : Int := max (leading - p.digits + 1) p.least

end Precision

/-- A fraction rounded to a whole number, a half to the even one. -/
def roundEven (r : Ratio) : Nat :=
  let q := r.num / r.den
  let rest := r.num % r.den
  if 2 * rest > r.den || (2 * rest == r.den && q % 2 == 1) then q + 1 else q

/-- The exponent of the leading binary digit of a positive fraction. -/
def leadingExponent (r : Ratio) : Int :=
  let guess : Int := (r.num.log2 : Int) - r.den.log2
  if (r.scale 2 (-guess)).lt ⟨1, 1⟩ then guess - 1 else guess

/-- Mantissa and exponent of the number of a format that is nearest to a fraction. -/
def Precision.nearest? (p : Precision) (r : Ratio) : Option (Nat × Int) :=
  if r.num = 0 then some (0, 0)
  else
    let e := p.unit (leadingExponent r)
    let m := roundEven (r.scale 2 (-e))
    if m ≠ 0 ∧ (m.log2 : Int) + e ≥ p.limit then none else some (m, e)

/-- The number with the given sign, mantissa and exponent. -/
def floatOf (negative : Bool) (mantissa : Nat) (exponent : Int) : Float :=
  let x := (Float.ofNat mantissa).scaleB exponent
  if negative then -x else x

/-- The floating-point number nearest to a fraction. -/
def nearestFloat? (negative : Bool) (r : Ratio) : Option Float :=
  (Precision.double.nearest? r).map fun (m, e) => floatOf negative m e

/-- The floating-point number nearest to a whole number. -/
def floatOfInt? (n : Int) : Option Float := nearestFloat? (n < 0) ⟨n.natAbs, 1⟩

/-- The floating-point number nearest to a quotient of whole numbers. -/
def quotient? (m n : Int) : Option Float := nearestFloat? ((m < 0) != (n < 0)) ⟨m.natAbs, n.natAbs⟩

/-- A number rounded to a narrower format, infinite beyond its range. -/
def Precision.round (p : Precision) (x : Float) : Float :=
  match Decimal.decode x with
  | .finite negative b =>
    match p.nearest? b.toRatio with
    | some (m, e) => floatOf negative m e
    | none => if negative then -1.0 / 0.0 else 1.0 / 0.0
  | _ => x

/-- What a number is in a format that holds it. -/
def Precision.decode (p : Precision) (x : Float) : Decoded :=
  match Decimal.decode x with
  | .finite negative b =>
    let e := p.unit (b.mantissa.log2 + b.exponent)
    let r := Ratio.scale ⟨b.mantissa, 1⟩ 2 (b.exponent - e)
    let m := r.num / r.den
    .finite negative ⟨m, e, m == Nat.pow 2 (p.digits - 1) && e > p.least⟩
  | d => d

/-- The whole number on the side of zero of a number; there is none for what is not finite. -/
def truncated? (x : Float) : Option Int :=
  match Decimal.decode x with
  | .zero _ => some 0
  | .finite negative b =>
    let r := b.toRatio
    let m : Int := (r.num / r.den : Nat)
    some (if negative then -m else m)
  | _ => none

/-- Whether a whole number is the value of a floating-point number. -/
def isValue (n : Int) (x : Float) : Bool :=
  match Decimal.decode x with
  | .zero _ => n == 0
  | .finite negative b =>
    let r := b.toRatio
    n * r.den == if negative then -(r.num : Int) else r.num
  | _ => false

/-- The rest of a division rounded toward zero, exactly. -/
def remainder (x y : Float) : Float :=
  match Decimal.decode x, Decimal.decode y with
  | .finite negative a, .finite _ b =>
    let e := min a.exponent b.exponent
    floatOf negative (a.mantissa * Nat.pow 2 (a.exponent - e).toNat %
      (b.mantissa * Nat.pow 2 (b.exponent - e).toNat)) e
  | .zero _, .finite .. | .zero _, .infinite _ | .finite .., .infinite _ => x
  | _, _ => 0.0 / 0.0

/-- Whether a number has a minus sign. -/
def isNegative (x : Float) : Bool := x < 0.0 || (x == 0.0 && 1.0 / x < 0.0)

/-- Division by a number that is not zero, rounded down. -/
def floorQuotient (x y : Float) : Float :=
  let rest := remainder x y
  let q := (x - rest) / y
  let q := if rest != 0.0 && (y < 0.0) != (rest < 0.0) then q - 1.0 else q
  if q == 0.0 then if isNegative (x / y) then -0.0 else 0.0
  else if q - q.floor > 0.5 then q.floor + 1.0 else q.floor

/-- Division by a single-precision number that is not zero, rounded down. -/
def floorQuotientSingle (x y : Float32) : Float32 :=
  let rest := (remainder x.toFloat y.toFloat).toFloat32
  let q := (x - rest) / y
  let q := if rest != 0.0 && (y < 0.0) != (rest < 0.0) then q - 1.0 else q
  if q == 0.0 then if isNegative (x / y).toFloat then -0.0 else 0.0
  else if q - q.floor > 0.5 then q.floor + 1.0 else q.floor

end FormKernel.Machine
