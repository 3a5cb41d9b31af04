/-! # Decimal digits of binary floating-point numbers

A finite binary number is `mantissa · 2 ^ exponent`.  Two ways of choosing decimal
digits for it are needed:

* `Binary.shortest` takes the fewest digits that lie in the interval of reals which
  round to the number, and of those the nearest;
* `Binary.rounded` takes a fixed count of significant digits, a tie going to the
  even last digit.

Both work in exact natural-number arithmetic, so nothing depends on rounding of the
machine.  Layout (positional or with an exponent) is decided in
`FormKernel.Decimal.Layout`. -/

namespace FormKernel.Decimal

/-- The decimal number `coefficient · 10 ^ scale`. -/
structure Digits where
  coefficient : Nat
  scale : Int
  deriving DecidableEq

/-- Number of decimal digits of `n`, one for zero. -/
def digitCount (n : Nat) : Nat := (Nat.toDigits 10 n).length

namespace Digits

/-- Drops up to `fuel` trailing zeros of the coefficient. -/
def dropZeros : Nat → Digits → Digits
  | 0, d => d
  | fuel + 1, d =>
    if d.coefficient % 10 = 0 ∧ d.coefficient ≠ 0 then
      dropZeros fuel ⟨d.coefficient / 10, d.scale + 1⟩
    else d

/-- The same number with no trailing zero in its coefficient. -/
def normalize (d : Digits) : Digits := dropZeros (digitCount d.coefficient) d

def exponent (d : Digits) : Int := d.scale + digitCount d.coefficient - 1

end Digits

/-- A positive number `mantissa · 2 ^ exponent`.  `tight` says that the next smaller
    representable number is only half as far away as the next larger one. -/
structure Binary where
  mantissa : Nat
  exponent : Int
  tight : Bool
  deriving DecidableEq

/-- A fraction of natural numbers. -/
structure Ratio where
  num : Nat
  den : Nat
  deriving DecidableEq

namespace Ratio

/-- Multiplies by `b ^ e`, a negative exponent going to the denominator. -/
def scale (r : Ratio) (b : Nat) (e : Int) : Ratio :=
  if 0 ≤ e then ⟨r.num * Nat.pow b e.toNat, r.den⟩
  else ⟨r.num, r.den * Nat.pow b (-e).toNat⟩

def le (a b : Ratio) : Bool := a.num * b.den ≤ b.num * a.den

def lt (a b : Ratio) : Bool := a.num * b.den < b.num * a.den

end Ratio

namespace Binary

def toRatio (b : Binary) : Ratio := Ratio.scale ⟨b.mantissa, 1⟩ 2 b.exponent

/-- Lower end of the interval that rounds to the number. -/
def lower (b : Binary) : Ratio :=
  if b.tight then Ratio.scale ⟨4 * b.mantissa - 1, 4⟩ 2 b.exponent
  else Ratio.scale ⟨2 * b.mantissa - 1, 2⟩ 2 b.exponent

/-- Upper end of the interval that rounds to the number. -/
def upper (b : Binary) : Ratio := Ratio.scale ⟨2 * b.mantissa + 1, 2⟩ 2 b.exponent

/-- Whether a fraction rounds to the number: the ends belong to an even mantissa. -/
def holds (b : Binary) (r : Ratio) : Bool :=
  if b.mantissa % 2 = 0 then b.lower.le r && r.le b.upper
  else b.lower.lt r && r.lt b.upper

/-- The least `k` with the number below `10 ^ k`, found by counting up from `k`. -/
def magnitudeFrom (r : Ratio) : Nat → Int → Int
  | 0, k => k
  | fuel + 1, k => if r.lt (Ratio.scale ⟨1, 1⟩ 10 k) then k else magnitudeFrom r fuel (k + 1)

/-- The least `k` with the number below `10 ^ k`.  The digit counts of numerator and
    denominator bound it within one. -/
def magnitude (r : Ratio) : Int :=
  magnitudeFrom r 3 ((digitCount r.num : Int) - digitCount r.den - 1)

/-- Quotient and remainder of the number on the grid of multiples of `10 ^ scale`, with the
    divisor. -/
def onGrid (r : Ratio) (scale : Int) : Nat × Nat × Nat :=
  let s := r.scale 10 (-scale)
  (s.num / s.den, s.num % s.den, s.den)

/-- The nearer of the two neighbours on a grid that round to the number, if any. -/
def onGridHolding (b : Binary) (r : Ratio) (scale : Int) : Option Digits :=
  let (q, rem, den) := onGrid r scale
  let below := b.holds (Ratio.scale ⟨q, 1⟩ 10 scale) && q ≠ 0
  let above := b.holds (Ratio.scale ⟨q + 1, 1⟩ 10 scale)
  let up := 2 * rem > den || (2 * rem = den && q % 2 = 1)
  match below, above with
  | true, true => some ⟨if up then q + 1 else q, scale⟩
  | true, false => some ⟨q, scale⟩
  | false, true => some ⟨q + 1, scale⟩
  | false, false => none

/-- Tries grids of growing precision, from `count` digits on. -/
def shortestFrom (b : Binary) (r : Ratio) (k : Int) : Nat → Nat → Digits
  | 0, count => ⟨(onGrid r (k - count)).1, k - count⟩
  | fuel + 1, count =>
    match b.onGridHolding r (k - count) with
    | some d => d
    | none => shortestFrom b r k fuel (count + 1)

/-- The fewest decimal digits that round to the number, nearest first. -/
def shortest (b : Binary) : Digits :=
  let r := b.toRatio
  (shortestFrom b r (magnitude r) 17 1).normalize

/-- The nearest number of `count` significant digits, a tie going to the even digit. -/
def rounded (b : Binary) (count : Nat) : Digits :=
  let r := b.toRatio
  let scale := magnitude r - count
  let (q, rem, den) := onGrid r scale
  let up := 2 * rem > den || (2 * rem = den && q % 2 = 1)
  Digits.normalize ⟨if up then q + 1 else q, scale⟩

end Binary

/-- What the bits of a floating-point number say. -/
inductive Decoded where
  | nan
  | infinite (negative : Bool)
  | zero (negative : Bool)
  | finite (negative : Bool) (value : Binary)
  deriving BEq

/-- Reads the fields of an interchange format with `mantissaBits` stored mantissa bits and
    `exponentBits` exponent bits. -/
def decodeFields (mantissaBits exponentBits bits : Nat) : Decoded :=
  let fraction := bits % Nat.pow 2 mantissaBits
  let biased := bits / Nat.pow 2 mantissaBits % Nat.pow 2 exponentBits
  let negative := bits / Nat.pow 2 (mantissaBits + exponentBits) % 2 = 1
  let top := Nat.pow 2 exponentBits - 1
  let bias : Int := (Nat.pow 2 (exponentBits - 1) : Int) - 1 + mantissaBits
  if biased = top then
    if fraction = 0 then .infinite negative else .nan
  else if biased = 0 then
    if fraction = 0 then .zero negative else .finite negative ⟨fraction, 1 - bias, false⟩
  else
    .finite negative ⟨Nat.pow 2 mantissaBits + fraction, biased - bias, fraction = 0 && biased > 1⟩

/-- The value of a double-precision number. -/
def decode (x : Float) : Decoded := decodeFields 52 11 x.toBits.toNat

/-- The value of a single-precision number. -/
def decodeSingle (x : Float32) : Decoded := decodeFields 23 8 x.toBits.toNat

end FormKernel.Decimal
