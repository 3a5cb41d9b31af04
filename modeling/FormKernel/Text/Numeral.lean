import FormKernel.Json.Reader
import FormKernel.Text.Identifier

/-! # Numbers in text

Whole and real numbers as they are written by hand: blanks around them do not count, digits may be
grouped by single underscores, and the digits of all scripts will do. -/

namespace FormKernel.Text

/-- The zeros of all scripts.  The other digits of a script follow its zero. -/
def digitZeros : List Nat := [
  0x30, 0x660, 0x6f0, 0x7c0, 0x966, 0x9e6, 0xa66, 0xae6, 0xb66, 0xbe6, 0xc66, 0xce6, 0xd66, 0xde6,
  0xe50, 0xed0, 0xf20, 0x1040, 0x1090, 0x17e0, 0x1810, 0x1946, 0x19d0, 0x1a80, 0x1a90, 0x1b50,
  0x1bb0, 0x1c40, 0x1c50, 0xa620, 0xa8d0, 0xa900, 0xa9d0, 0xa9f0, 0xaa50, 0xabf0, 0xff10, 0x104a0,
  0x10d30, 0x11066, 0x110f0, 0x11136, 0x111d0, 0x112f0, 0x11450, 0x114d0, 0x11650, 0x116c0,
  0x11730, 0x118e0, 0x11950, 0x11c50, 0x11d50, 0x11da0, 0x16a60, 0x16ac0, 0x16b50, 0x1d7ce,
  0x1d7d8, 0x1d7e2, 0x1d7ec, 0x1d7f6, 0x1e140, 0x1e2f0, 0x1e950, 0x1fbf0]

def digitValue? (c : Char) : Option Nat :=
  (digitZeros.find? fun z => z ≤ c.toNat && c.toNat < z + 10).map (c.toNat - ·)

/-- A decimal digit of any script as one of the first. -/
def plainDigit (c : Char) : Char :=
  match digitValue? c with
  | some value => Char.ofNat ('0'.toNat + value)
  | none => c

/-- A text without the blanks around it and with plain digits. -/
def trimmed (s : String) : List Char :=
  (((s.toList.dropWhile isSpace).reverse.dropWhile isSpace).reverse).map plainDigit

def readSign : List Char → Bool × List Char
  | '-' :: cs => (true, cs)
  | '+' :: cs => (false, cs)
  | cs => (false, cs)

/-- Digits in groups, without the underscores between the groups. -/
def groupedDigits? (cs : List Char) : Option (List Char) :=
  let groups := (String.ofList cs).splitOn "_"
  if groups.all fun g => !g.isEmpty && g.all Char.isDigit then some (groups.flatMap String.toList)
  else none

def whole? (s : String) : Option Int := do
  let (negative, cs) := readSign (trimmed s)
  let n : Int := Json.digitsValue (← groupedDigits? cs)
  return if negative then -n else n

/-- Digits in groups, or nothing at all. -/
def optionalDigits? (cs : List Char) : Option (List Char) :=
  if cs.isEmpty then some [] else groupedDigits? cs

def exponent? (cs : List Char) : Option Int := do
  let (negative, ds) := readSign cs
  let n : Int := Json.digitsValue (← groupedDigits? ds)
  return if negative then -n else n

/-- A real number without sign and without words. -/
def decimal? (negative : Bool) (cs : List Char) : Option Float := do
  let isMark (c : Char) := c == 'e' || c == 'E'
  let mantissa := cs.takeWhile fun c => !isMark c
  let exponent ← match cs.dropWhile fun c => !isMark c with
    | [] => some 0
    | _ :: rest => exponent? rest
  let whole ← optionalDigits? (mantissa.takeWhile (· != '.'))
  let fraction ← optionalDigits? ((mantissa.dropWhile (· != '.')).drop 1)
  if whole.isEmpty && fraction.isEmpty then none
  else some (Json.floatOfDecimal negative (Json.digitsValue (whole ++ fraction))
    (exponent - fraction.length))

/-- A real number; infinity and the number that is none are written as words. -/
def real? (s : String) : Option Float :=
  let (negative, cs) := readSign (trimmed s)
  let sign (x : Float) : Float := if negative then -x else x
  match String.ofList (cs.map Char.toLower) with
  | "inf" | "infinity" => some (sign (1.0 / 0.0))
  | "nan" => some (0.0 / 0.0)
  | _ => decimal? negative cs

end FormKernel.Text
