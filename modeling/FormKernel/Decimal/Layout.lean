import FormKernel.Decimal.Digits

/-! # Layout of decimal numbers

Chosen digits are written positionally while the exponent of the leading digit lies in
a range, and with an exponent of at least two digits otherwise.  A `Layout` holds the
decisions; `shortestText`, `fixedText` and `partText` are the three used in kernels,
headers and complex numbers. -/

namespace FormKernel.Decimal

/-- How digits become text. -/
structure Layout where
  /-- Least exponent of the leading digit that is written positionally. -/
  least : Int
  /-- First exponent that is written with an exponent again. -/
  bound : Int
  /-- Whether a whole number written positionally ends in `.0`. -/
  pointZero : Bool
  deriving DecidableEq

/-- Shortest text of a number: positional below `10 ^ 16`. -/
def Layout.shortest : Layout := ⟨-4, 16, true⟩

/-- Text of sixteen significant digits: positional below `10 ^ 15`. -/
def Layout.sixteen : Layout := ⟨-4, 15, true⟩

/-- A part of a complex number: as `Layout.shortest`, without `.0`. -/
def Layout.part : Layout := ⟨-4, 16, false⟩

/-- An exponent with sign and at least two digits. -/
def exponentText (e : Int) : String :=
  let n := toString e.natAbs
  (if e < 0 then "e-" else "e+") ++ (if n.length < 2 then "0" ++ n else n)

def zeros (n : Nat) : String := String.ofList (List.replicate n '0')

namespace Digits

/-- Digits with a decimal point and no exponent. -/
def positional (d : Digits) (pointZero : Bool) : String :=
  let body := toString d.coefficient
  if 0 ≤ d.scale then
    body ++ zeros d.scale.toNat ++ (if pointZero then ".0" else "")
  else
    let places := (-d.scale).toNat
    if places < body.length then
      let cs := body.toList
      String.ofList (cs.take (body.length - places)) ++ "."
        ++ String.ofList (cs.drop (body.length - places))
    else "0." ++ zeros (places - body.length) ++ body

/-- One digit, the fraction if there is one, and the exponent. -/
def scientific (d : Digits) : String :=
  let cs := (toString d.coefficient).toList
  let head := String.ofList (cs.take 1)
  let tail := String.ofList (cs.drop 1)
  head ++ (if tail.isEmpty then "" else "." ++ tail) ++ exponentText d.exponent

/-- Digits laid out by exponent. -/
def text (d : Digits) (l : Layout) : String :=
  if l.least ≤ d.exponent ∧ d.exponent < l.bound then d.positional l.pointZero
  else d.scientific

end Digits

/-- Text of a decoded number, given the choice of digits. -/
def Decoded.text (l : Layout) (choose : Binary → Digits) : Decoded → String
  | .nan => "nan"
  | .infinite negative => if negative then "-inf" else "inf"
  | .zero negative => (if negative then "-0" else "0") ++ (if l.pointZero then ".0" else "")
  | .finite negative b => (if negative then "-" else "") ++ (choose b).text l

/-- The shortest text that reads back as the same number. -/
def shortestText (x : Float) : String := (decode x).text .shortest Binary.shortest

/-- The shortest text that identifies a single-precision number. -/
def shortestTextSingle (x : Float32) : String := (decodeSingle x).text .shortest Binary.shortest

/-- The text of a number rounded to sixteen significant digits. -/
def sixteenText (x : Float) : String := (decode x).text .sixteen (Binary.rounded · 16)

/-- Text of a complex number from its two decoded parts.  A positive-zero real part is
    left out, and so are the brackets. -/
def complexText (re im : Decoded) : String :=
  let imaginary := im.text .part Binary.shortest ++ "j"
  match re with
  | .zero false => imaginary
  | _ =>
    let sign := if imaginary.startsWith "-" then "" else "+"
    "(" ++ re.text .part Binary.shortest ++ sign ++ imaginary ++ ")"

end FormKernel.Decimal
