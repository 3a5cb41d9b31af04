import FormKernel.Dense
import FormKernel.Text.Quoted

/-! # Arrays of numbers as text

The entries of an array are written with at most eight digits after the point and are aligned: all
have the same number of characters before and after the point.  When the entries differ too much
in size they are all written with an exponent.  Rows that are too long are broken into lines, and
of an array with more than a thousand entries only the first and last three along each axis are
shown. -/

namespace FormKernel.Decimal

/-- The nearest multiple of a power of ten, a tie going to the even one. -/
def Binary.atScale (b : Binary) (scale : Int) : Digits :=
  let (q, rem, den) := Binary.onGrid b.toRatio scale
  let up := 2 * rem > den || (2 * rem = den && q % 2 = 1)
  let n := if up then q + 1 else q
  if n = 0 then ⟨0, 0⟩ else Digits.normalize ⟨n, scale⟩

/-- The shortest digits, cut to a number of places after the point. -/
def Binary.withPlaces (b : Binary) (places : Nat) : Digits :=
  let d := b.shortest
  if d.scale < -(places : Int) then b.atScale (-(places : Int)) else d

/-- The shortest digits, cut to a number of significant digits. -/
def Binary.withDigits (b : Binary) (count : Nat) : Digits :=
  let d := b.shortest
  if digitCount d.coefficient > count then b.rounded count else d

/-- A number in parts: before the point, after it, and the exponent. -/
structure Parts where
  whole : String
  fraction : String
  exponent : Int := 0
  deriving DecidableEq

/-- What is written for a number: its parts, or a word if it is not finite. -/
inductive Printed where
  | number (p : Parts)
  | word (w : String)
  deriving DecidableEq

def signed (negative : Bool) (digits : String) : String :=
  if negative then "-" ++ digits else digits

/-- Digits without exponent in parts. -/
def Parts.positional (negative : Bool) (d : Digits) : Parts :=
  let cs := (d.positional false).toList
  ⟨signed negative (String.ofList (cs.takeWhile (· != '.'))),
    String.ofList ((cs.dropWhile (· != '.')).drop 1), 0⟩

def Parts.scientific (negative : Bool) (d : Digits) : Parts :=
  let cs := (toString d.coefficient).toList
  ⟨signed negative (String.ofList (cs.take 1)), String.ofList (cs.drop 1), d.exponent⟩

/-- The digits that a number is written with. -/
def Binary.printed (exponents : Bool) (b : Binary) : Digits :=
  if exponents then b.withDigits 9 else b.withPlaces 8

/-- What is written for a number, with or without exponents. -/
def Decoded.printed (exponents : Bool) : Decoded → Printed
  | .nan => .word "nan"
  | .infinite negative => .word (signed negative "inf")
  | .zero negative => .number ⟨signed negative "0", "", 0⟩
  | .finite negative b =>
    let d := b.printed exponents
    .number (if exponents then Parts.scientific negative d else Parts.positional negative d)

/-- Characters in front of a text up to a width. -/
def padLeft (width : Nat) (blank : Char) (s : String) : String :=
  String.ofList (List.replicate (width - s.length) blank) ++ s

/-- Characters behind a text up to a width. -/
def padRight (width : Nat) (blank : Char) (s : String) : String :=
  s ++ String.ofList (List.replicate (width - s.length) blank)

/-- The greatest length of texts. -/
def widest (texts : List String) : Nat := texts.foldl (fun n s => max n s.length) 0

/-- Whether numbers are written with exponents: one is very large or very small, or they differ by
    a factor of more than a thousand. -/
def needsExponent (xs : List Float) : Bool :=
  match (xs.filter fun x => x != 0.0 && x.isFinite).map Float.abs with
  | [] => false
  | y :: ys =>
    let most := ys.foldl max y
    let least := ys.foldl min y
    most >= 1e8 || least < 1e-4 || most / least > 1000.0

/-- How numbers are aligned. -/
structure Columns where
  exponents : Bool
  /-- The number of characters before the point. -/
  left : Nat
  /-- The number of digits after the point. -/
  right : Nat
  digits : Nat

namespace Columns

/-- The number of characters behind the point. -/
def behind (c : Columns) : Nat := c.right + if c.exponents then 2 + c.digits else 0

/-- The columns that parts of numbers and words fit into. -/
def fit (exponents : Bool) (parts : List Parts) (words : List String) : Columns :=
  let c : Columns := {
    exponents, left := widest (parts.map (·.whole)), right := widest (parts.map (·.fraction))
    digits := max 2 (widest (parts.map fun p => toString p.exponent.natAbs)) }
  { c with left := max c.left (widest words - (c.behind + 1)) }

def text (c : Columns) : Printed → String
  | .number p =>
    padLeft c.left ' ' p.whole ++ "." ++
      if c.exponents then
        padRight c.right '0' p.fraction ++ (if p.exponent < 0 then "e-" else "e+") ++
          padLeft c.digits '0' (toString p.exponent.natAbs)
      else padRight c.right ' ' p.fraction
  | .word w => padLeft (c.left + 1 + c.behind) ' ' w

end Columns

def alignedTexts (xs : List Float) : List String :=
  let exponents := needsExponent xs
  let printed := xs.map fun x => (decode x).printed exponents
  let parts := printed.filterMap fun | .number p => some p | .word _ => none
  let words := printed.filterMap fun | .number _ => none | .word w => some w
  printed.map (Columns.fit exponents parts words).text

/-- Cuts a list into a number of pieces of one length. -/
def chunks {α : Type} (length : Nat) : Nat → List α → List (List α)
  | 0, _ => []
  | n + 1, xs => xs.take length :: chunks length n (xs.drop length)

/-- The first and the last three of many items. -/
def ends {α : Type} (xs : List α) : List α :=
  if xs.length > 6 then xs.take 3 ++ xs.drop (xs.length - 3) else xs

/-- The entries of an array of a shape that have places among the first or the last three along
    every axis. -/
def corners {α : Type} : List Nat → List α → List α
  | [], xs => xs
  | n :: rest, xs => (ends (chunks (volume rest) n xs)).flatMap (corners rest)

/-- The first and the last three of many items, with dots for those between them. -/
def withDots {α : Type} (dots : α) (items : List α) (hidden : Bool) : List α :=
  if hidden then items.take 3 ++ dots :: items.drop 3 else items

/-- Texts that continue a line which has reached a column; a text that does not fit starts a new
    line. -/
def lineTail (indent width : Nat) : Nat → List String → String
  | _, [] => ""
  | column, w :: ws =>
    if column + 2 + w.length > width then
      ",\n" ++ String.ofList (List.replicate indent ' ') ++ w ++
        lineTail indent width (indent + w.length) ws
    else ", " ++ w ++ lineTail indent width (column + 2 + w.length) ws

/-- Texts divided by commas, broken into lines of a width. -/
def lineTexts (indent width : Nat) : List String → String
  | [] => ""
  | w :: ws => w ++ lineTail indent width (indent + w.length) ws

/-- How many entries along an axis are shown. -/
def shown (summary : Bool) (n : Nat) : Nat := if summary && n > 6 then 6 else n

/-- Texts in nested brackets, each row on a line of its own with an indent. -/
def nestedTexts (summary : Bool) : Nat → Nat → List Nat → List String → String
  | _, _, [], texts => texts.headD ""
  | indent, width, [n], texts =>
    "[" ++ lineTexts indent (width - 1) (withDots "..." texts (summary && n > 6)) ++ "]"
  | indent, width, n :: rest, texts =>
    let rows := (chunks (volume (rest.map (shown summary))) (shown summary n) texts).map
      (nestedTexts summary (indent + 1) (width - 1) rest)
    let breaks := String.ofList (List.replicate rest.length '\n' ++ List.replicate indent ' ')
    "[" ++ ("," ++ breaks).intercalate (withDots "..." rows (summary && n > 6)) ++ "]"

/-- The number of characters behind the last line break. -/
def lastLine (s : String) : Nat := (s.toList.reverse.takeWhile (· != '\n')).length

/-- Whether only some of the entries of an array are shown. -/
def summarised (a : Dense Float) : Bool := a.data.size > 1000

/-- The entries of an array that are shown. -/
def visible (a : Dense Float) : List Float :=
  if summarised a then corners a.shape a.data.toList else a.data.toList

def arrayBody (a : Dense Float) : String :=
  if a.data.isEmpty then "[]" else nestedTexts (summarised a) 7 74 a.shape
    (alignedTexts (visible a))

/-- What the entries of an array that are shown do not tell. -/
def arrayExtras (a : Dense Float) : List String :=
  (if summarised a || (a.data.isEmpty && a.shape != [0]) then
    ["shape=" ++ Text.inRounds (a.shape.map toString)] else []) ++
    if a.data.isEmpty then ["dtype=float64"] else []

def arrayText (a : Dense Float) : String :=
  let extras := arrayExtras a
  if extras.isEmpty then "array(" ++ arrayBody a ++ ")"
  else
    let start := "array(" ++ arrayBody a ++ ","
    let finish := ", ".intercalate extras ++ ")"
    let space := if lastLine start + finish.length + 1 > 75 then "\n      " else " "
    start ++ space ++ finish

end FormKernel.Decimal
