import FormKernel.Json.Basic

/-! # Reading JSON text

The grammar is the usual one with two liberties: the numbers `NaN`, `Infinity` and
`-Infinity` are words of the language, and of a key written twice the last value counts
at the first place.  A number is a floating-point number exactly when it has a fraction
or an exponent. -/

namespace FormKernel.Json

def isBlank (c : Char) : Bool := c == ' ' || c == '\t' || c == '\n' || c == '\r'

/-- The text after leading blanks. -/
def skipBlank (cs : List Char) : List Char := cs.dropWhile isBlank

def hexDigit? (c : Char) : Option Nat :=
  if '0' ≤ c ∧ c ≤ '9' then some (c.toNat - '0'.toNat)
  else if 'a' ≤ c ∧ c ≤ 'f' then some (c.toNat - 'a'.toNat + 10)
  else if 'A' ≤ c ∧ c ≤ 'F' then some (c.toNat - 'A'.toNat + 10)
  else none

/-- The value of four hexadecimal digits. -/
def hexQuad? (a b c d : Char) : Option Nat := do
  let a ← hexDigit? a
  let b ← hexDigit? b
  let c ← hexDigit? c
  let d ← hexDigit? d
  return ((a * 16 + b) * 16 + c) * 16 + d

/-- The character that a one-letter escape stands for. -/
def escape? : Char → Option Nat
  | '"' => some 34
  | '\\' => some 92
  | '/' => some 47
  | 'b' => some 8
  | 'f' => some 12
  | 'n' => some 10
  | 'r' => some 13
  | 't' => some 9
  | _ => none

/-- Code units of a string up to its closing quote, and the text after it. -/
def readUnits : List Char → Option (List Nat × List Char)
  | [] => none
  | '"' :: rest => some ([], rest)
  | '\\' :: 'u' :: a :: b :: c :: d :: rest => do
    let n ← hexQuad? a b c d
    let (us, rest) ← readUnits rest
    return (n :: us, rest)
  | '\\' :: e :: rest => do
    let n ← escape? e
    let (us, rest) ← readUnits rest
    return (n :: us, rest)
  | c :: rest => do
    if c.toNat < 32 ∨ c == '\\' then none
    let (us, rest) ← readUnits rest
    return (c.toNat :: us, rest)

/-- Characters of a list of code units: surrogates are joined in pairs, and one that
    stands alone becomes the replacement character. -/
def joinUnits : List Nat → List Char
  | [] => []
  | [n] => [if 0xd800 ≤ n ∧ n < 0xe000 then Char.ofNat 0xfffd else Char.ofNat n]
  | h :: l :: rest =>
    if 0xd800 ≤ h ∧ h < 0xdc00 ∧ 0xdc00 ≤ l ∧ l < 0xe000 then
      Char.ofNat (0x10000 + (h - 0xd800) * 0x400 + (l - 0xdc00)) :: joinUnits rest
    else
      (if 0xd800 ≤ h ∧ h < 0xe000 then Char.ofNat 0xfffd else Char.ofNat h)
        :: joinUnits (l :: rest)

/-- A string after its opening quote. -/
def readString (cs : List Char) : Option (String × List Char) :=
  (readUnits cs).map fun (us, rest) => (String.ofList (joinUnits us), rest)

def digitsValue (ds : List Char) : Nat := ds.foldl (fun acc c => acc * 10 + (c.toNat - '0'.toNat)) 0

/-- The digits of a whole part: a lone zero, or digits that do not start with zero. -/
def readWhole : List Char → Option (List Char × List Char)
  | '0' :: rest => some (['0'], rest)
  | cs =>
    let ds := cs.takeWhile Char.isDigit
    if ds.isEmpty then none else some (ds, cs.drop ds.length)

def readFraction : List Char → List Char × List Char
  | '.' :: cs =>
    let ds := cs.takeWhile Char.isDigit
    if ds.isEmpty then ([], '.' :: cs) else (ds, cs.drop ds.length)
  | cs => ([], cs)

/-- An exponent `e±ddd`, or nothing. -/
def readExponent (cs : List Char) : Option Int × List Char :=
  match cs with
  | e :: rest =>
    if e == 'e' || e == 'E' then
      let (negative, body) :=
        match rest with
        | '-' :: r => (true, r)
        | '+' :: r => (false, r)
        | r => (false, r)
      let ds := body.takeWhile Char.isDigit
      if ds.isEmpty then (none, cs)
      else
        let n : Int := digitsValue ds
        (some (if negative then -n else n), body.drop ds.length)
    else (none, cs)
  | [] => (none, cs)

/-- The number with the given decimal coefficient and exponent, correctly rounded.  What is far
    beyond the range of floating-point numbers is infinite or zero. -/
def floatOfDecimal (negative : Bool) (coefficient : Nat) (exponent : Int) : Float :=
  let magnitude := exponent + (Nat.toDigits 10 coefficient).length
  let x :=
    if coefficient == 0 || magnitude < -400 then 0.0
    else if magnitude > 400 then 1.0 / 0.0
    else Float.ofScientific coefficient (exponent < 0) exponent.natAbs
  if negative then -x else x

/-- A number without its sign. -/
def readUnsigned (negative : Bool) (cs : List Char) : Option (Json × List Char) := do
  let (whole, rest) ← readWhole cs
  let (fraction, rest) := readFraction rest
  let (exponent, rest) := readExponent rest
  if fraction.isEmpty && exponent.isNone then
    let n : Int := digitsValue whole
    return (.int (if negative then -n else n), rest)
  else
    let coefficient := digitsValue (whole ++ fraction)
    return (.float (floatOfDecimal negative coefficient (exponent.getD 0 - fraction.length)), rest)

def afterWord? (word : String) (cs : List Char) : Option (List Char) :=
  if word.toList.isPrefixOf cs then some (cs.drop word.length) else none

def readScalar (cs : List Char) : Option (Json × List Char) :=
  (afterWord? "null" cs).map (Json.null, ·)
    <|> (afterWord? "true" cs).map (Json.bool true, ·)
    <|> (afterWord? "false" cs).map (Json.bool false, ·)
    <|> (afterWord? "NaN" cs).map (Json.float (0.0 / 0.0), ·)
    <|> (afterWord? "Infinity" cs).map (Json.float (1.0 / 0.0), ·)
    <|> (afterWord? "-Infinity" cs).map (Json.float (-1.0 / 0.0), ·)
    <|> (match cs with
      | '-' :: rest => readUnsigned true rest
      | _ => readUnsigned false cs)

mutual

/-- A value at the start of the text.  The depth of nesting is bounded by `fuel`. -/
def readValue : Nat → List Char → Option (Json × List Char)
  | 0, _ => none
  | fuel + 1, cs =>
    match cs with
    | '"' :: rest => (readString rest).map fun (s, rest) => (.text s, rest)
    | '[' :: rest =>
      match skipBlank rest with
      | ']' :: rest => some (.list [], rest)
      | rest => (readItems fuel rest).map fun (xs, rest) => (.list xs, rest)
    | '\x7b' :: rest =>
      match skipBlank rest with
      | '\x7d' :: rest => some (.map [], rest)
      | rest => (readMembers fuel [] rest).map fun (es, rest) => (.map es, rest)
    | _ => readScalar cs

/-- The items of an array after its opening bracket. -/
def readItems : Nat → List Char → Option (List Json × List Char)
  | 0, _ => none
  | fuel + 1, cs => do
    let (x, rest) ← readValue fuel cs
    match skipBlank rest with
    | ']' :: rest => return ([x], rest)
    | ',' :: rest =>
      let (xs, rest) ← readItems fuel (skipBlank rest)
      return (x :: xs, rest)
    | _ => none

/-- The members of an object after its opening brace, added to those read before. -/
def readMembers : Nat → Entries Json → List Char → Option (Entries Json × List Char)
  | fuel + 1, es, '"' :: rest => do
    let (key, rest) ← readString rest
    let ':' :: rest := skipBlank rest | none
    let (value, rest) ← readValue fuel (skipBlank rest)
    match skipBlank rest with
    | '\x7d' :: rest => return (es.put key value, rest)
    | ',' :: rest => readMembers fuel (es.put key value) (skipBlank rest)
    | _ => none
  | _, _, _ => none

end

/-- The value of a whole text. -/
def parse? (s : String) : Option Json :=
  let cs := skipBlank s.toList
  match readValue (cs.length + 1) cs with
  | some (value, rest) => if (skipBlank rest).isEmpty then some value else none
  | none => none

end FormKernel.Json
