import FormKernel.Machine.Format

/-! # Number types

The number types that a kernel can be written for, their names, and the C type of each.

A type is asked for by its name, such as `float64`, or by a code: a letter with a count of bytes,
such as `f8`, which may be headed by the order of bytes.  Several codes with commas between them,
and a code headed by a shape, ask for a compound type, which is no number. -/

namespace FormKernel.CText

/-- Families of number types. -/
inductive Family where
  | bool | signed | unsigned | real | complex
  /-- Spans of time, which count as whole numbers. -/
  | duration
  | other
  deriving DecidableEq, Inhabited

structure NumberType where
  family : Family
  bits : Nat
  /-- Whether the bytes stand in the order of the machine. -/
  native : Bool := true
  /-- The name of a type that is no number, or the unit of time. -/
  label : String := ""
  deriving DecidableEq, Inhabited

namespace NumberType

def name (t : NumberType) : String :=
  match t.family with
  | .bool => "bool"
  | .signed => s!"int{t.bits}"
  | .unsigned => s!"uint{t.bits}"
  | .real => s!"float{t.bits}"
  | .complex => s!"complex{t.bits}"
  | .duration => "timedelta64" ++ t.label
  | .other => t.label

/-- A number type as it stands in a message: with another order of bytes it is a code. -/
def text (t : NumberType) : String :=
  let code (letter : String) : String := ">" ++ letter ++ toString (t.bits / 8) ++ t.label
  if t.native then t.name
  else
    match t.family with
    | .signed => code "i"
    | .unsigned => code "u"
    | .real => code "f"
    | .complex => code "c"
    | .duration => code "m"
    | .bool | .other => t.name

def unnumbered (label : String) : NumberType := { family := .other, bits := 0, label }

def numbers : List (Family × Nat × List Char × List String) := [
  (.bool, 8, ['?'], ["bool", "bool_"]), (.signed, 8, ['b'], ["int8", "byte"]),
  (.signed, 16, ['h'], ["int16", "short"]), (.signed, 32, ['i'], ["int32", "intc"]),
  (.signed, 64, ['l', 'q', 'p', 'n'], ["int64", "int", "int_", "intp", "long", "longlong"]),
  (.unsigned, 8, ['B'], ["uint8", "ubyte"]), (.unsigned, 16, ['H'], ["uint16", "ushort"]),
  (.unsigned, 32, ['I'], ["uint32", "uintc"]),
  (.unsigned, 64, ['L', 'Q', 'P', 'N'], ["uint64", "uint", "uintp", "ulong", "ulonglong"]),
  (.real, 16, ['e'], ["float16", "half"]), (.real, 32, ['f'], ["float32", "single"]),
  (.real, 64, ['d'], ["float64", "double", "float"]),
  (.real, 128, ['g'], ["float128", "longdouble"]),
  (.complex, 64, ['F'], ["complex64", "csingle"]),
  (.complex, 128, ['D'], ["complex128", "cdouble", "complex"]),
  (.complex, 256, ['G'], ["complex256", "clongdouble"]), (.duration, 64, ['m'], [])]

def others : List (String × List Char × List String) := [
  ("object", ['O'], ["object", "object_"]), ("str", ['U'], ["str", "str_", "unicode"]),
  ("bytes", ['S', 'a'], ["bytes", "bytes_"]), ("void", ['V'], ["void"]), ("datetime64", ['M'], []),
  ("bytes8", ['c'], [])]

/-- The letters and the names of each type. -/
def spellings : List (NumberType × List Char × List String) :=
  numbers.map (fun (family, bits, spelled) => ({ family := family, bits := bits }, spelled)) ++
    others.map fun (label, spelled) => (unnumbered label, spelled)

def named : List (String × NumberType) := spellings.flatMap fun (t, _, names) => names.map (·, t)

def lettered : List (Char × NumberType) :=
  spellings.flatMap fun (t, letters, _) => letters.map (·, t)

/-- The number type of a letter with a count of bytes. -/
def ofSize? (letter : Char) (bytes : Nat) : Option NumberType :=
  let sized (family : Family) (sizes : List Nat) : Option NumberType :=
    if sizes.contains bytes then some { family, bits := 8 * bytes } else none
  let text (label : String) (width : Nat) : Option NumberType :=
    some (unnumbered (if bytes == 0 then label else label ++ toString (width * bytes)))
  match letter, bytes with
  | 'U', _ => text "str" 32
  | 'S', _ | 'a', _ => text "bytes" 8
  | 'V', _ => text "void" 8
  | c, 0 => lettered.lookup c
  | 'b', _ => sized .bool [1]
  | 'i', _ => sized .signed [1, 2, 4, 8]
  | 'u', _ => sized .unsigned [1, 2, 4, 8]
  | 'f', _ => sized .real [2, 4, 8, 16]
  | 'c', _ => sized .complex [8, 16, 32]
  | 'm', _ => sized .duration [8]
  | 'M', 8 => some (unnumbered "datetime64")
  | 'O', 4 | 'O', 8 => some (unnumbered "object")
  | _, _ => none

/-- A count as it stands in a code: blanks and a sign may come before the digits. -/
def count? (cs : List Char) : Option Nat :=
  let digits := match cs.dropWhile (· == ' ') with
    | '+' :: ds => ds
    | ds => ds
  if !digits.isEmpty && digits.all Char.isDigit then (String.ofList digits).toNat? else none

/-- A code without the order of bytes. -/
def ofCode? : List Char → Option NumberType
  | [] => none
  | [c] => lettered.lookup c
  | c :: cs => (count? cs).bind (ofSize? c)

def timeUnits : List String :=
  ["Y", "M", "W", "D", "h", "m", "s", "ms", "us", "ns", "ps", "fs", "as"]

/-- The unit of a type of times, in brackets; without one it is left open. -/
def unit? (cs : List Char) : Option String :=
  match cs with
  | [] => some ""
  | '[' :: rest =>
    let body := rest.dropLast
    let digits := body.takeWhile Char.isDigit
    let name := String.ofList (body.drop digits.length)
    if rest.getLast? != some ']' then none
    else if name == "generic" && digits.isEmpty then some ""
    else if timeUnits.contains name then
      let factor := String.ofList digits
      let factor := if factor == "1" then "" else factor
      some ("[" ++ factor ++ name ++ "]")
    else none
  | _ => none

def ofTime? (name : String) : Option NumberType :=
  let after (head : String) : Option String :=
    if head.toList.isPrefixOf name.toList then unit? (name.toList.drop head.length) else none
  let time (label : String) : NumberType := unnumbered ("datetime64" ++ label)
  let span (label : String) : NumberType := { family := .duration, bits := 64, label }
  (after "M8").map time <|> (after "m8").map span
    <|> (after "datetime64").map time <|> (after "timedelta64").map span

def isOrder (c : Char) : Bool := c == '<' || c == '>' || c == '=' || c == '|'

/-- The type with the order of bytes that a mark asks for. -/
def ordered (mark : Option Char) (t : NumberType) : NumberType :=
  if mark == some '>' then { t with native := t.bits ≤ 8 } else t

/-- The number type of a name or of a code, which may be headed by the order of bytes. -/
def ofName? (name : String) : Option NumberType :=
  let coded : Option NumberType := match name.toList with
    | [] => none
    | c :: cs => if isOrder c then (ofCode? cs).map (ordered (some c)) else ofCode? (c :: cs)
  ofTime? name <|> coded <|> named.lookup name

/-- Whether a name asks for a compound type: it starts with digits or an empty shape, or has a
    comma outside of square brackets. -/
def isCompound (name : String) : Bool :=
  let cs := name.toList
  let body := match cs with
    | c :: rest => if isOrder c then rest else cs
    | [] => cs
  let depths := cs.foldl (fun (depth, found) c =>
    match c with
    | '[' => (depth + 1, found)
    | ']' => (depth - 1, found)
    | ',' => (depth, found || depth == 0)
    | _ => (depth, found)) ((0 : Int), false)
  body.head?.any Char.isDigit || ['(', ')'].isPrefixOf body || depths.2

/-- A part of a compound type: how often it is repeated, if that is said, and its code. -/
structure Part where
  shape : List Char
  code : String

def readPart (cs : List Char) : Part × List Char :=
  let mark (cs : List Char) : Option Char × List Char :=
    match cs with
    | c :: rest => if isOrder c then (some c, rest) else (none, cs)
    | [] => (none, [])
  let optional (c : Char) (cs : List Char) : List Char × List Char :=
    if cs.head? == some c then ([c], cs.drop 1) else ([], cs)
  let span (p : Char → Bool) (cs : List Char) : List Char × List Char :=
    (cs.takeWhile p, cs.dropWhile p)
  let (first, cs) := mark cs
  let (_, cs) := span (· == ' ') cs
  let (opening, cs) := optional '(' cs
  let (counts, cs) := span (fun c => c == ' ' || c == ',' || c.isDigit) cs
  let (closing, cs) := optional ')' cs
  let (_, cs) := span (· == ' ') cs
  let (second, cs) := mark cs
  let (letters, cs) := span (fun c => c.isAlphanum || c == '.' || c == '?') cs
  let inner := (cs.drop 1).takeWhile fun c => c.isAlphanum || c == ',' || c == '.'
  let rest := (cs.drop 1).drop inner.length
  let (bracket, cs) :=
    if cs.head? == some '[' && rest.head? == some ']' then ('[' :: inner ++ [']'], rest.drop 1)
    else ([], cs)
  let order := if (second <|> first) == some '>' then ['>'] else []
  (⟨opening ++ counts ++ closing, String.ofList (order ++ letters ++ bracket)⟩, cs)

/-- Reads parts with commas between them; whether there is a comma comes with them. -/
def readParts : Nat → List Char → Option (List Part × Bool)
  | 0, _ => none
  | fuel + 1, cs =>
    let (part, rest) := readPart cs
    match rest.dropWhile Char.isWhitespace with
    | [] => some ([part], false)
    | ',' :: more =>
      match more.dropWhile Char.isWhitespace with
      | [] => some ([part], true)
      | more => (readParts fuel more).map fun (parts, _) => (part :: parts, true)
    | _ => none

/-- A compound type.  A single part that is not repeated is the type itself. -/
def ofParts (name : String) : Outcome NumberType :=
  match readParts (name.length + 1) name.toList with
  | none => misfit .wrongValue
  | some (parts, listed) =>
    match parts.mapM fun p => ofName? p.code with
    | none => misfit .wrongKind
    | some [t] =>
      let shape := (parts.head?.map (·.shape)).getD []
      if !listed && [[], ['1'], ['(', '1', ')'], ['(', ')']].contains shape then .ok t
      else .ok (unnumbered "void")
    | some _ => .ok (unnumbered "void")

def ofName (name : String) : Outcome NumberType :=
  match ofTime? name with
  | some t => .ok t
  | none =>
    if isCompound name then ofParts name
    else orMisfit (ofName? name) .wrongKind

/-- The C type of a number type; `given` is how the type was asked for. -/
def cType (given : String) (t : NumberType) : Outcome String :=
  match t.family, t.bits, t.native with
  | .real, 128, _ => .ok "long double"
  | .signed, 32, true => .ok "int"
  | .real, 32, _ => .ok "float"
  | .real, 64, _ => .ok "double"
  | .complex, 64, true => .ok "float _Complex"
  | .complex, 128, true => .ok "double _Complex"
  | _, _, _ => .error (.noCType given)

/-- The type of the real part; `given` is how the type was asked for. -/
def realType (given : String) (t : NumberType) : Outcome NumberType :=
  match t.family with
  | .real | .signed | .unsigned | .duration => .ok t
  | .complex => .ok { family := .real, bits := t.bits / 2 }
  | .bool | .other => .error (.noRealType given)

def format? (t : NumberType) : Option Machine.Format :=
  match t.family, t.bits with
  | .bool, _ => some .bool
  | .signed, bits => some (.word bits true)
  | .unsigned, bits => some (.word bits false)
  | .real, 16 => some .half
  | .real, 32 => some .single
  | .real, 64 => some .double
  | .real, _ => some .extended
  | .complex, 64 => some .complexSingle
  | .complex, _ => some .complexDouble
  | .duration, _ | .other, _ => none

end NumberType

def cTypeOf (name : String) : Outcome String := do (← NumberType.ofName name).cType name

/-- The type of the real part of a named number type. -/
def realTypeOf (name : String) : Outcome NumberType := do (← NumberType.ofName name).realType name

/-- A type of a kernel's signature. -/
inductive SignatureType where
  | named (name : String)
  | pointer (target : SignatureType)
  deriving DecidableEq

/-- The types of a kernel's parameters: element tensor, coefficients and constants, the
    coordinates, local entities and permutations. -/
def kernelSignature (scalar geometry : String) : Outcome (List SignatureType) := do
  let s ← NumberType.ofName scalar
  let g ← NumberType.ofName geometry
  let pointerTo (n : String) : SignatureType := .pointer (.named n)
  return [pointerTo s.name, pointerTo s.name, pointerTo s.name, pointerTo g.name,
    pointerTo "intc", pointerTo "uint8"]

end FormKernel.CText
