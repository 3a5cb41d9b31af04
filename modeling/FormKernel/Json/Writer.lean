import FormKernel.Decimal.Layout
import FormKernel.Json.Basic
import FormKernel.Text.Quoted

/-! # Writing JSON text

Texts are written in ASCII, numbers by the fewest digits that read back.  Numbers that JSON
cannot write are written as texts. -/

namespace FormKernel.Json

/-- Four hexadecimal digits after the mark of an escape. -/
def unitEscape (n : Nat) : String :=
  let digits := Nat.toDigits 16 n
  "\\u" ++ String.ofList (List.replicate (4 - digits.length) '0' ++ digits)

def charText (c : Char) : String :=
  let n := c.toNat
  if c == '"' then "\\\""
  else if c == '\\' then "\\\\"
  else if 0x20 ≤ n && n < 0x7f then c.toString
  else if n < 0x10000 then unitEscape n
  else unitEscape (0xD800 + (n - 0x10000) / 0x400) ++ unitEscape (0xDC00 + (n - 0x10000) % 0x400)

def textText (s : String) : String := "\"" ++ String.join (s.toList.map charText) ++ "\""

def floatText (x : Float) : String :=
  match Decimal.decode x with
  | .nan => "\"nan\""
  | .infinite negative => if negative then "\"-inf\"" else "\"inf\""
  | _ => Decimal.shortestText x

mutual

def render : Json → String
  | .null => "null"
  | .bool b => if b then "true" else "false"
  | .int n => toString n
  | .float x => floatText x
  | .text s => textText s
  | .list items => "[" ++ ",".intercalate (renderItems items) ++ "]"
  | .map entries => "\x7b" ++ ",".intercalate (renderEntries entries) ++ "\x7d"

def renderItems : List Json → List String
  | [] => []
  | x :: xs => render x :: renderItems xs

def renderEntries : List (String × Json) → List String
  | [] => []
  | (k, v) :: es => (textText k ++ ":" ++ render v) :: renderEntries es

end

end FormKernel.Json
