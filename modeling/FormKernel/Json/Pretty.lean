import FormKernel.Decimal.Layout
import FormKernel.Json.Basic
import FormKernel.Text.Quoted

/-! # Values laid out for reading

A value that fits into the width is written on one line.  Otherwise each item of a list and each
entry of an object, in the order of their keys, has lines of its own, and a long text is broken
after blanks. -/

namespace FormKernel.Json

/-- Entries in the order of their keys. -/
def sortEntries (es : List (String × String)) : List (String × String) :=
  es.mergeSort fun a b => decide (a.1 ≤ b.1)

mutual

/-- A value on one line; the entries of objects may be sorted. -/
def literal (v : Json) (sorted : Bool := true) : String :=
  match v with
  | .null => "None"
  | .bool b => if b then "True" else "False"
  | .int n => toString n
  | .float x => Decimal.shortestText x
  | .text s => Text.quoted s
  | .list items => Text.inSquares (literals sorted items)
  | .map entries =>
    let es := literalEntries sorted entries
    let parts := (if sorted then sortEntries es else es).map fun (k, v) =>
      Text.quoted k ++ ": " ++ v
    "\x7b" ++ ", ".intercalate parts ++ "\x7d"

def literals (sorted : Bool) : List Json → List String
  | [] => []
  | x :: xs => literal x sorted :: literals sorted xs

def literalEntries (sorted : Bool) : List (String × Json) → List (String × String)
  | [] => []
  | (k, v) :: es => (k, literal v sorted) :: literalEntries sorted es

end

/-- The text of a value: a text stands for itself. -/
def plain : Json → String
  | .text s => s
  | v => v.literal false

def endsLine (c : Char) : Bool :=
  let n := c.toNat
  (10 ≤ n && n ≤ 13) || (28 ≤ n && n ≤ 30) || n == 0x85 || n == 0x2028 || n == 0x2029

/-- The lines of a text with their ends. -/
def lines : List Char → List (List Char)
  | [] => []
  | '\r' :: '\n' :: rest => ['\r', '\n'] :: lines rest
  | c :: rest =>
    if endsLine c then [c] :: lines rest
    else
      match lines rest with
      | [] => [[c]]
      | l :: ls => (c :: l) :: ls

/-- The words of a line, each with the blanks behind it. -/
def words : List Char → List (List Char)
  | [] => []
  | c :: rest =>
    match words rest with
    | [] => [[c]]
    | w :: ws =>
      match rest with
      | d :: _ => if Text.isSpace c && !Text.isSpace d then [c] :: w :: ws else (c :: w) :: ws
      | [] => [[c]]

/-- Words joined to pieces that fit into a width; the last piece has less room by `allowance`. -/
def pieces (width : Int) (allowance : Nat) (lastLine : Bool) :
    List (List Char) → List Char → List String
  | [], current => if current.isEmpty then [] else [Text.quoted (String.ofList current)]
  | w :: ws, current =>
    let candidate := current ++ w
    let width' := if ws.isEmpty && lastLine then width - allowance else width
    if (Text.quoted (String.ofList candidate)).length > width' then
      (if current.isEmpty then [] else [Text.quoted (String.ofList current)]) ++
        pieces width allowance lastLine ws w
    else pieces width allowance lastLine ws candidate

def textPieces (width : Int) (allowance : Nat) : List (List Char) → List String
  | [] => []
  | l :: ls =>
    let width' := if ls.isEmpty then width - allowance else width
    let whole := Text.quoted (String.ofList l)
    (if whole.length ≤ width' then [whole] else pieces width allowance ls.isEmpty (words l) []) ++
      textPieces width allowance ls

/-- A long text, broken into pieces below each other. -/
def textLayout (width indent allowance : Nat) (s : String) : String :=
  if s.isEmpty then Text.quoted s
  else
    let ls := lines s.toList
    match textPieces ((width : Int) - indent) allowance ls with
    | [_] => Text.quoted (String.ofList (ls.getLastD []))
    | parts => ("\n" ++ String.ofList (List.replicate indent ' ')).intercalate parts

mutual

/-- A value whose first line starts at a column and whose last line leaves room. -/
def layout (width indent allowance : Nat) : Json → String
  | .list items =>
    let whole := literal (.list items)
    if (whole.length : Int) ≤ (width : Int) - indent - allowance then whole
    else "[" ++ (",\n" ++ String.ofList (List.replicate (indent + 1) ' ')).intercalate
      (layoutItems width (indent + 1) (allowance + 1) items) ++ "]"
  | .map entries =>
    let whole := literal (.map entries)
    if (whole.length : Int) ≤ (width : Int) - indent - allowance then whole
    else
      let last := (entries.map (·.1)).foldl (fun a b => if a ≤ b then b else a) ""
      let parts := sortEntries (layoutEntries width (indent + 1) (allowance + 1) last entries)
      "\x7b" ++ (",\n" ++ String.ofList (List.replicate (indent + 1) ' ')).intercalate
        (parts.map (·.2)) ++ "\x7d"
  | .text s =>
    let whole := Text.quoted s
    if (whole.length : Int) ≤ (width : Int) - indent - allowance then whole
    else textLayout width indent allowance s
  | v => literal v

def layoutItems (width indent allowance : Nat) : List Json → List String
  | [] => []
  | [x] => [layout width indent allowance x]
  | x :: xs => layout width indent 1 x :: layoutItems width indent allowance xs

/-- The entries of an object with their keys; the entry of the last key leaves room. -/
def layoutEntries (width indent allowance : Nat) (last : String) :
    List (String × Json) → List (String × String)
  | [] => []
  | (k, v) :: es =>
    let key := Text.quoted k
    (k, key ++ ": " ++
      layout width (indent + key.length + 2) (if k == last then allowance else 1) v) ::
      layoutEntries width indent allowance last es

end

/-- A value laid out in lines of eighty characters. -/
def pretty (v : Json) : String := layout 80 0 0 v

end FormKernel.Json
