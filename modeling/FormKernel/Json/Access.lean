import FormKernel.Dense
import FormKernel.Json.Reader

/-! # Access to JSON values

Readers for the parts of JSON values that do not fail: what is missing or of another kind is
read as null, an empty list, an empty text or zero. -/

namespace FormKernel.Json

/-- The member of an object, null if it is missing. -/
def field (j : Json) (key : String) : Json := (j.get? key).getD .null

instance : GetElem Json String Json fun _ _ => True := ⟨fun j key _ => j.field key⟩

/-- The member of an object or another value. -/
def atOr (j : Json) (key : String) (other : Json) : Json := (j.get? key).getD other

def items : Json → List Json
  | .list xs => xs
  | _ => []

def entries : Json → Entries Json
  | .map es => es
  | _ => []

/-- The pairs of a list of pairs of a name and a value. -/
def pairs (j : Json) : Entries Json :=
  j.items.filterMap fun
    | .list [.text name, v] => some (name, v)
    | _ => none

def toText : Json → String
  | .text s => s
  | _ => ""

def text? : Json → Option String
  | .text s => some s
  | _ => none

/-- A floating-point number; those that JSON cannot write are written as texts. -/
def toFloat : Json → Float
  | .float x => x
  | .int n => Float.ofInt n
  | .bool b => if b then 1.0 else 0.0
  | .text "nan" => 0.0 / 0.0
  | .text "inf" => 1.0 / 0.0
  | .text "-inf" => -1.0 / 0.0
  | .text "-0.0" => -0.0
  | .text s =>
    match Json.parse? s with
    | some (.float x) => x
    | some (.int n) => Float.ofInt n
    | _ => 0.0 / 0.0
  | _ => 0.0

/-- A whole number, if there is one. -/
def int? : Json → Option Int
  | .int n => some n
  | .bool b => some (if b then 1 else 0)
  | _ => none

def toInt : Json → Int
  | .float x => if x < 0 then -((-x).toUInt64.toNat : Int) else (x.toUInt64.toNat : Int)
  | j => j.int?.getD 0

def toNat (j : Json) : Nat := j.toInt.toNat

/-- Whether a value counts as true: everything does but nothing, zero, and what is empty. -/
def toBool : Json → Bool
  | .null => false
  | .bool b => b
  | .int n => n != 0
  | .float x => x != 0.0
  | .text s => !s.isEmpty
  | .list items => !items.isEmpty
  | .map entries => !entries.isEmpty

def toNats (j : Json) : List Nat := j.items.map toNat

def toInts (j : Json) : List Int := j.items.map toInt

def toNatLists (j : Json) : List (List Nat) := j.items.map toNats

def shape : Json → List Nat
  | .list [] => [0]
  | .list (x :: xs) => (xs.length + 1) :: shape x
  | _ => []

def leaves : Json → List Json
  | .list xs => xs.flatMap leaves
  | j => [j]

mutual

/-- How deep a value is nested. -/
def depth : Json → Nat
  | .list xs => depthOf xs + 1
  | .map es => depthIn es + 1
  | _ => 1

/-- How deep the values of a list are nested. -/
def depthOf : List Json → Nat
  | [] => 0
  | x :: xs => max (depth x) (depthOf xs)

/-- How deep the members of an object are nested. -/
def depthIn : List (String × Json) → Nat
  | [] => 0
  | (_, x) :: es => max (depth x) (depthIn es)

end

/-- An array: nested lists, or an object with a shape and the entries in order, which may be
    stored in single precision. -/
def toDense (j : Json) : Dense Float :=
  match j with
  | .map _ =>
    let stored (x : Float) : Float :=
      if j["dtype"].toText == "float32" then x.toFloat32.toFloat else x
    ⟨j["shape"].toNats, (j["data"].items.map (stored ∘ toFloat)).toArray⟩
  | j => ⟨j.shape, (j.leaves.map toFloat).toArray⟩

def ofTexts (ss : List String) : Json := .list (ss.map .text)

/-- Whole numbers as a value. -/
def ofInts (ns : List Int) : Json := .list (ns.map .int)

/-- Natural numbers as a value. -/
def ofNats (ns : List Nat) : Json := .list (ns.map fun (n : Nat) => .int n)

def ofText? : Option String → Json
  | some s => .text s
  | none => .null

def ofEntry : Entry → Json
  | .half x | .extended x | .double x => .float x
  | .single x => .float x.toFloat
  | .complexDouble re im => .list [.text "complex", .float re, .float im]
  | .complexSingle re im => .list [.text "complex", .float re.toFloat, .float im.toFloat]
  | .int n => .int n
  | .bool b => .bool b
  | .text s => .text s
  | .none => .null

/-- An array as its shape and its entries. -/
def ofValues (v : Values) : Json :=
  .map [("shape", ofNats v.shape), ("data", .list (v.data.toList.map ofEntry))]

/-- An array of numbers as its shape and its entries. -/
def ofDense (a : Dense Float) : Json := ofValues (Values.ofFloats a)

end FormKernel.Json
