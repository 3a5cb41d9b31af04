/-! # JSON values

Whole numbers and floating-point numbers are kept apart, and an object keeps the order
in which its keys first appeared. -/

namespace FormKernel

inductive Json where
  | null
  | bool (b : Bool)
  | int (n : Int)
  | float (x : Float)
  | text (s : String)
  | list (items : List Json)
  | map (entries : List (String × Json))
  deriving Inhabited

/-- An insertion-ordered dictionary as a list of pairs. -/
abbrev Entries (α : Type) := List (String × α)

namespace Entries

def get? {α : Type} (es : Entries α) (key : String) : Option α := es.lookup key

/-- Sets the value at a key: in place if the key is there, at the end otherwise. -/
def put {α : Type} : Entries α → String → α → Entries α
  | [], key, value => [(key, value)]
  | (k, v) :: rest, key, value =>
    if k == key then (k, value) :: rest else (k, v) :: put rest key value

/-- Sets all the values of a second dictionary in its order. -/
def update {α : Type} (es fs : Entries α) : Entries α :=
  fs.foldl (fun acc kv => put acc kv.1 kv.2) es

end Entries

namespace Json

def get? : Json → String → Option Json
  | .map entries, key => Entries.get? entries key
  | _, _ => none

def isNull : Json → Bool
  | .null => true
  | _ => false

end Json

end FormKernel
