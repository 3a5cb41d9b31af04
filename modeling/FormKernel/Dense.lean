import FormKernel.Machine.Rounding

/-! # Dense arrays

A `Dense` array is a shape and its entries in row-major order.  `Entry` is an entry of
an array whose element type is only known when the array is read. -/

namespace FormKernel

/-- Number of entries of an array of the given shape. -/
def volume (shape : List Nat) : Nat := shape.foldl (· * ·) 1

/-- A dense array in row-major order. -/
structure Dense (α : Type) where
  shape : List Nat
  data : Array α
  deriving Inhabited

namespace Dense

def size {α : Type} (a : Dense α) : Nat := a.data.size

/-- Row-major strides of a shape. -/
def strides : List Nat → List Nat
  | [] => []
  | _ :: rest => volume rest :: strides rest

/-- Row-major position of an index. -/
def position (shape index : List Nat) : Nat :=
  ((strides shape).zip index).foldl (fun acc p => acc + p.1 * p.2) 0

def get? {α : Type} (a : Dense α) (index : List Nat) : Option α := a.data[position a.shape index]?

/-- Applies a function to every entry. -/
def map {α β : Type} (f : α → β) (a : Dense α) : Dense β := ⟨a.shape, a.data.map f⟩

/-- The sub-arrays along the first axis. -/
def rows {α : Type} (a : Dense α) : List (Dense α) :=
  match a.shape with
  | [] => []
  | n :: rest =>
    (List.range n).map fun i => ⟨rest, a.data.extract (i * volume rest) ((i + 1) * volume rest)⟩

def vector {α : Type} (xs : List α) : Dense α := ⟨[xs.length], xs.toArray⟩

def filled {α : Type} (shape : List Nat) (x : α) : Dense α :=
  ⟨shape, Array.replicate (volume shape) x⟩

end Dense

/-- An entry of an array, with its element type.  Half and extended precision are held in
    double precision. -/
inductive Entry where
  | half (x : Float)
  | extended (x : Float)
  | double (x : Float)
  | single (x : Float32)
  | complexDouble (re im : Float)
  | complexSingle (re im : Float32)
  | int (n : Int)
  | bool (b : Bool)
  | text (s : String)
  | none

namespace Entry

def kernelText : Entry → String
  | .half x => (Machine.Precision.half.decode x).text .shortest Decimal.Binary.shortest
  | .extended x => (Machine.Precision.extended.decode x).text .shortest Decimal.Binary.shortest
  | .double x => Decimal.sixteenText x
  | .single x => Decimal.shortestTextSingle x
  | .complexDouble re im => "(" ++ Decimal.sixteenText re ++ "+I*" ++ Decimal.sixteenText im ++ ")"
  | .complexSingle re im => Decimal.complexText (Decimal.decodeSingle re) (Decimal.decodeSingle im)
  | .int n => toString n
  | .bool b => if b then "True" else "False"
  | .text s => s
  | .none => "None"

/-- The equality that numbers have; a NaN differs from itself. -/
def equal : Entry → Entry → Bool
  | .half x, .half y | .extended x, .extended y | .double x, .double y => x == y
  | .single x, .single y => x == y
  | .complexDouble a b, .complexDouble c d => a == c && b == d
  | .complexSingle a b, .complexSingle c d => a == c && b == d
  | .int m, .int n => m == n
  | .bool a, .bool b => a == b
  | .text s, .text t => s == t
  | .none, .none => true
  | _, _ => false

end Entry

abbrev Values := Dense Entry

/-- Entries of an array of double-precision numbers. -/
def Values.ofFloats (a : Dense Float) : Values := a.map .double

end FormKernel
