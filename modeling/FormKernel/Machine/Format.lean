import FormKernel.Fault

/-! # Number formats of the machine

Truth values, words of a fixed number of bits, floating-point numbers and pairs of them for
complex numbers.  `Format.join` is the format in which two numbers meet: the narrowest one that
is meant to hold the values of both. -/

namespace FormKernel.Machine

inductive Format where
  | bool
  | word (bits : Nat) (signed : Bool)
  | half
  | single
  | double
  | extended
  | complexSingle
  | complexDouble
  deriving DecidableEq

/-- The word of the given format congruent to `n`. -/
def wrap (bits : Nat) (signed : Bool) (n : Int) : Int :=
  if signed then Int.bmod n (Nat.pow 2 bits) else n % (Nat.pow 2 bits : Nat)

/-- Whether a number is a word of the given format. -/
def fits (bits : Nat) (signed : Bool) (n : Int) : Bool := wrap bits signed n == n

namespace Format

def name : Format → String
  | .bool => "bool"
  | .word bits signed => (if signed then "int" else "uint") ++ toString bits
  | .half => "float16"
  | .single => "float32"
  | .double => "float64"
  | .extended => "longdouble"
  | .complexSingle => "complex64"
  | .complexDouble => "complex128"

/-- The words that hold those of two formats.  None hold both 64-bit signed and unsigned ones:
    these meet as floating-point numbers. -/
def joinWords (b₁ : Nat) (s₁ : Bool) (b₂ : Nat) (s₂ : Bool) : Format :=
  if s₁ == s₂ then .word (max b₁ b₂) s₁
  else
    let (u, s) := if s₁ then (b₂, b₁) else (b₁, b₂)
    if u < s then .word s true
    else if u < 64 then .word (2 * u) true
    else .double

/-- How wide the floating-point numbers have to be that hold words: the rank counts half,
    single, double and extended precision. -/
def rank : Format → Nat
  | .bool => 0
  | .word bits _ => if bits ≤ 8 then 0 else if bits ≤ 16 then 1 else 2
  | .half => 0
  | .single | .complexSingle => 1
  | .double | .complexDouble => 2
  | .extended => 3

/-- Whether numbers of the format have an imaginary part. -/
def isComplex : Format → Bool
  | .complexSingle | .complexDouble => true
  | _ => false

/-- Floating-point numbers of a rank. -/
def ofRank (rank : Nat) (complex : Bool) : Format :=
  match complex, rank with
  | false, 0 => .half
  | false, 1 => .single
  | false, 2 => .double
  | false, _ => .extended
  | true, 0 | true, 1 => .complexSingle
  | true, _ => .complexDouble

/-- The format in which numbers of two formats meet. -/
def join : Format → Format → Format
  | .bool, f => f
  | f, .bool => f
  | .word b₁ s₁, .word b₂ s₂ => joinWords b₁ s₁ b₂ s₂
  | f, g => ofRank (max f.rank g.rank) (f.isComplex || g.isComplex)

end Format

end FormKernel.Machine
