import FormKernel.Dense
import FormKernel.Fault

/-! # Closeness of numbers and arrays

Two numbers are close when they differ by no more than an absolute tolerance plus a
tolerance relative to the second; a NaN is close to nothing. -/

namespace FormKernel.Table

structure Tolerance where
  relative : Float
  absolute : Float

def tableTolerance : Tolerance := ⟨1e-6, 1e-9⟩

def pointTolerance : Tolerance := ⟨1e-5, 1e-8⟩

def isClose (t : Tolerance) (a b : Float) : Bool :=
  (b.isFinite && (a - b).abs ≤ t.absolute + t.relative * b.abs) || a == b

/-- A way to decide whether two numbers count as equal. -/
structure Comparison where
  close : Float → Float → Bool

instance : Coe Tolerance Comparison := ⟨fun t => ⟨isClose t⟩⟩

/-- Whether lists of equal length are close entry by entry. -/
def allClose (c : Comparison) (xs ys : List Float) : Bool :=
  (xs.zip ys).all fun (x, y) => c.close x y

/-- The common shape of two arrays: shapes are aligned at their ends, and an axis of
    length one stretches. -/
def broadcastShape (a b : List Nat) : Option (List Nat) :=
  let rec go : List Nat → List Nat → Option (List Nat)
    | [], bs => some bs
    | as, [] => some as
    | a :: as, b :: bs => do
      let rest ← go as bs
      if a == b then some (a :: rest)
      else if a == 1 then some (b :: rest)
      else if b == 1 then some (a :: rest)
      else none
  (go a.reverse b.reverse).map List.reverse

/-- All indices of a shape in row-major order. -/
def indicesOf : List Nat → List (List Nat)
  | [] => [[]]
  | n :: rest => (List.range n).flatMap fun i => (indicesOf rest).map (i :: ·)

/-- The entry of an array stretched to a larger shape. -/
def stretchedEntry (a : Dense Float) (index : List Nat) : Float :=
  let own := index.drop (index.length - a.shape.length)
  let own := (a.shape.zip own).map fun (n, i) => if n == 1 then 0 else i
  (a.get? own).getD 0.0

/-- Whether two arrays are close after stretching them to a common shape. -/
def arraysClose (t : Tolerance) (a b : Dense Float) : Outcome Bool :=
  match broadcastShape a.shape b.shape with
  | none => misfit .wrongValue
  | some shape => .ok ((indicesOf shape).all fun i =>
      isClose t (stretchedEntry a i) (stretchedEntry b i))

end FormKernel.Table
