import FormKernel.Table.Closeness

/-! # Kinds of tables

A table has axes for permutations, entities, points and degrees of freedom.  Its kind says
along which of them it is constant: `zeros`, `ones`, the identity between points and
degrees of freedom (`quadrature`), the same for all points (`piecewise`), for all entities
(`uniform`), for both (`fixed`) or for neither (`varying`). -/

namespace FormKernel.Table

inductive TableKind where
  | zeros | ones | quadrature | fixed | piecewise | uniform | varying
  deriving DecidableEq

namespace TableKind

def all : List TableKind := [.zeros, .ones, .quadrature, .fixed, .piecewise, .uniform, .varying]

def name : TableKind → String
  | .zeros => "zeros"
  | .ones => "ones"
  | .quadrature => "quadrature"
  | .fixed => "fixed"
  | .piecewise => "piecewise"
  | .uniform => "uniform"
  | .varying => "varying"

def ofName? (name : String) : Option TableKind := all.find? (fun k => k.name == name)

/-- Whether a table of this kind is the same for all points. -/
def isPiecewise : TableKind → Bool
  | .piecewise | .fixed | .ones | .zeros => true
  | _ => false

/-- Whether a table of this kind is the same for all entities. -/
def isUniform : TableKind → Bool
  | .fixed | .ones | .zeros | .uniform => true
  | _ => false

end TableKind

/-- The part of an array whose first index is fixed and whose other axes are those listed:
    `none` keeps an axis, `some i` fixes its index. -/
def slice (a : Dense Float) (fixed : List (Option Nat)) : Outcome (List Float) := do
  if fixed.length > a.shape.length then misfit .outOfRange
  let fixed := fixed ++ List.replicate (a.shape.length - fixed.length) none
  let axes ← (fixed.zip a.shape).mapM fun
    | (some i, n) => if i < n then pure [i] else misfit .outOfRange
    | (none, n) => pure (List.range n)
  let indices := axes.foldr (fun axis rest => axis.flatMap fun i => rest.map (i :: ·)) [[]]
  return indices.map fun i => (a.get? i).getD 0.0

def axisLength (a : Dense Float) (axis : Nat) : Outcome Nat := orMisfit a.shape[axis]? .outOfRange

/-- Whether all slices along an axis are close to the first. -/
def sameSlices (c : Comparison) (count : Nat) (part : Nat → Outcome (List Float)) : Outcome Bool :=
  let rec go : List Nat → Outcome Bool
    | [] => .ok true
    | i :: rest => do
      if allClose c (← part 0) (← part (i + 1)) then go rest else return false
  go (List.range (count - 1))

/-- Whether a table is empty or all its values are close to zero. -/
def isZeros (c : Comparison) (a : Dense Float) : Bool :=
  volume a.shape == 0 || a.data.all fun x => c.close x 0.0

/-- Whether all values are close to one. -/
def isOnes (c : Comparison) (a : Dense Float) : Bool := a.data.all fun x => c.close x 1.0

/-- The entries of an identity matrix in row-major order. -/
def identity (n : Nat) : List Float :=
  (List.range n).flatMap fun i => (List.range n).map fun j => if i == j then 1.0 else 0.0

/-- Whether a table is the identity between points and degrees of freedom on each entity. -/
def isQuadrature (c : Comparison) (a : Dense Float) : Outcome Bool := do
  match a.shape with
  | [_, entities, points, dofs] =>
    if points != dofs then return false
    let rec go : List Nat → Outcome Bool
      | [] => .ok true
      | i :: rest => do
        if allClose c (← slice a [some 0, some i]) (identity points) then go rest else return false
    go (List.range entities)
  | _ => misfit .wrongValue

def isPermuted (c : Comparison) (a : Dense Float) : Outcome Bool := do
  let n ← axisLength a 0
  if n > 1 && a.shape.length < 4 then misfit .outOfRange
  return !(← sameSlices c n fun i => slice a [some i])

/-- Whether a table is the same for all points. -/
def isPiecewiseTable (c : Comparison) (a : Dense Float) : Outcome Bool := do
  let n ← axisLength a 2
  if n > 1 && a.shape.length < 4 then misfit .outOfRange
  sameSlices c n fun i => slice a [some 0, none, some i]

/-- Whether a table is the same for all entities. -/
def isUniformTable (c : Comparison) (a : Dense Float) : Outcome Bool := do
  let n ← axisLength a 1
  if n > 1 && a.shape.length < 4 then misfit .outOfRange
  sameSlices c n fun i => slice a [some 0, some i]

def TableKind.of (c : Comparison) (a : Dense Float) : Outcome TableKind := do
  if isZeros c a then return .zeros
  if isOnes c a then return .ones
  if ← isQuadrature c a then return .quadrature
  let piecewise ← isPiecewiseTable c a
  let uniform ← isUniformTable c a
  return match piecewise, uniform with
    | true, true => .fixed
    | true, false => .piecewise
    | false, true => .uniform
    | false, false => .varying

/-- Moves values that are close to one of the numbers to it. -/
def clamp (t : Tolerance) (numbers : List Float) (a : Dense Float) : Dense Float :=
  numbers.foldl (fun a n => a.map fun x => if isClose t x n then n else x) a

/-- Whether two tables have one shape and close values. -/
def equalTables (c : Comparison) (a b : Dense Float) : Bool :=
  a.shape == b.shape && allClose c a.data.toList b.data.toList

/-! ## References to tables

What a kernel needs to know of the table of a terminal: its name and values, where the degrees
of freedom of the terminal start and how far apart they lie, and along which axes the table is
constant.  A table on a product cell may be the product of factors. -/

structure TableFactor where
  name : String
  values : Dense Float

structure TableRef where
  name : String
  values : Dense Float
  offset : Nat := 0
  blockSize : Nat := 1
  kind : TableKind := .varying
  piecewise : Bool := kind.isPiecewise
  uniform : Bool := kind.isUniform
  permuted : Bool := false
  factors : Option (List TableFactor) := none
  deriving Inhabited

end FormKernel.Table
