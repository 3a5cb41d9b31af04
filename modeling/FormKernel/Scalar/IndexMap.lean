import FormKernel.Form.Expr
import FormKernel.Table.Closeness

/-! # Components of indexed expressions

The scalar components of an expression with a shape and free indices are numbered in row-major
order, the shape first.  Indexing a tensor and building a tensor rearrange components; the maps
here say where each component comes from. -/

namespace FormKernel.Scalar

open Form (Expr Index)
open Table (indicesOf)

/-- The place of an index among free indices. -/
def placeOf (indices : List Int) (i : Int) : Outcome Nat :=
  orMisfit (indices.findIdx? (· == i)) .wrongValue

def itemAt {α : Type} (xs : List α) (k : Nat) : Outcome α := orMisfit xs[k]? .outOfRange

/-- The row-major number of an index, all of whose parts must be known. -/
def flatten (strides : List Nat) (index : List (Option Int)) : Outcome Int :=
  (index.zip strides).foldlM (fun acc (i, s) =>
    match i with
    | some i => .ok (acc + i * s)
    | none => misfit .wrongKind) 0

def allDifferent (xs : List Int) : Bool := (Form.distinct xs).length == xs.length

/-- The total shape of an expression: its shape and the ranges of its free indices. -/
def totalShape (e : Expr) : List Nat := e.shape ++ e.indexDims

def operandPair (e : Expr) : Outcome (Expr × Expr) :=
  match e.operands with
  | [a, b] => .ok (a, b)
  | _ => misfit .wrongValue

def indicesIn (e : Expr) : Outcome (List Index) := orMisfit e.indices? .wrongKind

/-- For each component of an indexed tensor, the component of the tensor. -/
def indexedComponents (e : Expr) : Outcome (List Int) := do
  require (e.head == .operator .indexed)
  let (tensor, multi) ← operandPair e
  require e.shape.isEmpty
  require (!tensor.shape.isEmpty)
  require (volume (totalShape e) ≤ volume (totalShape tensor))
  let bound ← tensor.freeIndices.mapM (placeOf e.freeIndices)
  let indices ← indicesIn multi
  let places ← indices.mapM fun
    | .fixed n => pure (Sum.inl n)
    | .free c => do pure (Sum.inr (← placeOf e.freeIndices c))
  require (tensor.shape.length == indices.length)
  let strides := Dense.strides (totalShape tensor)
  let found ← (indicesOf (totalShape e)).mapM fun p => do
    let own ← places.mapM fun
      | .inl (n : Int) => pure n
      | .inr k => do let (i : Nat) ← itemAt p k; pure (i : Int)
    let outer ← bound.mapM fun k => do let (i : Nat) ← itemAt p k; pure (i : Int)
    if outer.length > tensor.indexDims.length then misfit .outOfRange
    let missing := List.replicate (tensor.indexDims.length - outer.length) none
    flatten strides ((own ++ outer).map some ++ missing)
  require (allDifferent found)
  return found

/-- Puts a part of an index at its place. -/
def fillPart (rank : Nat) (index : List (Option Int)) (part : Nat × Option Nat) :
    Outcome (List (Option Int)) :=
  match part.2 with
  | none => misfit .wrongKind
  | some k =>
    if k < rank then .ok (index.set k (some (part.1 : Int))) else misfit .outOfRange

/-- For each component of a tensor built from a scalar with free indices, the component of the
    scalar. -/
def tensorComponents (e : Expr) : Outcome (List Int) := do
  require (e.head == .operator .componentTensor)
  let (scalar, multi) ← operandPair e
  let indices ← indicesIn multi
  let free := indices.filter (!·.isFixed)
  let inner := scalar.freeIndices
  require scalar.shape.isEmpty
  require (!e.shape.isEmpty)
  require (free.length == indices.length)
  require (volume (totalShape scalar) == volume (totalShape e))
  require (!inner.isEmpty)
  require (e.freeIndices.all inner.contains)
  require (indices.length == e.shape.length)
  let outer ← e.freeIndices.mapM (placeOf inner)
  if outer.length > e.indexDims.length then misfit .outOfRange
  let own ← free.mapM fun i => placeOf inner i.number
  let strides := Dense.strides (totalShape scalar)
  let rank := (totalShape scalar).length
  let found ← (indicesOf (totalShape e)).mapM fun p => do
    let places := (own ++ outer).map some ++ List.replicate (e.indexDims.length - outer.length) none
    flatten strides (← (p.zip places).foldlM (fillPart rank) (List.replicate rank none))
  require (allDifferent found)
  return found

end FormKernel.Scalar
