import FormKernel.Kernel.Arith
import FormKernel.Kernel.Equality

/-! # Multi-indices and loop nests

A multi-index is a list of index expressions with the sizes of their ranges.  Its position
is the row-major flattening: the last index runs fastest.  `nestedLoops` wraps a body into
one loop per index. -/

namespace FormKernel.Kernel

/-- Index expressions with the sizes of their ranges, and the position they stand for. -/
structure MultiIndex where
  tag : Tag
  symbols : List Expr
  sizes : List Int
  flat : Expr

namespace MultiIndex

def toExpr (m : MultiIndex) : Expr := .multiIndex m.tag m.symbols m.sizes m.flat

def ofExpr? : Expr → Option MultiIndex
  | .multiIndex tag symbols sizes flat => some ⟨tag, symbols, sizes, flat⟩
  | _ => none

/-- Product of sizes.  Sizes are multiplied as 64-bit words; where some are signed and others
    only fit as unsigned words they meet as floating-point numbers, and larger ones are plain. -/
def sizeProduct (sizes : List Int) : Numeral :=
  match sizes.map fun n => Initial.elementOf (.int n) with
  | [] => .machine (.double 1.0)
  | t :: ts =>
    match ts.foldl Initial.Element.join t with
    | .word signed =>
      .machine (.word 64 signed (sizes.foldl (fun m n => Machine.wrap 64 signed (m * n)) 1))
    | .double =>
      .machine (.double (sizes.foldl (fun x n => x * (Machine.floatOfInt? n).getD 0.0) 1.0))
    | _ => .int (sizes.foldl (· * ·) 1)

/-- The terms of the row-major position: each index times the product of the sizes behind
    its own. -/
def terms : List Operand → List Int → Outcome (List Expr)
  | o :: _, [_] => do
    return [← Expr.mul (.int (.int 1)) (← o.toExpr)]
  | o :: os, _ :: rest => do
    let term ← (← ArithOp.mul.apply (.number (sizeProduct rest)) o).toExpr
    return term :: (← terms os rest)
  | _, _ => .ok []

/-- A multi-index over whole-number expressions. -/
def of (symbols : List Operand) (sizes : List Int) (tag : Tag := 0) : Outcome MultiIndex := do
  let exprs ← symbols.mapM Operand.toExpr
  require (exprs.all fun e => e.dtype == some .int)
  if sizes.isEmpty then return ⟨tag, exprs, sizes, .int (.int 0)⟩
  let ts ← terms symbols sizes
  return ⟨tag, exprs, sizes, ← Expr.ofNary .sum ts⟩

def ofExprs (symbols : List Expr) (sizes : List Int) (tag : Tag := 0) : Outcome MultiIndex :=
  of (symbols.map .expr) sizes tag

/-- How many positions there are. -/
def size (m : MultiIndex) : Numeral := sizeProduct m.sizes

/-- The index expression at a place; places may be counted from the end. -/
def localIndex (m : MultiIndex) (i : Int) : Outcome Expr := do
  require (i < m.symbols.length)
  let place := if i < 0 then i + m.symbols.length else i
  if place < 0 then misfit .outOfRange
  orMisfit m.symbols[place.toNat]? .outOfRange

/-- The index expressions with their sizes. -/
def pairs (m : MultiIndex) : List (Expr × Int) := m.symbols.zip m.sizes

/-- Where an index expression stands. -/
def place? (m : MultiIndex) (e : Expr) : Option Nat := m.symbols.findIdx? (·.equal true e)

/-- Fails unless an index has the given size at its place. -/
def checkSize (m : MultiIndex) (place : Nat) (size : Int) : Outcome Unit :=
  match m.sizes[place]? with
  | some n => require (n == size)
  | none => misfit .outOfRange

/-- The indices that are in both, which must agree in size. -/
def intersection (a b : MultiIndex) (tag : Tag := 0) : Outcome MultiIndex := do
  let kept ← a.pairs.filterM fun (e, n) =>
    match b.place? e with
    | some i => do
      b.checkSize i n
      return true
    | none => pure false
  ofExprs (kept.map (·.1)) (kept.map (·.2)) tag

/-- The indices of the first and those of the second that are new; common ones must agree in
    size. -/
def union (a b : MultiIndex) (tag : Tag := 0) : Outcome MultiIndex := do
  let (symbols, sizes) ← b.pairs.foldlM (fun (symbols, sizes) (e, n) =>
    match symbols.findIdx? (fun (s : Expr) => s.equal true e) with
    | some i => do
      MultiIndex.checkSize ⟨0, symbols, sizes, default⟩ i n
      return (symbols, sizes)
    | none => pure (symbols ++ [e], sizes ++ [n])) (a.symbols, a.sizes)
  ofExprs symbols sizes tag

/-- The indices of the first that are not in the second. -/
def difference (a b : MultiIndex) (tag : Tag := 0) : Outcome MultiIndex :=
  let kept := a.pairs.filter fun (e, _) => (b.place? e).isNone
  ofExprs (kept.map (·.1)) (kept.map (·.2)) tag

end MultiIndex

/-- The loops of a nest from the outside in, with the index and upper bound of each. -/
def loopRanges (indices : List MultiIndex) : Outcome (List (Expr × Int)) := do
  let all ← indices.mapM fun m =>
    (m.sizes.zipIdx).mapM fun (n, i) => return (← m.localIndex i, n)
  return all.flatten

/-- Wraps a body into one loop per range, the first outermost. -/
def wrapLoops : List (Expr × Int) → Operand → Outcome Operand
  | [], body => .ok body
  | (index, n) :: rest, body => do
    let inner ← wrapLoops rest body
    return .stmt (← Stmt.ofLoop index (.int 0) (.int n) [inner])

/-- A nest of one loop per index of each multi-index around a body. -/
def nestedLoops (indices : List MultiIndex) (body : Operand) : Outcome Operand := do
  wrapLoops (← loopRanges indices) body

end FormKernel.Kernel
