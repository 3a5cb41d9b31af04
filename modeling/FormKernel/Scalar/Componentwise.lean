import FormKernel.Scalar.IndexMap

/-! # Operators on scalar components

An operator on tensors or on scalars with free indices, carried out on the scalar components of
its operands: the result is the list of its own scalar components. -/

namespace FormKernel.Scalar

open Form (Builder Expr Operator)
open Table (indicesOf)

/-- The first component of each operand. -/
def firsts (ops : List (List Expr)) : Outcome (List Expr) := ops.mapM fun op => itemAt op 0

def scalarNode [Builder] (op : Operator) (e : Expr)
    (ops : List (List Expr)) : Outcome (List Expr) := do
  if !e.shape.isEmpty then throw .expectedScalar
  return [Builder.build op (← firsts ops)]

def condition [Builder] (op : Operator) (ops : List (List Expr)) : Outcome (List Expr) := do
  return [Builder.build op (← firsts ops)]

/-- A choice between components by one condition. -/
def conditional [Builder] (op : Operator) (ops : List (List Expr)) : Outcome (List Expr) := do
  let yes ← itemAt ops 1
  let first ← itemAt ops 0
  if first.length != 1 then throw .scalarCondition
  let no ← itemAt ops 2
  if yes.length != no.length then throw .unequalBranches
  let c ← itemAt first 0
  return List.zipWith (fun a b => Builder.build op [c, a, b]) yes no

/-- An operator on each component. -/
def unary [Builder] (op : Operator) (ops : List (List Expr)) : Outcome (List Expr) := do
  if ops.length > 1 then throw .expectedUnary
  return (← itemAt ops 0).map fun a => Builder.build op [a]

def division [Builder] (op : Operator) (ops : List (List Expr)) : Outcome (List Expr) :=
  match ops with
  | [as, bs] =>
    match bs with
    | [b] => .ok (as.map fun a => Builder.build op [a, b])
    | _ => .error .scalarDivisor
  | _ => .error .expectedTwoOperands

def sum [Builder] (op : Operator) (ops : List (List Expr)) : Outcome (List Expr) :=
  match ops with
  | [as, bs] =>
    if as.length != bs.length then .error .scalarDivisor
    else .ok (List.zipWith (fun a b => Builder.build op [a, b]) as bs)
  | _ => .error .expectedTwoOperands

/-- The number of the component of a factor that goes into a component of a product. -/
def factorComponent (places : List Nat) (strides : List Nat) (index : List Nat) :
    Outcome Nat := do
  let own ← places.mapM (itemAt index)
  return (own.zip strides).foldl (fun n (i, s) => n + i * s) 0

/-- A product, whose free indices are those of its factors. -/
def product [Builder] (e : Expr) (ops : List (List Expr)) : Outcome (List Expr) := do
  match ops with
  | [as, bs] =>
    match as, bs with
    | [a], _ => return bs.map (Expr.product a)
    | _, [b] => return as.map fun a => Expr.product a b
    | _, _ =>
      let (left, right) ← operandPair e
      let strides0 := Dense.strides left.indexDims
      let strides1 := Dense.strides right.indexDims
      let places0 ← left.freeIndices.mapM (placeOf e.freeIndices)
      let places1 ← right.freeIndices.mapM (placeOf e.freeIndices)
      let pairs ← (indicesOf e.indexDims).mapM fun index => do
        return (← factorComponent places0 strides0 index, ← factorComponent places1 strides1 index)
      pairs.mapM fun (i, j) => do return Expr.product (← itemAt as i) (← itemAt bs j)
  | _ => throw .expectedTwoOperands

def sumOf [Builder] : List Expr → Expr
  | [] => .terminal .zero
  | e :: es => es.foldl Expr.sum e

/-- A sum over the range of a free index. -/
def indexSum [Builder] (e : Expr) (ops : List (List Expr)) : Outcome (List Expr) := do
  let (summand, multi) ← operandPair e
  let indices ← indicesIn multi
  let index ← match ← itemAt indices 0 with
    | .free c => pure c
    | .fixed _ => misfit .noMember
  let place ← placeOf summand.freeIndices index
  let range ← itemAt summand.indexDims place
  let before := volume summand.shape * volume (summand.indexDims.take place)
  let after := volume (summand.indexDims.drop (place + 1))
  let terms ← itemAt ops 0
  if terms.length != before * after * range then throw .subexpressionCount
  (List.range before).flatMapM fun i =>
    (List.range after).mapM fun k => do
      let parts ← (List.range range).mapM fun j =>
        itemAt terms (i * (after * range) + k + j * after)
      return sumOf parts

/-- The scalar components of an expression, given those of its operands. -/
def componentwise [Builder] (e : Expr) (ops : List (List Expr)) : Outcome (List Expr) :=
  match e with
  | .terminal t => .error (.noComponents t.head.typeText)
  | .operator op .. =>
    match op with
    | .mathFunction | .sqrt | .ln | .exp | .cos | .sin | .tan | .cosh | .sinh | .tanh
    | .acos | .asin | .atan | .acosh | .asinh | .atanh | .erf
    | .besselFunction | .besselJ | .besselY | .besselI | .besselK
    | .abs | .minValue | .maxValue | .power | .atan2 => scalarNode op e ops
    | .real | .imag | .conj => unary op ops
    | .product => product e ops
    | .division => division op ops
    | .sum => sum op ops
    | .indexSum => indexSum e ops
    | .conditional => conditional op ops
    | .condition | .eq | .ne | .lt | .gt | .le | .ge
    | .andCondition | .orCondition | .notCondition => condition op ops
    | _ => .error (.noComponents e.head.typeText)

end FormKernel.Scalar
