import FormKernel.Kernel.Construct

/-! # Arithmetic on kernel expressions

Sums, differences, products and quotients of expressions, simplified where an operand is a
literal zero, one or minus one or is negated.  A plain number may stand on either side; on
the left it is handled by the functions whose name ends in `Plain`. -/

namespace FormKernel.Kernel

namespace Expr

/-- The expression with the opposite sign: literals are negated in place. -/
def negated : Expr → Expr
  | .float x => .float (-x)
  | .nan _ => .float (0.0 / 0.0)
  | .complex re im => .complex (-re) (-im)
  | .int n => .int n.neg
  | e => .neg e

def add (a b : Expr) : Outcome Expr :=
  if a.isZero then .ok b
  else if b.isZero then .ok a
  else match b with
    | .neg c => ofBinary .sub a c
    | _ => ofBinary .add a b

def addPlain (a b : Expr) : Outcome Expr :=
  if b.isZero then .ok a
  else if a.isZero then .ok b
  else match b with
    | .neg c => ofBinary .sub a c
    | _ => ofBinary .add a b

def sub (a b : Expr) : Outcome Expr :=
  if a.isZero then .ok b.negated
  else if b.isZero then .ok a
  else match a, b with
    | _, .neg c => ofBinary .add a c
    | .int m, .int n => return .int (← m.sub n)
    | _, _ => ofBinary .sub a b

def subPlain (a b : Expr) : Outcome Expr :=
  if b.isZero then .ok a
  else if a.isZero then .ok b.negated
  else match b with
    | .neg c => ofBinary .add a c
    | _ => ofBinary .sub a b

def mul (a b : Expr) : Outcome Expr :=
  if a.isZero then .ok a
  else if b.isZero then .ok b
  else if a.isOne then .ok b
  else if b.isOne then .ok a
  else if b.isNegativeOne then .ok (.neg a)
  else if a.isNegativeOne then .ok (.neg b)
  else match a, b with
    | .int m, .int n => return .int (← m.mul n)
    | _, _ => ofBinary .mul a b

def mulPlain (a b : Expr) : Outcome Expr :=
  if b.isZero then .ok b
  else if a.isZero then .ok a
  else if b.isOne then .ok a
  else if a.isOne then .ok b
  else if a.isNegativeOne then .ok (.neg b)
  else if b.isNegativeOne then .ok (.neg a)
  else ofBinary .mul a b

def div (a b : Expr) : Outcome Expr :=
  if b.isZero then .error .divisionByZero
  else if a.isZero then .ok a
  else ofBinary .div a b

end Expr

end FormKernel.Kernel

namespace FormKernel.ArithOp

open Kernel

def onExprs : ArithOp → Expr → Expr → Outcome Expr
  | .add => Expr.add
  | .sub => Expr.sub
  | .mul => Expr.mul
  | .div | .floorDiv => Expr.div

/-- The operation on a plain number and an expression. -/
def onPlain : ArithOp → Expr → Expr → Outcome Expr
  | .add => Expr.addPlain
  | .sub => Expr.subPlain
  | .mul => Expr.mulPlain
  | .div | .floorDiv => Expr.div

/-- How often something is repeated; a negative number is as good as zero. -/
def times? : Operand → Outcome Nat
  | .machine (.bool _) => misfit .wrongKind
  | .number n =>
    match n.int? with
    | some n => if Machine.fits 64 true n then .ok n.toNat else misfit .overflow
    | none => misfit .wrongKind
  | _ => misfit .wrongKind

/-- The operation on two operands.  Texts and lists are joined by a sum and repeated by a
    product with a number. -/
def apply (op : ArithOp) (a b : Operand) : Outcome Operand := do
  match op, a, b with
  | _, .expr x, _ =>
    let y ← b.toExpr
    return .expr (← op.onExprs x y)
  | _, _, .expr y =>
    let x ← a.plain.toExpr
    return .expr (← op.onPlain x y)
  | _, .number x, .number y => return .number (← op.onNumerals x y)
  | .add, .text s, .text t => return .text (s ++ t)
  | .add, .list xs, .list ys => return .list (xs ++ ys)
  | .mul, .text s, n | .mul, n, .text s =>
    return .text (String.join (List.replicate (← times? n) s))
  | .mul, .list xs, n | .mul, n, .list xs => return .list (List.replicate (← times? n) xs).flatten
  | _, _, _ => misfit .wrongKind

end FormKernel.ArithOp

namespace FormKernel.Kernel

def Operand.negated : Operand → Outcome Operand
  | .expr e => .ok (.expr e.negated)
  | .number n => return .number (← n.negated)
  | _ => misfit .wrongKind

end FormKernel.Kernel
