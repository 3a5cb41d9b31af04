import FormKernel.Form.Head
import FormKernel.Kernel.Arith

/-! # From form operators to kernel expressions

`lower` gives the kernel expression of one operator of a form on operands that have been
lowered before. -/

namespace FormKernel.Kernel

open Form (Head Number)

def Number.toInt : Number → Outcome Int
  | .int n => .ok n
  | .float x =>
    match Machine.truncated? x with
    | some n => .ok n
    | none => misfit (if x.isNaN then .wrongValue else .overflow)
  | .complex .. => misfit .wrongKind

def Number.toFloat : Number → Outcome Float
  | .int n => ArithOp.realOf (.int n)
  | .float x => .ok x
  | .complex .. => misfit .wrongKind

/-- The operands of a call that takes a fixed number of them. -/
def unpack (n : Nat) (args : List Operand) : Outcome Unit :=
  if args.length == n then .ok () else misfit .wrongKind

/-- A mathematical function of operands with a type.  A real number is its own conjugate and
    real part and has no imaginary part. -/
def lowerFunction (name : String) (args : List Operand) : Outcome Operand := do
  match args with
  | [] => misfit .outOfRange
  | first :: rest =>
    let t ← match first with
      | .expr e => pure e.dtype
      | .stmt (.arrayDecl _ s ..) => pure s.dtype
      | .machine _ => pure none
      | _ => misfit .noMember
    if (name == "conj" || name == "real") && t == some .real then
      require rest.isEmpty
      return first
    if name == "imag" && t == some .real then
      require rest.isEmpty
      return .expr (.float 0.0)
    let exprs ← args.mapM Operand.toExpr
    return .expr (← Expr.ofCall name exprs)

/-- An operator of two operands that is no arithmetic. -/
def lowerBinary (op : BinaryOp) (args : List Operand) : Outcome Operand := do
  match args with
  | [a, b] => return .expr (← Expr.ofBinary op (← a.toExpr) (← b.toExpr))
  | _ => misfit .wrongKind

def lowerArith (op : ArithOp) (args : List Operand) : Outcome Operand :=
  match args with
  | [a, b] => op.apply a b
  | _ => misfit .wrongKind

/-- The kernel expression of a node of a form on lowered operands; `value` is the number of a
    literal. -/
def lower (head : Head) (value : Number) (args : List Operand) : Outcome Operand := do
  match head with
  | .intValue => unpack 0 args; return .expr (.int (.int (← Number.toInt value)))
  | .floatValue => unpack 0 args; return .expr (.float (← Number.toFloat value))
  | .complexValue =>
    unpack 0 args
    match value with
    | .int _ => misfit .unmet
    | .float x => return .expr (.float x)
    | .complex re im => return .expr (.complex re im)
  | .zero => unpack 0 args; return .expr (.float 0.0)
  | .operator .product => lowerArith .mul args
  | .operator .sum => lowerArith .add args
  | .operator .division => lowerArith .div args
  | .operator .gt => lowerBinary .gt args
  | .operator .ge => lowerBinary .ge args
  | .operator .eq => lowerBinary .eq args
  | .operator .ne => lowerBinary .ne args
  | .operator .lt => lowerBinary .lt args
  | .operator .le => lowerBinary .le args
  | .operator .andCondition => lowerBinary .and args
  | .operator .orCondition => lowerBinary .or args
  | .operator .notCondition =>
    match args with
    | [a] => return .expr (.not (← a.toExpr))
    | _ => misfit .wrongKind
  | .operator .conditional =>
    match args with
    | [c, t, f] => return .expr (← Expr.ofConditional (← c.toExpr) (← t.toExpr) (← f.toExpr))
    | _ => misfit .wrongKind
  | .operator .abs | .operator .power | .operator .real | .operator .imag | .operator .conj
  | .operator .minValue | .operator .maxValue | .operator .sqrt | .operator .ln
  | .operator .exp | .operator .cos | .operator .sin | .operator .tan | .operator .cosh
  | .operator .sinh | .operator .tanh | .operator .acos | .operator .asin | .operator .atan
  | .operator .erf | .operator .atan2 | .operator .mathFunction | .operator .besselJ
  | .operator .besselY => lowerFunction head.functionName args
  | _ => .error (.noLowering head.typeText)

/-- The type of an operand of an operator, as far as the kernel language has one, and how it stands
    in a message. -/
def Operand.dtype? : Operand → Outcome (Option DType × String)
  | .expr e => .ok (e.dtype, DType.label? e.dtype)
  | .stmt (.arrayDecl _ s ..) | .stmt (.variableDecl _ s _) | .stmt (.declaration s) =>
    .ok (s.dtype, DType.label? s.dtype)
  | .int _ | .bool _ => .ok (some .int, DType.int.label)
  | .machine m => .ok (Option.none, "dtype('" ++ m.format.name ++ "')")
  | o => .error (.operandType o.typeText)

/-- The type of the result of an operator: a condition is a truth value. -/
def resultType (head : Head) (args : List Operand) : Outcome DType := do
  let types ← args.mapM Operand.dtype?
  match head with
  | .operator op => if op.isCondition then return .bool else DType.mergeLabelled types
  | _ => DType.mergeLabelled types

end FormKernel.Kernel
