import FormKernel.Kernel.Operand

/-! # Construction of kernel trees

The functions of this file build a tree from operands and check what the kernel language
asks of it: names are made of letters and digits, operands of an arithmetic operator have
a common type, an index is a whole number, a declaration has a type. -/

namespace FormKernel.Kernel

/-- Whether a text names a symbol: letters and digits and underscores, at least one of the former
    two. -/
def isSymbolName (name : String) : Bool :=
  let letters := name.toList.filter (· != '_')
  !letters.isEmpty && letters.all Text.isLetterOrNumber

def Symbol.of (name : String) (dtype : Option DType) : Outcome Symbol := do
  require (isSymbolName name)
  return ⟨name, dtype⟩

namespace Expr

/-- A binary operator; the operands of arithmetic need a common type. -/
def ofBinary (op : BinaryOp) (a b : Expr) : Outcome Expr := do
  if op.isArithmetic then
    let _ ← DType.merge [a.dtype, b.dtype]
  return .binary op a b

/-- The common type of the arguments of a sum or product. -/
def naryType : List Expr → Outcome DType
  | [] => misfit .outOfRange
  | a :: rest => do
    let first ← DType.merge [a.dtype, a.dtype]
    rest.foldlM (fun t b => DType.merge [some t, b.dtype]) first

/-- A sum or product of at least one argument. -/
def ofNary (op : NaryOp) (args : List Expr) (tag : Tag := 0) : Outcome Expr := do
  let t ← naryType args
  return .nary op tag t args

/-- A call of a mathematical function with at least one argument. -/
def ofCall (function : String) (args : List Expr) : Outcome Expr := do
  if args.isEmpty then misfit .outOfRange
  return .call function args

/-- A conditional; its branches need a common type. -/
def ofConditional (condition yes no : Expr) : Outcome Expr := do
  let _ ← DType.merge [yes.dtype, no.dtype]
  return .conditional condition yes no

/-- Access to an array, which is named by a symbol or by its declaration. -/
def ofAccess (array : Operand) (indices : List Operand) : Outcome Expr :=
  match array with
  | .expr (.symbol s) => do
    let is ← indices.mapM Operand.toExpr
    return .access s is
  | .stmt (.arrayDecl _ s sizes _ _) => do
    let is ← indices.mapM Operand.toExpr
    if is.length != sizes.length then throw .indexCount
    if is.any (fun i => match i with | .int _ => true | _ => false) then misfit .wrongKind
    return .access s is
  | o => .error (.notAnArray ((o.type.splitOn ".").getLast?.getD ""))

/-- An item of an array; further indices of an access are put behind those it has. -/
def ofItem (array : Operand) (indices : List Operand) : Outcome Expr :=
  match array with
  | .expr (.access s is) => ofAccess (.expr (.symbol s)) (is.map .expr ++ indices)
  | .expr e => ofAccess (.expr e) indices
  | _ => misfit .wrongKind

end Expr

namespace Operand

def isOne : Operand → Bool
  | .expr e => e.isOne
  | _ => false

def isZero : Operand → Bool
  | .expr e => e.isZero
  | _ => false

/-- A product of factors: ones are left out and a zero is the whole product. -/
def product (factors : List Operand) (tag : Tag := 0) : Outcome Operand :=
  match factors.filter (fun f => !isOne f) with
  | [] => .ok (.expr (.float 1.0))
  | [f] => .ok f
  | fs =>
    match fs.find? isZero with
    | some f => .ok f
    | Option.none => do
      let args ← fs.mapM toExpr
      return .expr (← Expr.ofNary .product args tag)

end Operand

inductive Initial where
  | none
  | values (v : Values)
  | nested (items : List Operand)

namespace Initial

mutual

/-- Shape and leaves of a nested list; all its parts have one shape. -/
def flatten : Operand → Outcome (List Nat × List Operand)
  | .list items => do
    let parts ← flattenAll items
    match parts with
    | [] => return ([0], [])
    | (shape, _) :: rest =>
      if rest.all (fun p => p.1 == shape) then
        return (parts.length :: shape, parts.flatMap (·.2))
      else misfit .wrongValue
  | o => .ok ([], [o])

/-- Shapes and leaves of the parts of a nested list. -/
def flattenAll : List Operand → Outcome (List (List Nat × List Operand))
  | [] => .ok []
  | o :: os => do
    let p ← flatten o
    let ps ← flattenAll os
    return p :: ps

end

inductive Element where
  | bool
  | word (signed : Bool)
  | double
  | text
  /-- Each entry has a type of its own. -/
  | mixed
  deriving DecidableEq

/-- The element type of an array of a single leaf. -/
def elementOf : Operand → Element
  | .bool _ => .bool
  | .int n =>
    if Machine.fits 64 true n then .word true
    else if Machine.fits 64 false n then .word false
    else .mixed
  | .float _ => .double
  | .text _ => .text
  | _ => .mixed

/-- The element type that two have in common. -/
def Element.join : Element → Element → Element
  | .mixed, _ | _, .mixed => .mixed
  | .text, _ | _, .text => .text
  | .bool, e | e, .bool => e
  | .word s, .word t => if s == t then .word s else .double
  | .double, _ | _, .double => .double

/-- A text without the null characters at its end. -/
def withoutNulls (s : String) : String :=
  String.ofList (s.toList.reverse.dropWhile (· == '\x00')).reverse

/-- A leaf as an entry of an array of an element type. -/
def entryOf (t : Element) (o : Operand) : Outcome Entry :=
  match t, o with
  | .text, o => return .text (withoutNulls (← o.brief))
  | .double, .number n => return .double (← ArithOp.realOf n)
  | .word _, .number n => .ok (.int (n.int?.getD 0))
  | _, .bool b => .ok (.bool b)
  | _, .int n => .ok (.int n)
  | _, .float x => .ok (.double x)
  | _, .text s => .ok (.text s)
  | _, .none => .ok .none
  | _, o => return .text (← o.brief)

/-- The entries of leaves in their common element type. -/
def entries (leaves : List Operand) : Outcome (Array Entry) := do
  match leaves.map elementOf with
  | [] => return #[]
  | t :: ts => return (← leaves.mapM (entryOf (ts.foldl Element.join t))).toArray

def ofList (items : List Operand) : Outcome Values := do
  let (shape, leaves) ← flatten (.list items)
  return ⟨shape, ← entries leaves⟩

end Initial

namespace Stmt

/-- A declaration of a variable with a type and possibly a value. -/
def ofVariable (s : Symbol) (value : Option Operand) (tag : Tag := 0) : Outcome Stmt := do
  require s.dtype.isSome
  match value with
  | none => return .variableDecl tag s none
  | some v => return .variableDecl tag s (some (← v.toExpr))

/-- A declaration of an array with a type.  Its sizes may be left out where values of a
    known shape are given. -/
def ofArray (s : Symbol) (sizes : Option (List Int)) (values : Initial) (const : Bool)
    (tag : Tag := 0) : Outcome Stmt := do
  require s.dtype.isSome
  let sizes ← match sizes, values with
    | some sizes, _ => pure sizes
    | none, .none => misfit .unmet
    | none, .values v => pure (v.shape.map Int.ofNat)
    | none, .nested _ => misfit .noMember
  let values ← match values with
    | .none => pure none
    | .values v => pure (some v)
    | .nested items => pure (some (← Initial.ofList items))
  return .arrayDecl tag s sizes values const

/-- A loop over an index, which is a symbol or a multi-index. -/
def ofLoop (index : Expr) (lower upper : Operand) (body : List Operand) : Outcome Stmt := do
  require (match index with | .symbol _ | .multiIndex .. => true | _ => false)
  let lower ← lower.toExpr
  let upper ← upper.toExpr
  let body ← Operand.toStmts body
  return .loop index lower upper body

/-- Adds the symbols that declarations declare and that are not there yet. -/
def withDeclared (output : List Symbol) (declarations : List Stmt) : List Symbol :=
  declarations.foldl (fun out d =>
    match d.declared? with
    | some s => if out.any (Symbol.same s) then out else out ++ [s]
    | none => out) output

/-- A named section: its output includes all that it declares. -/
def ofPart (name : String) (body declarations : List Operand) (input output : List Symbol)
    (annotations : List Annotation) (tag : Tag := 0) : Outcome Stmt := do
  let body ← body.mapM Operand.toStmt
  let declarations ← declarations.mapM fun
    | .stmt s => if s.isDeclaration then pure s else misfit .unmet
    | _ => misfit .unmet
  return .part tag name body declarations input (withDeclared output declarations) annotations

/-- Code headed by comments; empty code stays empty. -/
def commented (code : List Operand) (comments : List String) : List Operand :=
  if code.isEmpty then [] else comments.map (fun c => .stmt (.comment c)) ++ code

mutual

/-- How deeply loops are nested. -/
def depth : Stmt → Outcome Nat
  | .loop _ _ _ body => do
    let ds ← depths body
    match ds with
    | [] => misfit .wrongValue
    | d :: rest => return 1 + rest.foldl max d
  | .list body => do
    let ds ← depths body
    match ds with
    | [] => misfit .wrongValue
    | d :: rest => return rest.foldl max d
  | _ => .ok 0

/-- The nesting of each statement. -/
def depths : List Stmt → Outcome (List Nat)
  | [] => .ok []
  | s :: ss => do
    let d ← depth s
    let ds ← depths ss
    return d :: ds

end

/-- Whether a statement is a single assignment.  Statements that hold no expression have no
    answer. -/
def isAssignment : Stmt → Outcome Bool
  | .expr e => .ok e.isAssignment
  | .list _ | .part .. => .ok false
  | _ => misfit .noMember

end Stmt

end FormKernel.Kernel
