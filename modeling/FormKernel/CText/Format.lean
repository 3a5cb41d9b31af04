import FormKernel.CText.ScalarType
import FormKernel.Kernel.Operand

/-! # C text of kernel trees

Expressions are written with brackets where an operand does not bind more strongly than the
operator around it; statements are written one per line, the bodies of loops and sections
indented by two blanks. -/

namespace FormKernel.CText

open Kernel

/-! ## Mathematical functions

The C name of a mathematical function depends on the number type of its argument.  A
function that is not in the table of its type keeps its name. -/

/-- The functions that C names alike. -/
def elementary : List String :=
  ["sqrt", "cos", "sin", "tan", "acos", "asin", "atan", "cosh", "sinh", "tanh", "acosh", "asinh",
    "atanh", "exp"]

/-- Functions with a variety for each real type, under the name of the double one. -/
def realFunctions : List (String × String) := elementary.map (fun f => (f, f)) ++ [
  ("abs", "fabs"), ("power", "pow"), ("ln", "log"), ("erf", "erf"), ("atan_2", "atan2"),
  ("min_value", "fmin"), ("max_value", "fmax")]

/-- Functions with a variety for each complex type, under the name of the double one. -/
def complexFunctions : List (String × String) := elementary.map (fun f => (f, "c" ++ f)) ++ [
  ("abs", "cabs"), ("power", "cpow"), ("ln", "clog"), ("real", "creal"), ("imag", "cimag"),
  ("conj", "conj"), ("max_value", "fmax"), ("min_value", "fmin")]

/-- Bessel functions, the same for all types. -/
def besselFunctions : List (String × String) := [("bessel_y", "yn"), ("bessel_j", "jn")]

/-- The name of a function by the table of a type and the ending of its names. -/
def functionName (table : List (String × String)) (ending function : String) : String :=
  match besselFunctions.lookup function with
  | some f => f
  | none =>
    match table.lookup function with
    | some f => f ++ ending
    | none => function

/-- The C name of a function with arguments of a number type.  Only single and double precision have
    functions at all. -/
def mathName? (t : NumberType) (function : String) : Option String :=
  match t.family, t.bits with
  | .real, 64 => some (functionName realFunctions "" function)
  | .real, 32 => some (functionName realFunctions "f" function)
  | .complex, 128 => some (functionName complexFunctions "" function)
  | .complex, 64 => some (functionName complexFunctions "f" function)
  | _, _ => none

/-! ## Trees -/

/-- The number types of a kernel: that of the element tensor and that of the geometry. -/
structure Target where
  scalar : NumberType
  real : NumberType
  deriving DecidableEq, Inhabited

/-- The target of a named number type. -/
def Target.ofName (name : String) : Outcome Target := do
  let scalar ← NumberType.ofName name
  let real ← scalar.realType name
  return ⟨scalar, real⟩

def Target.typeName (t : Target) : Option DType → Outcome String
  | some .scalar => t.scalar.cType t.scalar.text
  | some .real => t.real.cType t.real.text
  | some .int => .ok "int"
  | some .bool => .ok "bool"
  | some .none => .error (.unprintableType "DataType.NONE")
  | none => .error (.unprintableType "None")

def inBrackets (s : String) : String := "(" ++ s ++ ")"

/-- The text of an operand: bracketed unless it binds more strongly than the operator. -/
def operandText (operator operand : Nat) (text : String) : String :=
  if operand ≥ operator then inBrackets text else text

/-- The sign of a literal complex number's parts. -/
def complexLiteral (re im : Float) : String :=
  "(" ++ Decimal.sixteenText re ++ "+I*" ++ Decimal.sixteenText im ++ ")"

/-- Nested braces around the entries of an array. -/
def initializer : List Nat → List Entry → String
  | [], _ => "\x7b\x7d"
  | [_], xs => "\x7b" ++ ", ".intercalate (xs.map Entry.kernelText) ++ "\x7d"
  | n :: rest, xs =>
    let width := volume rest
    "\x7b" ++ ",\n  ".intercalate ((List.range n).map fun i =>
      initializer rest ((xs.drop (i * width)).take width)) ++ "\x7d"

mutual

def formatExpr (t : Target) : Expr → Outcome String
  | .float x => .ok (Decimal.sixteenText x)
  | .complex re im => .ok (complexLiteral re im)
  | .nan _ => .ok "nan"
  | .int n => n.text
  | .symbol s => .ok s.name
  | .multiIndex _ _ _ flat => formatExpr t flat
  | .neg a => do
    let s ← formatExpr t a
    return "-" ++ operandText 3 a.precedence s
  | .not a => do
    let s ← formatExpr t a
    return "!" ++ operandText 3 a.precedence s
  | .binary op a b => do
    let l ← formatExpr t a
    let r ← formatExpr t b
    return operandText op.precedence a.precedence l ++ " " ++ op.sign ++ " " ++
      operandText op.precedence b.precedence r
  | .nary op _ _ args => do
    let texts ← formatExprs t args
    let operands := (args.zip texts).map fun (e, s) => operandText op.precedence e.precedence s
    return (" " ++ op.sign ++ " ").intercalate operands
  | .call function args => do
    let type := match args with
      | a :: _ => if a.dtype == some .real then t.real else t.scalar
      | [] => t.scalar
    match mathName? type function with
    | none => throw (.unknownStatement "MathFunction")
    | some f =>
      let texts ← formatExprs t args
      return f ++ "(" ++ ", ".intercalate texts ++ ")"
  | .access s indices => do
    let texts ← formatExprs t indices
    return s.name ++ "[" ++ "][".intercalate texts ++ "]"
  | .conditional c y n => do
    let c' ← formatExpr t c
    let y' ← formatExpr t y
    let n' ← formatExpr t n
    return operandText 13 c.precedence c' ++ " ? " ++ operandText 13 y.precedence y' ++ " : " ++
      operandText 13 n.precedence n'
  | .assign op target value =>
    match op with
    | .set | .add => do
      let r ← formatExpr t value
      let l ← formatExpr t target
      return l ++ " " ++ op.sign ++ " " ++ r ++ ";\n"
    | _ => throw (.unknownStatement op.form)

def formatExprs (t : Target) : List Expr → Outcome (List String)
  | [] => .ok []
  | e :: es => do
    let s ← formatExpr t e
    let ss ← formatExprs t es
    return s :: ss

end

/-- The lines of a text, without their ends. -/
def splitLines (cs : List Char) : List (List Char) :=
  cs.foldr (fun c lines => if c = '\n' then [] :: lines else lines.modifyHead (c :: ·)) [[]]

/-- Indents the lines of a text; empty lines are left out. -/
def indentLines (text : String) : String :=
  String.ofList (((splitLines text.toList).filter (· ≠ [])).flatMap fun line =>
    ' ' :: ' ' :: (line ++ ['\n']))

/-- Puts two blanks behind every line end and drops those behind the last. -/
def indentBehind (text : String) : String :=
  let cs := text.toList.flatMap fun c => if c = '\n' then ['\n', ' ', ' '] else [c]
  String.ofList cs.dropLast.dropLast

def commentLine (text : String) : String := "// " ++ text ++ "\n"

/-- The line around sections. -/
def ruler : String := commentLine "------------------------ "

def sectionHead (name : String) (input output : List Symbol) : String :=
  let names (symbols : List Symbol) : String := ", ".intercalate (symbols.map (·.name))
  ruler ++ commentLine ("Section: " ++ name) ++ commentLine ("Inputs: " ++ names input) ++
    commentLine ("Outputs: " ++ names output)

/-- The line in front of the body of a loop. -/
def loopHead (index lower upper : String) : String :=
  "for (int " ++ index ++ " = " ++ lower ++ "; " ++ index ++ " < " ++ upper ++ "; ++" ++ index ++
    ")\n"

mutual

/-- The C text of a statement. -/
def formatStmt (t : Target) : Stmt → Outcome String
  | .expr e => formatExpr t e
  | .list body => formatStmts t body
  | .comment text => .ok (commentLine text)
  | .declaration _ => .error (.unknownStatement "Declaration")
  | .variableDecl _ s value => do
    match value with
    | none => throw (.unknownStatement "NoneType")
    | some v =>
      let text ← formatExpr t v
      let type ← t.typeName s.dtype
      return type ++ " " ++ s.name ++ " = " ++ text ++ ";\n"
  | .arrayDecl _ s sizes values const => do
    let type ← t.typeName s.dtype
    let sizeTexts := String.join (sizes.map fun n => "[" ++ toString n ++ "]")
    match values with
    | none =>
      require (!const)
      return type ++ " " ++ s.name ++ sizeTexts ++ ";\n"
    | some v =>
      let head := if const then "static const " else ""
      return head ++ type ++ " " ++ s.name ++ sizeTexts ++ " = " ++
        initializer v.shape v.data.toList ++ ";\n"
  | .loop index lower upper body => do
    let lo ← formatExpr t lower
    let hi ← formatExpr t upper
    let i ← formatExpr t index
    let inner ← formatStmts t body
    return loopHead i lo hi ++ "\x7b\n" ++ indentLines inner ++ "\x7d\n"
  | .part _ name body declarations input output _ => do
    let decls ← formatStmts t declarations
    if body.isEmpty then return sectionHead name input output ++ decls ++ ruler
    let inner ← formatStmts t body
    return sectionHead name input output ++ decls ++ "\x7b\n  " ++ indentBehind inner ++ "\x7d\n" ++
      ruler

/-- The C text of statements, one after the other. -/
def formatStmts (t : Target) : List Stmt → Outcome String
  | [] => .ok ""
  | s :: ss => do
    let text ← formatStmt t s
    let rest ← formatStmts t ss
    return text ++ rest

end

/-- The C text of an operand, which has to be a tree. -/
def formatOperand (t : Target) : Operand → Outcome String
  | .expr e => formatExpr t e
  | .stmt s => formatStmt t s
  | o => .error (.unknownStatement ((o.type.splitOn ".").getLast?.getD ""))

end FormKernel.CText
