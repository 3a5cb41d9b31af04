import FormKernel.Kernel.Expr
import FormKernel.Text.Quoted

/-! # Operands

What may be offered where the kernel language expects an expression or a statement: a tree,
a number, a text, or a list or map of operands.  `Operand.toExpr` and `Operand.toStmt` accept
what fits and refuse the rest. -/

namespace FormKernel.Kernel

/-! ## Short texts of kernel trees

Messages quote an expression by a short text: its own notation where the form has one,
and otherwise the name of the form.  A whole number may be too long to be written. -/

def formPath (form : String) : String := "ffcx.codegeneration.lnodes." ++ form

/-- The text of a form that has no notation. -/
def anonymous (form : String) : String := s!"<{formPath form} object at 0x>"

mutual

def Expr.brief : Expr → Outcome String
  | .float x => .ok (Decimal.shortestText x)
  | .nan _ => .ok "nan"
  | .complex re im => .ok (Decimal.complexText (Decimal.decode re) (Decimal.decode im))
  | .int n => n.text
  | .symbol s => .ok s.name
  | .binary op a b => return "(" ++ (← a.brief) ++ " " ++ op.sign ++ " " ++ (← b.brief) ++ ")"
  | .assign op a b => return "(" ++ (← a.brief) ++ " " ++ op.sign ++ " " ++ (← b.brief) ++ ")"
  | .nary op _ _ args => return (op.sign ++ " ").intercalate (← Expr.briefAll " " args)
  | .access s indices =>
    return s.name ++ "[" ++ ", ".intercalate (← Expr.briefAll "" indices) ++ "]"
  | .multiIndex .. => .ok (anonymous "MultiIndex")
  | .neg _ => .ok (anonymous "Neg")
  | .not _ => .ok (anonymous "Not")
  | .call .. => .ok (anonymous "MathFunction")
  | .conditional .. => .ok (anonymous "Conditional")

/-- The short texts of expressions, each followed by the same ending. -/
def Expr.briefAll (ending : String) : List Expr → Outcome (List String)
  | [] => .ok []
  | e :: es => do
    let s ← e.brief
    let ss ← Expr.briefAll ending es
    return (s ++ ending) :: ss

end

/-- The short text of a statement. -/
def Stmt.brief : Stmt → String
  | .list body => "StatementList([" ++ ", ".intercalate (body.map Stmt.brief) ++ "])"
  | s => anonymous s.form

/-! ## Operands -/

/-- Something offered as an expression or statement. -/
inductive Operand where
  | expr (e : Expr)
  | stmt (s : Stmt)
  | list (items : List Operand)
  | map (entries : List (String × Operand))
  | none
  | number (n : Numeral)
  | text (s : String)
  deriving Inhabited

namespace Operand

/-- A plain whole number. -/
@[match_pattern] abbrev int (n : Int) : Operand := .number (.int n)

@[match_pattern] abbrev bool (b : Bool) : Operand := .number (.bool b)

/-- A plain floating-point number. -/
@[match_pattern] abbrev float (x : Float) : Operand := .number (.float x)

@[match_pattern] abbrev machine (m : Machine.Number) : Operand := .number (.machine m)

def type : Operand → String
  | .expr e => formPath e.form
  | .stmt s => formPath s.form
  | .list _ => "list"
  | .map _ => "dict"
  | .none => "NoneType"
  | .number n => n.type
  | .text _ => "str"

def typeText (o : Operand) : String := s!"<class '{o.type}'>"

mutual

/-- The text of an operand inside a list or map: a text is quoted and a number of a machine
    format is named. -/
def label : Operand → Outcome String
  | .expr e => e.brief
  | .stmt s => .ok s.brief
  | .list items => return "[" ++ ", ".intercalate (← labels items) ++ "]"
  | .map entries => return "\x7b" ++ ", ".intercalate (← entryLabels entries) ++ "\x7d"
  | .none => .ok "None"
  | .number n => n.label
  | .text s => .ok (Text.quoted s)

/-- The texts of the items of a list. -/
def labels : List Operand → Outcome (List String)
  | [] => .ok []
  | o :: os => do
    let s ← o.label
    let ss ← labels os
    return s :: ss

/-- The texts of the entries of a map. -/
def entryLabels : List (String × Operand) → Outcome (List String)
  | [] => .ok []
  | (key, o) :: es => do
    let s ← o.label
    let ss ← entryLabels es
    return (Text.quoted key ++ ": " ++ s) :: ss

end

def brief : Operand → Outcome String
  | .number n => n.text
  | .text s => .ok s
  | o => o.label

/-- The operand with plain numbers in place of numbers of the machine. -/
def plain : Operand → Operand
  | .number n => .number n.plain
  | o => o

def isTree : Operand → Bool
  | .expr _ | .stmt _ => true
  | _ => false

/-- An operand as an expression: whole numbers, truth values and floating-point numbers
    become literals. -/
def toExpr : Operand → Outcome Expr
  | .expr e => .ok e
  | .bool b => .ok (.int (.bool b))
  | .int n => .ok (.int (.int n))
  | .float x => .ok (.float x)
  | .machine (.word bits signed n) => .ok (.int (.word bits signed n))
  | .machine (.double x) => .ok (.float x)
  | .machine (.half _) | .machine (.single _) | .machine (.extended _) => misfit .unmet
  | o => do throw (.notAnExpression o.typeText (← o.brief))

mutual

/-- An operand as a statement: an assignment and a list of statements will do. -/
def toStmt : Operand → Outcome Stmt
  | .stmt (.list [s]) => .ok s
  | .stmt (.list ss) =>
    .error (.notAStatement (Operand.stmt (.list ss)).typeText (Stmt.brief (.list ss)))
  | .stmt s => .ok s
  | .expr e => do
    if e.isAssignment then return .expr e
    let text ← e.brief
    if e.isOperator then throw (.pureStatement (Operand.expr e).typeText text)
    throw (.notAStatement (Operand.expr e).typeText text)
  | .list [o] => toStmt o
  | .list os => return .list (← toStmts os)
  | o => do throw (.notAStatement o.typeText (← o.brief))

def toStmts : List Operand → Outcome (List Stmt)
  | [] => .ok []
  | o :: os => do
    let s ← toStmt o
    let ss ← toStmts os
    return s :: ss

end

end Operand

end FormKernel.Kernel
