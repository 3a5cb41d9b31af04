import FormKernel.Dense
import FormKernel.Kernel.DType

/-! # The kernel language

A kernel is a tree of statements over expressions: literals, symbols, arithmetic,
comparisons, accesses to arrays, assignments, declarations, loops and named sections.
This file holds the two types of trees, the type of an expression, its binding strength
and the name of each form. -/

namespace FormKernel.Kernel

/-- A named variable or array. -/
structure Symbol where
  name : String
  dtype : Option DType
  deriving DecidableEq

/-- Two symbols are the same when their names are. -/
def Symbol.same (a b : Symbol) : Bool := a.name == b.name

/-- Operators with two operands. -/
inductive BinaryOp where
  | add | sub | mul | div
  | eq | ne | lt | gt | le | ge
  | and | or
  deriving DecidableEq

/-- Operators with any number of operands. -/
inductive NaryOp where
  | sum | product
  deriving DecidableEq

inductive AssignOp where
  | set | add | sub | mul | div
  deriving DecidableEq

/-- Names an object that is updated or compared as a whole; `0` names none. -/
abbrev Tag := Nat

/-- An expression of the kernel language. -/
inductive Expr where
  | float (x : Float)
  /-- A literal that is no number and can be told from others that are none. -/
  | nan (tag : Tag)
  | complex (re im : Float)
  | int (n : Whole)
  | symbol (s : Symbol)
  /-- Several indices that stand for one position in flattened memory. -/
  | multiIndex (tag : Tag) (symbols : List Expr) (sizes : List Int) (flat : Expr)
  | neg (a : Expr)
  | not (a : Expr)
  | binary (op : BinaryOp) (a b : Expr)
  | nary (op : NaryOp) (tag : Tag) (dtype : DType) (args : List Expr)
  | call (function : String) (args : List Expr)
  | access (array : Symbol) (indices : List Expr)
  | conditional (condition yes no : Expr)
  | assign (op : AssignOp) (target value : Expr)
  deriving Inhabited

/-- What a section asks of the optimiser. -/
inductive Annotation where
  /-- Fuse loops of the section. -/
  | fuse
  | unroll
  /-- Move loop-invariant code out of the inner loop. -/
  | licm
  | factorize
  deriving DecidableEq

inductive Stmt where
  /-- An expression made into a statement. -/
  | expr (e : Expr)
  | list (body : List Stmt)
  | comment (text : String)
  | declaration (s : Symbol)
  | variableDecl (tag : Tag) (s : Symbol) (value : Option Expr)
  | arrayDecl (tag : Tag) (s : Symbol) (sizes : List Int) (values : Option Values) (const : Bool)
  /-- The index runs from the lower bound up to and without the upper bound. -/
  | loop (index lower upper : Expr) (body : List Stmt)
  /-- A named section. -/
  | part (tag : Tag) (name : String) (body declarations : List Stmt) (input output : List Symbol)
      (annotations : List Annotation)
  deriving Inhabited

namespace BinaryOp

def isArithmetic : BinaryOp → Bool
  | .add | .sub | .mul | .div => true
  | _ => false

def sign : BinaryOp → String
  | .add => "+" | .sub => "-" | .mul => "*" | .div => "/"
  | .eq => "==" | .ne => "!=" | .lt => "<" | .gt => ">" | .le => "<=" | .ge => ">="
  | .and => "&&" | .or => "||"

def form : BinaryOp → String
  | .add => "Add" | .sub => "Sub" | .mul => "Mul" | .div => "Div"
  | .eq => "EQ" | .ne => "NE" | .lt => "LT" | .gt => "GT" | .le => "LE" | .ge => "GE"
  | .and => "And" | .or => "Or"

/-- How weakly the operator binds. -/
def precedence : BinaryOp → Nat
  | .mul | .div => 4
  | .add | .sub => 5
  | .lt | .gt | .le | .ge => 7
  | .eq | .ne => 8
  | .and => 11
  | .or => 12

end BinaryOp

namespace NaryOp

def sign : NaryOp → String
  | .sum => "+"
  | .product => "*"

def form : NaryOp → String
  | .sum => "Sum"
  | .product => "Product"

/-- How weakly the operator binds. -/
def precedence : NaryOp → Nat
  | .sum => 5
  | .product => 4

end NaryOp

namespace AssignOp

def sign : AssignOp → String
  | .set => "=" | .add => "+=" | .sub => "-=" | .mul => "*=" | .div => "/="

def form : AssignOp → String
  | .set => "Assign" | .add => "AssignAdd" | .sub => "AssignSub" | .mul => "AssignMul"
  | .div => "AssignDiv"

end AssignOp

namespace Annotation

def name : Annotation → String
  | .fuse => "fuse"
  | .unroll => "unroll"
  | .licm => "licm"
  | .factorize => "factorize"

def all : List Annotation := [.fuse, .unroll, .licm, .factorize]

end Annotation

namespace Expr

/-- The type of an expression.  A comparison, a negated condition and an assignment have
    the type `none`; a symbol may have no type yet. -/
def dtype : Expr → Option DType
  | .float _ | .nan _ => some .real
  | .complex .. => some .scalar
  | .int _ => some .int
  | .symbol s => s.dtype
  | .multiIndex .. => some .int
  | .neg a => a.dtype
  | .not _ => some .none
  | .binary op a b =>
    if op.isArithmetic then (DType.merge [a.dtype, b.dtype]).toOption else some .none
  | .nary _ _ t _ => some t
  | .call _ [] => none
  | .call _ (a :: _) => a.dtype
  | .access s _ => s.dtype
  | .conditional _ t f => (DType.merge [t.dtype, f.dtype]).toOption
  | .assign .. => some .none

/-- How weakly the outermost operator of an expression binds: an operand is bracketed when
    it binds no more strongly than the operator around it. -/
def precedence : Expr → Nat
  | .float _ | .nan _ | .complex .. | .int _ | .symbol _ | .multiIndex .. | .call .. => 0
  | .access .. => 2
  | .neg _ | .not _ => 3
  | .binary op _ _ => op.precedence
  | .nary op .. => op.precedence
  | .conditional .. => 13
  | .assign .. => 13

def form : Expr → String
  | .float _ | .nan _ | .complex .. => "LiteralFloat"
  | .int _ => "LiteralInt"
  | .symbol _ => "Symbol"
  | .multiIndex .. => "MultiIndex"
  | .neg _ => "Neg"
  | .not _ => "Not"
  | .binary op _ _ => op.form
  | .nary op .. => op.form
  | .call .. => "MathFunction"
  | .access .. => "ArrayAccess"
  | .conditional .. => "Conditional"
  | .assign op _ _ => op.form

def isZero : Expr → Bool
  | .float x => x == 0.0
  | .complex re im => re == 0.0 && im == 0.0
  | .int n => n.hasValue 0
  | _ => false

def isOne : Expr → Bool
  | .float x => x == 1.0
  | .complex re im => re == 1.0 && im == 0.0
  | .int n => n.hasValue 1
  | _ => false

def isNegativeOne : Expr → Bool
  | .float x => x == -1.0
  | .complex re im => re == -1.0 && im == 0.0
  | .int n => n.hasValue (-1)
  | _ => false

def isLiteral : Expr → Bool
  | .float _ | .nan _ | .complex .. | .int _ => true
  | _ => false

/-- Whether an expression has operands, so that it is neither literal, symbol nor index. -/
def isOperator : Expr → Bool
  | .symbol _ | .multiIndex .. => false
  | e => !e.isLiteral

def isAssignment : Expr → Bool
  | .assign .. => true
  | _ => false

end Expr

namespace Stmt

def form : Stmt → String
  | .expr _ => "Statement"
  | .list _ => "StatementList"
  | .comment _ => "Comment"
  | .declaration _ => "Declaration"
  | .variableDecl .. => "VariableDecl"
  | .arrayDecl .. => "ArrayDecl"
  | .loop .. => "ForRange"
  | .part .. => "Section"

/-- Whether a statement declares a variable or an array. -/
def isDeclaration : Stmt → Bool
  | .variableDecl .. | .arrayDecl .. => true
  | _ => false

def declared? : Stmt → Option Symbol
  | .declaration s | .variableDecl _ s _ | .arrayDecl _ s .. => some s
  | _ => none

end Stmt

end FormKernel.Kernel
