import FormKernel.Form.Element
import FormKernel.Form.Head

/-! # Form expressions

The integrand of a form is a tree of operators over terminals.  A node carries its shape and
the free indices it depends on.  Two nodes are equal when they have the same operator and
equal operands; shapes of operators are not compared. -/

namespace FormKernel.Form

inductive Index where
  /-- A component number. -/
  | fixed (n : Int)
  /-- A bound variable, known by its number. -/
  | free (count : Int)
  deriving DecidableEq

namespace Index

def number : Index → Int
  | .fixed n => n
  | .free n => n

def isFixed : Index → Bool
  | .fixed _ => true
  | .free _ => false

def text : Index → String
  | .fixed n => toString n
  | .free n => "i" ++ toString n

end Index

namespace Number

def head : Number → Head
  | .int _ => .intValue
  | .float _ => .floatValue
  | .complex .. => .complexValue

def text : Number → String
  | .int n => toString n
  | .float x => Decimal.shortestText x
  | .complex re im => Decimal.complexText (Decimal.decode re) (Decimal.decode im)

/-- Whether numbers have the same kind and value. -/
def equal : Number → Number → Bool
  | .int m, .int n => m == n
  | .float x, .float y => x == y
  | .complex a b, .complex c d => a == c && b == d
  | _, _ => false

def isZero : Number → Bool
  | .int n => n == 0
  | .float x => x == 0.0
  | .complex a b => a == 0.0 && b == 0.0

end Number

/-- A node without operands. -/
inductive Terminal where
  | argument (number : Int) (part : Option Int) (space : Space) (shape : Option (List Nat))
  /-- A coefficient; `function` marks the variety that belongs to a problem at hand. -/
  | coefficient (function : Bool) (count : Int) (space : Space) (shape : Option (List Nat))
  /-- A constant; `user` marks the variety that belongs to a problem at hand. -/
  | constant (user : Bool) (count : Int) (domain : Option Domain) (shape : List Nat)
  | number (n : Number)
  | zero
  | quantity (q : Quantity) (domain : Option Domain) (shape : List Nat)
  | multiIndex (indices : List Index)
  | label (count : Int)
  deriving Inhabited

namespace Terminal

def head : Terminal → Head
  | .argument .. => .argument
  | .coefficient function .. => .coefficient function
  | .constant user .. => .constant user
  | .number n => n.head
  | .zero => .zero
  | .quantity q .. => .quantity q
  | .multiIndex _ => .multiIndex
  | .label _ => .label

def shape : Terminal → List Nat
  | .argument _ _ space shape | .coefficient _ _ space shape => shape.getD space.shape
  | .constant _ _ _ shape | .quantity _ _ shape => shape
  | _ => []

def domain? : Terminal → Option Domain
  | .argument _ _ space _ | .coefficient _ _ space _ => space.domain
  | .constant _ _ domain _ | .quantity _ domain _ => domain
  | _ => none

def space? : Terminal → Option Space
  | .argument _ _ space _ | .coefficient _ _ space _ => some space
  | _ => none

def isConstantValue : Terminal → Bool
  | .number _ | .zero => true
  | _ => false

/-- Whether terminals are equal.  Shapes count as far as they were given. -/
def equal : Terminal → Terminal → Bool
  | .argument m p s h, .argument n q t k =>
    m == n && p == q && s == t && h.getD [] == k.getD []
  | .coefficient f m s h, .coefficient g n t k =>
    f == g && m == n && s == t && h.getD [] == k.getD []
  | .constant u m d h, .constant v n e k => u == v && m == n && d == e && h == k
  | .number m, .number n => m.equal n
  | .zero, .zero => true
  | .quantity q d h, .quantity r e k => q == r && d == e && h == k
  | .multiIndex is, .multiIndex js => is == js
  | .label m, .label n => m == n
  | _, _ => false

instance : BEq Terminal := ⟨equal⟩

def text : Terminal → String
  | .argument n part .. =>
    match part with
    | none => s!"v_{n}"
    | some p => s!"v_{n}^{p}"
  | .coefficient _ n .. => s!"w_{n}"
  | .constant _ n .. => s!"c_{n}"
  | .number n => s!"{n.head.name}({n.text})"
  | .zero => "Zero()"
  | .quantity q .. => s!"{q.name}()"
  | .multiIndex is => "[" ++ ",".intercalate (is.map Index.text) ++ "]"
  | .label n => s!"Label({n})"

/-- Whether the value of a terminal is the same at all points of a cell. -/
def isCellwiseConstant : Terminal → Bool
  | .quantity .cellCoordinate .. | .quantity .facetCoordinate ..
  | .quantity .quadratureWeight .. => false
  | _ => true

end Terminal

inductive Expr where
  | terminal (t : Terminal)
  /-- An operator with its shape and the free indices it depends on, with their ranges. -/
  | operator (op : Operator) (operands : List Expr) (shape : List Nat)
      (freeIndices : List Int) (indexDims : List Nat)
  deriving Inhabited

namespace Expr

def head : Expr → Head
  | .terminal t => t.head
  | .operator op .. => .operator op

def operands : Expr → List Expr
  | .terminal _ => []
  | .operator _ ops .. => ops

def shape : Expr → List Nat
  | .terminal t => t.shape
  | .operator _ _ shape .. => shape

def freeIndices : Expr → List Int
  | .terminal _ => []
  | .operator _ _ _ indices _ => indices

/-- The ranges of the free indices of an expression. -/
def indexDims : Expr → List Nat
  | .terminal _ => []
  | .operator _ _ _ _ dims => dims

/-- A scalar node without free indices. -/
def node (op : Operator) (operands : List Expr) : Expr := .operator op operands [] [] []

end Expr

/-- How expressions are built from scalars.  What is built may be simplified. -/
class Builder where
  build : Operator → List Expr → Expr
  /-- Brings nested modifiers into their order. -/
  balance : Expr → Expr

/-- Builds the operator itself. -/
instance Builder.free : Builder := ⟨Expr.node, id⟩

namespace Expr

def sum [Builder] (a b : Expr) : Expr := Builder.build .sum [a, b]

def product [Builder] (a b : Expr) : Expr := Builder.build .product [a, b]

/-- A number as an expression; zero has no value of its own. -/
def ofNumber (n : Number) : Expr := if n.isZero then .terminal .zero else .terminal (.number n)

def component (e : Expr) (c : List Nat) : Expr :=
  node .indexed [e, .terminal (.multiIndex (c.map fun (i : Nat) => .fixed i))]

def indices? : Expr → Option (List Index)
  | .terminal (.multiIndex is) => some is
  | _ => none

def isTerminal : Expr → Bool
  | .terminal _ => true
  | .operator .. => false

def isNumber : Expr → Bool
  | .terminal t => t.isConstantValue
  | .operator .. => false

def isCondition : Expr → Bool
  | .terminal _ => false
  | .operator op .. => op.isCondition

/-- Whether the outermost node modifies a terminal. -/
def isModifier : Expr → Bool
  | .terminal _ => false
  | .operator op .. => op.isModifier

/-- Whether an expression is a multi-index or a label, which have no value. -/
def isMark : Expr → Bool
  | .terminal (.multiIndex _) | .terminal (.label _) => true
  | _ => false

mutual

def equal : Expr → Expr → Bool
  | .terminal s, .terminal t => s == t
  | .operator p as .., .operator q bs .. => p == q && equalAll as bs
  | _, _ => false

def equalAll : List Expr → List Expr → Bool
  | [], [] => true
  | a :: as, b :: bs => equal a b && equalAll as bs
  | _, _ => false

end

instance : BEq Expr := ⟨equal⟩

mutual

def text : Expr → String
  | .terminal t => t.text
  | .operator op ops .. => op.name ++ "(" ++ ",".intercalate (texts ops) ++ ")"

def texts : List Expr → List String
  | [] => []
  | e :: es => text e :: texts es

end

mutual

/-- All nodes of an expression, each before its operands. -/
def nodes : Expr → List Expr
  | .terminal t => [.terminal t]
  | .operator op ops shape fi dims => .operator op ops shape fi dims :: nodesOf ops

def nodesOf : List Expr → List Expr
  | [] => []
  | e :: es => nodes e ++ nodesOf es

end

mutual

def terminals : Expr → List Terminal
  | .terminal t => [t]
  | .operator _ ops .. => terminalsOf ops

def terminalsOf : List Expr → List Terminal
  | [] => []
  | e :: es => terminals e ++ terminalsOf es

end

/-- The mesh of the first terminal that has one. -/
def domain? (e : Expr) : Option Domain := e.terminals.findSome? Terminal.domain?

/-- Whether the value of an expression is the same at all points of a cell. -/
def isCellwiseConstant (e : Expr) : Bool := e.terminals.all Terminal.isCellwiseConstant

mutual

/-- Puts expressions in place of terminals. -/
def replace (f : Terminal → Option Expr) : Expr → Expr
  | .terminal t => (f t).getD (.terminal t)
  | .operator op ops shape fi dims => .operator op (replaceAll f ops) shape fi dims

/-- Puts expressions in place of the terminals of a list. -/
def replaceAll (f : Terminal → Option Expr) : List Expr → List Expr
  | [] => []
  | e :: es => replace f e :: replaceAll f es

end

end Expr

/-- Drops repeated items, keeping the first of each. -/
def distinct {α : Type} [BEq α] (xs : List α) : List α :=
  xs.foldl (fun out x => if out.contains x then out else out ++ [x]) []

end FormKernel.Form
