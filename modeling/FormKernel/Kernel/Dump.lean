import FormKernel.Json.Access
import FormKernel.Kernel.Operand

/-! # Kernel trees as JSON

A node is a list that starts with the name of its form, followed by its type where it has one
and by its parts. -/

namespace FormKernel.Kernel

open Json (ofTexts ofInts ofValues)

def dumpType : Option DType → Json
  | some t => .text t.name
  | none => .null

def dumpNumeral (n : Numeral) : Json :=
  match n.plain with
  | .bool b => .bool b
  | .int n => .int n
  | .float x => .float x
  | .complex re im => .list [.text "complex", .float re, .float im]
  | .machine m => .float m.real

def Symbol.dump (s : Symbol) : Json := .list [.text "sym", .text s.name, dumpType s.dtype]

def Expr.node (e : Expr) (parts : List Json) : Json :=
  .list (.text e.form :: dumpType e.dtype :: parts)

def Expr.dump : Expr → Json
  | .float x => .list [.text "float", .float x]
  | .nan _ => .list [.text "float", .float (0.0 / 0.0)]
  | .complex re im => .list [.text "complex", .float re, .float im]
  | .int n => .list [.text "int", dumpNumeral n.numeral]
  | .symbol s => s.dump
  | .multiIndex _ symbols sizes flat =>
    .list [.text "mi", .list (symbols.map Expr.dump), ofInts sizes, Expr.dump flat]
  | e@(.neg a) | e@(.not a) => e.node [Expr.dump a]
  | e@(.binary _ a b) | e@(.assign _ a b) => e.node [Expr.dump a, Expr.dump b]
  | e@(.nary _ _ _ args) => e.node [.list (args.map Expr.dump)]
  | e@(.call f args) => e.node [.text f, .list (args.map Expr.dump)]
  | e@(.access s indices) => e.node [s.dump, .list (indices.map Expr.dump)]
  | e@(.conditional c y n) => e.node [Expr.dump c, Expr.dump y, Expr.dump n]

def Stmt.node (s : Stmt) (parts : List Json) : Json := .list (.text s.form :: parts)

def Stmt.dump : Stmt → Json
  | s@(.expr e) => s.node [e.dump]
  | s@(.list body) => s.node [.list (body.map Stmt.dump)]
  | s@(.comment text) => s.node [.text text]
  | s@(.declaration x) => s.node [x.dump]
  | s@(.variableDecl _ x value) => s.node [x.dump, (value.map Expr.dump).getD .null]
  | s@(.arrayDecl _ x sizes values const) =>
    s.node [x.dump, ofInts sizes, (values.map ofValues).getD .null, .bool const]
  | s@(.loop index lower upper body) =>
    s.node [index.dump, lower.dump, upper.dump, (Stmt.list body).node [.list (body.map Stmt.dump)]]
  | s@(.part _ name body declarations input output annotations) =>
    s.node [.text name, .list (body.map Stmt.dump), .list (declarations.map Stmt.dump),
      .list (input.map Symbol.dump), .list (output.map Symbol.dump),
      ofTexts (annotations.map (·.name))]

mutual

def Operand.plainJson : Operand → Json
  | .number n => dumpNumeral n
  | .text s => .text s
  | .list items => .list (items.map Operand.plainJson)
  | .map entries => .map (plainEntries entries)
  | _ => .null

/-- Plain values with their keys. -/
def plainEntries : List (String × Operand) → List (String × Json)
  | [] => []
  | (key, o) :: es => (key, Operand.plainJson o) :: plainEntries es

end

/-- An operand; a plain value is marked as such. -/
def Operand.dump : Operand → Json
  | .expr e => e.dump
  | .stmt s => s.dump
  | .list items => .list (items.map Operand.dump)
  | o => .list [.text "raw", o.plainJson]

mutual

def Operand.ofJson : Json → Operand
  | .null => .none
  | .bool b => .bool b
  | .int n => .int n
  | .float x => .float x
  | .text s => .text s
  | .list xs => .list (xs.map Operand.ofJson)
  | .map es => .map (operandsIn es)

/-- The plain operands of the members of an object. -/
def operandsIn : List (String × Json) → List (String × Operand)
  | [] => []
  | (key, x) :: es => (key, Operand.ofJson x) :: operandsIn es

end

end FormKernel.Kernel
