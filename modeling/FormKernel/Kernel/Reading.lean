import FormKernel.CText.ScalarType
import FormKernel.Kernel.Dump
import FormKernel.Kernel.MultiIndex
import FormKernel.Text.Numeral

/-! # Kernel trees from JSON

A node is an object whose member `k` names its form.  `readNode` reads one node and leaves its
parts to a reader that is given. -/

namespace FormKernel.Kernel

open CText (NumberType)
open Machine (Format fits wrap truncated?)

/-- Nodes known by name and the next free tag. -/
structure Reading where
  known : List (String × Operand) := []
  next : Tag := 1

abbrev Read := StateT Reading Outcome

namespace Read

/-- A tag that has not been given. -/
def fresh : Read Tag := modifyGet fun s => (s.next, { s with next := s.next + 1 })

/-- Gives a node a name. -/
def learn (name : String) (o : Operand) : Read Unit :=
  modify fun s => { s with known := s.known.filter (·.1 != name) ++ [(name, o)] }

/-- An expression or statement that has just been made, told from all others. -/
def renew : Operand → Read Operand
  | .expr (.nan tag) => return .expr (.nan tag)
  | .expr e => return .expr (e.renewed (← fresh))
  | .stmt (.expr e) => return .stmt (.expr (e.renewed (← fresh)))
  | o => pure o

def run' {α : Type} (r : Read α) : Outcome α := return (← r.run {}).1

end Read

/-- The number that a value stands for; those that JSON cannot write are written as texts. -/
def numeralOf : Json → Outcome Numeral
  | .bool b => .ok (.bool b)
  | .int n => .ok (.int n)
  | .float x => .ok (.float x)
  | .text s =>
    match Text.real? s with
    | some x => .ok (.float x)
    | none => misfit .wrongValue
  | _ => misfit .wrongKind

/-- The real number that a value stands for. -/
def realOf (j : Json) : Outcome Float := do ArithOp.realOf (← numeralOf j)

/-- A number as a number of a format.  A plain whole number has to fit; of a floating-point
    number the fraction is dropped. -/
def toFormat (f : Format) (n : Numeral) : Outcome Machine.Number := do
  match f, n with
  | .bool, n => return .bool (!n.same (.int 0))
  | .word bits signed, .float x =>
    match truncated? x with
    | none => misfit (if x.isNaN then .wrongValue else .overflow)
    | some m =>
      if fits 64 true m || (!signed && fits 64 false m) then
        return .word bits signed (wrap bits signed m)
      else misfit .overflow
  | .word bits signed, n =>
    match n.int? with
    | some m => if fits bits signed m then return .word bits signed m else misfit .overflow
    | none => misfit .wrongKind
  | f, .complex re im => return .ofParts f re im
  | f, n => return .ofParts f (← ArithOp.realOf n) 0.0

/-- The number of a format that a value stands for; a complex number has two parts. -/
def machineNumber (f : Format) (j : Json) : Outcome Machine.Number := do
  match f.isComplex, j with
  | true, .list [re, im] => toFormat f (.complex (← realOf re) (← realOf im))
  | _, j => toFormat f (← numeralOf j)

def formatOf (dtype : String) : Outcome Format := do
  orMisfit ((← NumberType.ofName dtype).format?) .wrongKind

/-- A number of a machine format as an entry of an array. -/
def entryOf : Machine.Number → Entry
  | .bool b => .bool b
  | .word _ _ n => .int n
  | .half x => .half x
  | .single x => .single x
  | .double x => .double x
  | .extended x => .extended x
  | .complexSingle re im => .complexSingle re im
  | .complexDouble re im => .complexDouble re im

/-- An array: nested lists of real numbers, or a shape, the entries in order and their type. -/
def valuesOf (j : Json) : Outcome Values := do
  match j with
  | .map _ =>
    let f ← formatOf (j["dtype"].text?.getD "float64")
    let shape := j["shape"].toNats
    let data ← j["data"].items.mapM (machineNumber f)
    if data.length != volume shape then misfit .wrongValue
    return ⟨shape, (data.map entryOf).toArray⟩
  | j =>
    let (shape, leaves) ← Initial.flatten (Operand.ofJson j)
    let data ← leaves.mapM fun
      | .none => pure (0.0 / 0.0)
      | .text s => realOf (.text s)
      | .number n => ArithOp.realOf n
      | _ => misfit .wrongKind
    return .ofFloats ⟨shape, data.toArray⟩

/-- The type of a name; it may be left open. -/
def typeOf : Json → Outcome (Option DType)
  | .null => .ok none
  | j =>
    match [DType.real, .scalar, .int, .bool, .none].find? (fun t => some t.name == j.text?) with
    | some t => .ok (some t)
    | none => misfit .noEntry

def expectSymbol : Operand → Outcome Symbol
  | .expr (.symbol s) => .ok s
  | _ => misfit .unmet

def expectMulti : Operand → Outcome MultiIndex
  | .expr e => orMisfit (MultiIndex.ofExpr? e) .noMember
  | _ => misfit .noMember

def expectList : Operand → Outcome (List Operand)
  | .list os => .ok os
  | _ => misfit .wrongKind

/-- An item of a list or of a text by its place, counted from the end if it is negative. -/
def itemAt {α : Type} (items : List α) (place : Numeral) : Outcome α :=
  match place.int?, place with
  | _, .machine (.bool _) | none, _ => misfit .wrongKind
  | some n, _ =>
    let i := if n < 0 then n + items.length else n
    orMisfit (if i < 0 then none else items[i.toNat]?) .outOfRange

/-- An item of an operand, which may be a list, a map or a text. -/
def itemOf (o index : Operand) : Outcome Operand :=
  match o, index with
  | .list os, .number n => itemAt os n
  | .text s, .number n => return .text (String.singleton (← itemAt s.toList n))
  | .map es, .text key => orMisfit (es.lookup key) .noEntry
  | .map _, .list _ | .map _, .map _ => misfit .wrongKind
  | .map _, i => misfit (if i.hashable then .noEntry else .wrongKind)
  | .machine _, _ => misfit .outOfRange
  | _, _ => misfit .wrongKind

def indexList : Operand → List Operand
  | .list os => os
  | o => [o]

/-- The operands of statements: an expression is made into a statement of its own. -/
def ownStatement (tag : Tag) : Operand → Operand
  | .expr e => .expr (e.renewed tag)
  | .list os => .list (os.map (ownStatement tag))
  | o => o

/-- The symbols of a list, none if there is no list. -/
def symbolsIn : Operand → Outcome (List Symbol)
  | .list os => os.mapM fun
    | .expr (.symbol s) => .ok s
    | _ => misfit .noMember
  | _ => .ok []

def annotationOf (j : Json) : Outcome Annotation :=
  orMisfit ( Annotation.all.find? (fun a => some a.name == j.text?)) .noEntry

/-- Names of operators on two operands. -/
def binaryNames : List (String × BinaryOp) := [
  ("Add", .add), ("Sub", .sub), ("Mul", .mul), ("Div", .div), ("EQ", .eq), ("NE", .ne),
  ("LT", .lt), ("GT", .gt), ("LE", .le), ("GE", .ge), ("And", .and), ("Or", .or)]

def assignNames : List (String × AssignOp) := [
  ("Assign", .set), ("AssignAdd", .add), ("AssignSub", .sub), ("AssignMul", .mul),
  ("AssignDiv", .div)]

def readArray (s : Symbol) (j : Json) (tag : Tag) : Outcome Stmt := do
  let sizes := match j["sizes"] with
    | .list ns => some (ns.map Json.toInt)
    | .int n => some [n]
    | _ => none
  let values : Initial ← match j["values"] with
    | .null => pure .none
    | v =>
      match v.get? "list" with
      | some (.list xs) => pure (.nested (xs.map Operand.ofJson))
      | _ => pure (.values (← valuesOf v))
  Stmt.ofArray s sizes values j["const"].toBool tag

def readLoop (index lower upper body : Operand) : Outcome Stmt :=
  match index with
  | .expr e =>
    match body with
    | .list os => Stmt.ofLoop e lower upper os
    | _ => do
      let _ ← Stmt.ofLoop e lower upper []
      misfit .unmet
  | _ => misfit .unmet

/-- Reads one node, given how to read its parts. -/
def readNode (part : Json → Read Operand) (j : Json) : Read Operand := do
  let sub (key : String) : Read Operand := part j[key]
  let list (key : String) : Read (List Operand) := do expectList (← sub key)
  let name := j["k"].toText
  match binaryNames.lookup name, assignNames.lookup name with
  | some op, _ =>
    let a ← sub "a"
    let b ← sub "b"
    return .expr (← Expr.ofBinary op (← a.toExpr) (← b.toExpr))
  | none, some op =>
    let a ← sub "a"
    let b ← sub "b"
    require a.isTree
    return .expr (.assign op (← a.toExpr) (← b.toExpr))
  | none, none =>
    match name with
    | "ref" => orMisfit ((← get).known.lookup j["name"].toText) .noEntry
    | "raw" =>
      match j["num"], j["v"] with
      | .bool true, .text s => return .number (← numeralOf (.text s))
      | _, v => return Operand.ofJson v
    | "float" => return .expr (.float (← realOf j["v"]))
    | "complex" => return .expr (.complex (← realOf j["re"]) (← realOf j["im"]))
    | "int" =>
      match j["v"] with
      | .int n => return .expr (.int (.int n))
      | .bool b => return .expr (.int (.bool b))
      | _ => misfit .unmet
    | "sym" =>
      match j["name"] with
      | .text name => return .expr (.symbol (← Symbol.of name (← typeOf j["dtype"])))
      | _ => misfit .unmet
    | "mi" =>
      let symbols ← list "symbols"
      return .expr (← MultiIndex.of symbols j["sizes"].toInts (← Read.fresh)).toExpr
    | "Neg" => return .expr (.neg (← (← sub "a").toExpr))
    | "Not" => return .expr (.not (← (← sub "a").toExpr))
    | "Sum" => return .expr (← Expr.ofNary .sum (← (← list "args").mapM fun o => o.toExpr))
    | "Product" =>
      let args ← list "args"
      return .expr (← Expr.ofNary .product (← args.mapM fun o => o.toExpr) (← Read.fresh))
    | "Math" =>
      let args ← list "args"
      return .expr (← Expr.ofCall j["func"].toText (← args.mapM fun o => o.toExpr))
    | "access" =>
      let array ← sub "array"
      return .expr (← Expr.ofAccess array (indexList (← sub "indices")))
    | "getitem" =>
      let array ← sub "a"
      let index ← sub "index"
      match array with
      | .expr _ => return .expr (← Expr.ofItem array (indexList index))
      | _ => itemOf array index
    | "neg" => (← sub "a").negated
    | "commented" =>
      let code ← match ← sub "code" with
        | .list os => pure os
        | o => do require o.isTree; pure [o]
      let comments := match j["comments"] with
        | .list cs => cs
        | c => [c]
      require (code.isEmpty || comments.all (·.text?.isSome))
      return .list (Stmt.commented code (comments.map Json.toText))
    | "nested_for" =>
      let indices ← list "indices"
      let body ← sub "body"
      nestedLoops (← indices.mapM fun o => expectMulti o) body
    | "Cond" =>
      let c ← sub "c"
      let t ← sub "t"
      let f ← sub "f"
      return .expr (← Expr.ofConditional (← c.toExpr) (← t.toExpr) (← f.toExpr))
    | "Statement" => return .stmt (.expr (← (← sub "a").toExpr))
    | "StatementList" =>
      let own := ownStatement (← Read.fresh)
      let body := (← list "body").map own
      return .stmt (.list (← body.mapM fun o => o.toStmt))
    | "Comment" =>
      match j["text"] with
      | .text s => return .stmt (.comment s)
      | _ => misfit .unmet
    | "Declaration" => return .stmt (.declaration (← expectSymbol (← sub "symbol")))
    | "VariableDecl" =>
      let s ← expectSymbol (← sub "symbol")
      let value ← match j["value"] with
        | .null => pure none
        | v => some <$> part v
      return .stmt (← Stmt.ofVariable s value (← Read.fresh))
    | "ArrayDecl" =>
      return .stmt (← readArray (← expectSymbol (← sub "symbol")) j (← Read.fresh))
    | "ForRange" =>
      let index ← sub "index"
      let lower ← sub "begin"
      let upper ← sub "end"
      return .stmt (← readLoop index lower upper (ownStatement (← Read.fresh) (← sub "body")))
    | "Section" =>
      let own := ownStatement (← Read.fresh)
      let body := (← list "statements").map own
      let declarations ← sub "declarations"
      let input ← symbolsIn (← sub "input")
      let output ← symbolsIn (← sub "output")
      let annotations ← j["annotations"].items.mapM fun a => annotationOf a
      return .stmt (← Stmt.ofPart j["name"].toText body
        (match declarations with | .list os => os | _ => []) input output annotations
        (← Read.fresh))
    | _ => misfit .noEntry

end FormKernel.Kernel
