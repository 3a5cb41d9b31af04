import FormKernel.Kernel.Construct
import FormKernel.Kernel.Equality

/-! # Fusion of sections and loops

`fuseSections` joins all sections of one name at the place of the first.  `fuseLoops`
joins the loops of a section that have the same index and bounds. -/

namespace FormKernel.Kernel

/-- The symbols of a list without those already met. -/
def distinctSymbols (symbols : List Symbol) : List Symbol :=
  symbols.foldl (fun out s => if out.any (Symbol.same s) then out else out ++ [s]) []

/-- A section that lists its symbols by name. -/
def Stmt.sorted : Stmt → Stmt
  | .part tag name body declarations input output annotations =>
    let sort (symbols : List Symbol) := symbols.mergeSort fun a b => decide (a.name ≤ b.name)
    .part tag name body declarations (sort input) (sort output) annotations
  | s => s

namespace Stmt

/-- Whether a statement is a section of the given name. -/
def isNamed (name : String) : Stmt → Bool
  | .part _ n .. => n == name
  | _ => false

def body : Stmt → List Stmt
  | .part _ _ b .. => b
  | _ => []

def declarations : Stmt → List Stmt
  | .part _ _ _ ds .. => ds
  | _ => []

/-- The symbols that a section reads. -/
def input : Stmt → List Symbol
  | .part _ _ _ _ i .. => i
  | _ => []

/-- The symbols that a section sets. -/
def output : Stmt → List Symbol
  | .part _ _ _ _ _ o _ => o
  | _ => []

def annotations : Stmt → List Annotation
  | .part _ _ _ _ _ _ a => a
  | _ => []

end Stmt

/-- Joins all sections of the given name. -/
def fuseSections (code : List Stmt) (name : String) : Outcome (List Stmt) := do
  let parts := code.filter (·.isNamed name)
  let fused ← Stmt.ofPart name ((parts.flatMap Stmt.body).map .stmt)
    ((parts.flatMap Stmt.declarations).map .stmt) (distinctSymbols (parts.flatMap Stmt.input))
    (distinctSymbols (parts.flatMap Stmt.output)) ((parts.getLast?.map Stmt.annotations).getD [])
  match code.dropWhile (fun s => !s.isNamed name) with
  | [] => return code
  | _ :: after =>
    return code.takeWhile (fun s => !s.isNamed name) ++
      fused :: after.filter (fun s => !s.isNamed name)

/-- A loop that several bodies share. -/
structure LoopGroup where
  index : Expr
  lower : Expr
  upper : Expr
  bodies : List (List Stmt)

/-- Adds a body to the group with the same index and bounds. -/
def addToGroup (index lower upper : Expr) (body : List Stmt) : List LoopGroup → List LoopGroup
  | [] => [⟨index, lower, upper, [body]⟩]
  | g :: rest =>
    if g.index.same index && g.lower.same lower && g.upper.same upper then
      { g with bodies := g.bodies ++ [body] } :: rest
    else g :: addToGroup index lower upper body rest

/-- Groups loops by index and bounds, which have to be usable as keys. -/
def groupLoops : List Stmt → List LoopGroup → Outcome (List LoopGroup)
  | [], groups => .ok groups
  | .loop index lower upper body :: rest, groups =>
    if index.hashable && lower.hashable && upper.hashable then
      groupLoops rest (addToGroup index lower upper body groups)
    else misfit .wrongKind
  | _ :: rest, groups => groupLoops rest groups

def Stmt.isLoop : Stmt → Bool
  | .loop .. => true
  | _ => false

/-- Joins the loops that have the same index and bounds and puts them behind the other
    statements. -/
def loopsLast (body : List Stmt) : Outcome (List Stmt) := do
  let groups ← groupLoops body []
  let loops ← groups.mapM fun g =>
    Stmt.ofLoop g.index (.expr g.lower) (.expr g.upper) (g.bodies.map fun b => .stmt (.list b))
  return body.filter (fun s => !s.isLoop) ++ loops

/-- Joins the loops of a section.  The result has no annotations. -/
def fuseLoops : Stmt → Outcome Stmt
  | .part _ name body declarations input output _ => do
    Stmt.ofPart name ((← loopsLast body).map .stmt) (declarations.map .stmt) input output []
  | .list body => do
    let _ ← loopsLast body
    misfit .noMember
  | _ => misfit .noMember

end FormKernel.Kernel
