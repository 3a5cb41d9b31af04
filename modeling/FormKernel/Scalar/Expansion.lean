import FormKernel.Scalar.Componentwise
import FormKernel.Scalar.Numbering

/-! # Expansion into scalars

An expression is expanded into the scalar expressions of its components, and these are laid out
as a graph whose edges lead from each operator to its operands. -/

namespace FormKernel.Scalar

open Form (Builder Expr)
open FormKernel.Graph (Vertex)
open Table (indicesOf)

/-- The scalar expressions found so far, by number. -/
abbrev Found := List (Option Expr)

/-- Stores an expression at its number.  The numbers that one node has stored already are kept
    beside the expressions found. -/
def storeStep (state : Found × List Nat) (pair : Nat × Expr) : Outcome (Found × List Nat) :=
  match state.1[pair.1]? with
  | some none => .ok (state.1.set pair.1 (some pair.2), pair.1 :: state.2)
  | some (some _) => if state.2.contains pair.1 then .ok state else misfit .unmet
  | none => misfit .outOfRange

/-- Stores expressions at their numbers.  A number that is shared may only be stored twice by one
    node. -/
def store (found : Found) (pairs : List (Nat × Expr)) : Outcome Found :=
  return (← pairs.foldlM storeStep (found, [])).1

def operandComponents (exprs : List Expr) (symbols : List (List Nat)) (found : Found)
    (e operand : Expr) : Outcome (List Expr) := do
  if operand.indices?.isSome then
    if e.head == .operator .indexSum then return []
    throw (.unexpectedMultiIndex e.head.typeText)
  match Graph.numberOf exprs operand with
  | none => misfit .noEntry
  | some k =>
    (← itemAt symbols k).mapM fun s =>
      match found[s]? with
      | some (some w) => pure w
      | _ => misfit .wrongKind

def nodeComponents [Builder] (exprs : List Expr) (symbols : List (List Nat))
    (found : Found) (e : Expr) (own : List Nat) : Outcome (List Expr) := do
  if e.isModified then
    if !e.shape.isEmpty then return (indicesOf e.shape).map e.component
    if own.length != 1 then throw .singleNumber
    return [e]
  let ops ← e.operands.mapM (operandComponents exprs symbols found e)
  let ws ← componentwise e ops
  if own.length != ws.length then throw .oneNumberEach
  return ws

/-- Adds the components of a node unless they are known. -/
def expandNode [Builder] (exprs : List Expr) (symbols : List (List Nat)) (found : Found)
    (node : Expr × List Nat) : Outcome Found := do
  let (e, own) := node
  if own.all fun s => (found[s]?.getD none).isSome then return found
  let ws ← nodeComponents exprs symbols found e own
  store found (own.zip ws)

/-- The scalar expressions of the components of the last of the expressions. -/
def expand [Builder] (exprs : List Expr) : Outcome (List Expr) := do
  let (symbols, count) ← numberAll exprs
  let found ← (exprs.zip symbols).foldlM (expandNode exprs symbols) (List.replicate count none)
  match symbols.getLast? with
  | none => misfit .outOfRange
  | some own =>
    own.mapM fun s =>
      match found[s]? with
      | some (some w) => pure w
      | _ => misfit .noMember

/-- Adds the edges from each operator to its operands.  Terminals under modifiers have none. -/
def connect (g : Graph Nat Vertex) : Outcome (Graph Nat Vertex) := do
  let exprs := g.exprs
  let targets ← exprs.mapM fun e =>
    if e.isTerminal || e.isModifier then pure []
    else e.operands.mapM fun o => orMisfit (Graph.numberOf exprs o) .noEntry
  ((List.range targets.length).zip targets).foldlM (fun g (i, ks) =>
    (ks.filter (· != i)).foldlM (fun g k => g.addEdge i k) g) g

def scalarGraph [Builder] (e : Expr) : Outcome (Graph Nat Vertex) := do
  let g ← Graph.ofExprs false [e]
  connect (← Graph.ofExprs true (← expand g.exprs))

end FormKernel.Scalar
