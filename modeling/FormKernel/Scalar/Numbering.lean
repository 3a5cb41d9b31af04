import FormKernel.Graph.Vertices
import FormKernel.Scalar.IndexMap

/-! # Numbers of scalar values

Every scalar component of every node of an expression graph gets the number of its value.
Components that are equal by symmetry share a number, and nodes that only rearrange components
take the numbers of their operands. -/

namespace FormKernel.Scalar

open Form (Expr ModifiedTerminal Space)
open Table (indicesOf)

/-- New numbers, one for each. -/
def fresh (start count : Nat) : List Nat := (List.range count).map (· + start)

/-- Numbers for keys: equal keys share a number, new keys are numbered from `start`. -/
def numberKeys (start : Nat) (keys : List (List Nat)) : List Nat × Nat :=
  let different := Form.distinct keys
  (keys.map fun k => start + (different.findIdx? (· == k)).getD 0, start + different.length)

def componentCount (e : Expr) : Nat := volume (totalShape e)

/-- The least of indices in lexicographic order. -/
def leastIndex (first : List Nat) (rest : List (List Nat)) : List Nat :=
  rest.foldl (fun a b => if b < a then b else a) first

/-- The first component that shares its number with a component of a symmetric tensor. -/
def symmetricKey (numbers : List (List Nat × Nat)) (c : List Nat) : Outcome (List Nat) :=
  match numbers.lookup c with
  | none => misfit .noEntry
  | some n =>
    match (numbers.filter (·.2 == n)).map (·.1) with
    | [] => misfit .noEntry
    | first :: rest => .ok (leastIndex first rest)

def numberArgument (start : Nat) (e : Expr) (space : Space) : Outcome (List Nat × Nat) := do
  match space.element.symmetricNumbers with
  | some numbers =>
    let keys ← (indicesOf e.shape).mapM (symmetricKey numbers)
    return numberKeys start keys
  | none => return (fresh start (componentCount e), start + componentCount e)

def derivativeComponents (m : ModifiedTerminal) : Outcome (List (List Nat)) := do
  let locals := m.localDerivatives.length
  let globals := m.globalDerivatives.length
  require (!(locals > 0 && globals > 0))
  if locals > 0 then
    match m.terminal.domain? with
    | some d => return indicesOf (List.replicate locals d.cell.dim)
    | none => misfit .noMember
  else if globals > 0 then misfit .noMember
  else return [[]]

/-- Numbers for a terminal under modifiers; derivatives commute. -/
def numberModified (start : Nat) (e : Expr) : Outcome (List Nat × Nat) := do
  let m ← ModifiedTerminal.of
    (if e.shape.isEmpty then e else e.component (e.shape.map fun _ => 0))
  let derivatives ← derivativeComponents m
  let keys := (indicesOf m.baseShape).flatMap fun c =>
    derivatives.map fun d => (m.baseSymmetry.lookup c).getD c ++ d.mergeSort
  let (symbols, next) := numberKeys start keys
  require e.freeIndices.isEmpty
  if volume e.shape != symbols.length then throw .numberingMismatch
  return (symbols, next)

def numbersOf (exprs : List Expr) (symbols : List (List Nat)) (e : Expr) : Outcome (List Nat) :=
  match Graph.numberOf exprs e with
  | none => misfit .outOfRange
  | some i => itemAt symbols i

/-- Picks items by place, which may be counted from the end. -/
def pick {α : Type} (xs : List α) (places : List Int) : Outcome (List α) :=
  places.mapM fun k =>
    let place : Int := if k < 0 then k + xs.length else k
    if place < 0 then misfit .outOfRange else itemAt xs place.toNat

def firstOperand (e : Expr) : Outcome Expr := itemAt e.operands 0

/-- The numbers of the components of a node, given those of the nodes before it, and the next free
    number. -/
def numberNode (exprs : List Expr) (symbols : List (List Nat)) (start : Nat) (e : Expr) :
    Outcome (List Nat × Nat) := do
  match e with
  | .terminal (.argument _ _ space _) | .terminal (.coefficient false _ space _) =>
    numberArgument start e space
  | .terminal _ => return (fresh start (componentCount e), start + componentCount e)
  | .operator op .. =>
    match op with
    | .grad | .referenceGrad | .facetAvg | .cellAvg | .restricted | .referenceValue =>
      numberModified start e
    | .indexed =>
      let inner ← numbersOf exprs symbols (← firstOperand e)
      return (← pick inner (← indexedComponents e), start)
    | .componentTensor =>
      let inner ← numbersOf exprs symbols (← firstOperand e)
      return (← pick inner (← tensorComponents e), start)
    | .listTensor =>
      let rows ← e.operands.mapM (numbersOf exprs symbols)
      return (rows.flatten, start)
    | .labelled => return (← numbersOf exprs symbols (← firstOperand e), start)
    | _ => return (fresh start (componentCount e), start + componentCount e)

def numberAll (exprs : List Expr) : Outcome (List (List Nat) × Nat) :=
  exprs.foldlM (fun (symbols, start) e => do
    let (own, next) ← numberNode exprs symbols start e
    return (symbols ++ [own], next)) ([], 0)

end FormKernel.Scalar
