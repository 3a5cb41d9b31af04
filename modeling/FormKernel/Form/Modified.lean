import FormKernel.Form.Expr
import FormKernel.Form.Measure
import FormKernel.Table.Closeness
import FormKernel.Text.Quoted

/-! # Modified terminals

A terminal under any number of modifiers: a component, derivatives, the pull-back to the
reference cell, a restriction to one side of a facet, an average.  `ModifiedTerminal.of`
reads these off an expression. -/

namespace FormKernel.Form

open Table (indicesOf)

inductive Side where
  | plus | minus
  deriving DecidableEq, Inhabited

def Side.sign : Side → String
  | .plus => "+"
  | .minus => "-"

def Side.ofSign? : String → Option Side
  | "+" => some .plus
  | "-" => some .minus
  | _ => none

structure ModifiedTerminal where
  terminal : Terminal
  /-- Whether the value on the reference cell is meant. -/
  reference : Bool := false
  baseShape : List Nat := []
  baseSymmetry : List (List Nat × List Nat) := []
  component : List Int := []
  flatComponent : Int := 0
  globalDerivatives : List Int := []
  localDerivatives : List Int := []
  averaged : Option Average := none
  restriction : Option Side := none
  deriving Inhabited

namespace Expr

/-- The terminal under modifiers, if there is nothing else. -/
def modified? : Expr → Outcome (Option Terminal)
  | .terminal t => .ok (some t)
  | .operator op ops .. =>
    if op.isModifier then
      match ops with
      | e :: _ => modified? e
      | [] => misfit .outOfRange
    else .ok none

def isModified (e : Expr) : Bool :=
  match e.modified? with
  | .ok (some _) => true
  | _ => false

end Expr

/-- Numbers of the components of a shape: those without an equal component are numbered in
    order, the others take the number of their equal, which has to have one by then. -/
def componentNumbers (shape : List Nat) (symmetry : List (List Nat × List Nat)) :
    Outcome (List (List Nat × Nat)) :=
  let own := (indicesOf shape).filter fun c => (symmetry.lookup c).isNone
  (indicesOf shape).foldlM (fun numbers c =>
    match symmetry.lookup c with
    | none => .ok numbers
    | some m =>
      match numbers.lookup m with
      | some n => .ok (numbers ++ [(c, n)])
      | none => misfit .noEntry) (own.zip (List.range own.length))

namespace ModifiedTerminal

/-- What has been read off the modifiers so far. -/
structure Layers where
  component : Option (List Int) := none
  globalDerivatives : List Int := []
  localDerivatives : List Int := []
  reference : Bool := false
  restriction : Option Side := none
  averaged : Option Average := none

/-- Moves the last index to the derivatives. -/
def Layers.derivative (layers : Layers) : Outcome (List Int × Int) :=
  match layers.component with
  | some c =>
    match c.getLast? with
    | some d => .ok (c.dropLast, d)
    | none => .error .gradientWithoutIndex
  | none => .error .gradientWithoutIndex

def single : List Expr → Outcome Unit
  | [_] => .ok ()
  | _ => misfit .wrongValue

def Layers.restrict (layers : Layers) (side : Side) : Outcome Layers :=
  if layers.restriction.isSome then .error .twiceRestricted
  else .ok { layers with restriction := some side }

def Layers.average (layers : Layers) (extent : Average) : Outcome Layers :=
  if layers.averaged.isSome then .error .twiceAveraged
  else .ok { layers with averaged := some extent }

/-- Takes one modifier into account. -/
def Layers.take (layers : Layers) (e : Expr) (op : Operator) (ops : List Expr) :
    Outcome Layers := do
  match op with
  | .indexed =>
    if layers.component.isSome then throw .twiceIndexed
    match ops with
    | [_, i] =>
      match i.indices? with
      | some is =>
        if !is.all Index.isFixed then throw .expectedFixedIndices
        return { layers with component := some (is.map Index.number) }
      | none => misfit .wrongKind
    | _ => misfit .wrongValue
  | .referenceValue =>
    if layers.reference then throw .twicePulledBack
    single ops
    return { layers with reference := true }
  | .referenceGrad =>
    let (component, d) ← layers.derivative
    single ops
    return { layers with component, localDerivatives := layers.localDerivatives ++ [d] }
  | .grad =>
    let (component, d) ← layers.derivative
    single ops
    return { layers with component, globalDerivatives := layers.globalDerivatives ++ [d] }
  | .positiveRestricted => do let layers ← layers.restrict .plus; single ops; return layers
  | .negativeRestricted => do let layers ← layers.restrict .minus; single ops; return layers
  | .restricted =>
    if layers.restriction.isSome then throw .twiceRestricted
    misfit .noMember
  | .cellAvg => do let layers ← layers.average .cell; single ops; return layers
  | .facetAvg => do let layers ← layers.average .facet; single ops; return layers
  | _ => throw (.unhandledModifier e.head.typeText e.text)

/-- Reads all modifiers down to the terminal. -/
def Layers.read (layers : Layers) : Expr → Outcome (Layers × Terminal)
  | .terminal t => .ok (layers, t)
  | .operator op ops shape fi dims => do
    let layers ← layers.take (.operator op ops shape fi dims) op ops
    match ops with
    | e :: _ => read layers e
    | [] => misfit .wrongValue

/-- Whether derivatives of both kinds are allowed for values of either kind. -/
def freelyDifferentiable : Terminal → Bool
  | .quantity .spatialCoordinate .. | .quantity .jacobian .. => true
  | _ => false

/-- Refuses derivatives that do not go with the values they are taken of. -/
def Layers.checkDerivatives (layers : Layers) (t : Terminal) : Outcome Unit := do
  if !freelyDifferentiable t then
    if !layers.localDerivatives.isEmpty && !layers.reference then throw .localOfGlobal
    if !layers.globalDerivatives.isEmpty && layers.reference then throw .globalOfLocal

/-- The shape of a terminal, or of its value on the reference cell, and the components that are
    equal to others. -/
def base (t : Terminal) (reference : Bool) : List Nat × List (List Nat × List Nat) :=
  match t.space? with
  | some space =>
    if reference then (space.element.shape, []) else (t.shape, space.element.symmetry)
  | none => (t.shape, [])

def of (e : Expr) : Outcome ModifiedTerminal := do
  let (layers, t) ← Layers.read {} e
  layers.checkDerivatives t
  let component := layers.component.getD []
  let (baseShape, baseSymmetry) := base t layers.reference
  if component.length != baseShape.length then throw .componentRank
  if !(component.zip baseShape).all (fun (c, d) => 0 ≤ c && c < d) then throw .componentRange
  let numbers ← componentNumbers baseShape baseSymmetry
  match numbers.lookup (component.map Int.toNat) with
  | none => misfit .noEntry
  | some flat =>
    return { terminal := t, reference := layers.reference, baseShape, baseSymmetry, component,
             flatComponent := flat,
             globalDerivatives := layers.globalDerivatives.mergeSort,
             localDerivatives := layers.localDerivatives.mergeSort,
             averaged := layers.averaged, restriction := layers.restriction }

/-- Whether two modified terminals stand for the same values. -/
def equal (a b : ModifiedTerminal) : Bool :=
  a.terminal == b.terminal && a.reference == b.reference &&
  a.flatComponent == b.flatComponent && a.globalDerivatives == b.globalDerivatives &&
  a.localDerivatives == b.localDerivatives && a.averaged == b.averaged &&
  a.restriction == b.restriction

instance : BEq ModifiedTerminal := ⟨equal⟩

def text (m : ModifiedTerminal) : String :=
  let optional (s : Option String) := s.getD "None"
  let numbers (ns : List Int) := Text.inRounds (ns.map toString)
  s!"terminal:           {m.terminal.text}\n" ++
  s!"global_derivatives: {numbers m.globalDerivatives}\n" ++
  s!"local_derivatives:  {numbers m.localDerivatives}\n" ++
  s!"averaged:           {optional (m.averaged.map Average.name)}\n" ++
  s!"component:          {numbers m.component}\n" ++
  s!"restriction:        {optional (m.restriction.map Side.sign)}"

structure Key where
  number : Int
  part : Option Int
  reference : Bool
  flatComponent : Int
  globalDerivatives : List Int
  localDerivatives : List Int
  averaged : Option Average
  restriction : Option Side

def key (m : ModifiedTerminal) : Outcome Key :=
  match m.terminal with
  | .argument number part .. =>
    if number ≥ 0 then
      .ok ⟨number, part, m.reference, m.flatComponent, m.globalDerivatives, m.localDerivatives,
        m.averaged, m.restriction⟩
    else misfit .unmet
  | _ => misfit .unmet

namespace Key

/-- The order of two values of which both or neither have to be given. -/
def compareGiven {α : Type} (cmp : α → α → Ordering) : Option α → Option α → Outcome Ordering
  | some a, some b => .ok (cmp a b)
  | none, none => .ok .eq
  | _, _ => misfit .wrongKind

/-- The order of keys.  A given value cannot be ordered against a missing one. -/
def compare (a b : Key) : Outcome Ordering := do
  let early := (Ord.compare a.number b.number)
  if early != .eq then return early
  let part ← compareGiven Ord.compare a.part b.part
  if part != .eq then return part
  let middle := (Ord.compare a.reference b.reference).then
    ((Ord.compare a.flatComponent b.flatComponent).then
    ((Ord.compare a.globalDerivatives b.globalDerivatives).then
    (Ord.compare a.localDerivatives b.localDerivatives)))
  if middle != .eq then return middle
  let averaged ← compareGiven (fun x y => Ord.compare x.name y.name) a.averaged b.averaged
  if averaged != .eq then return averaged
  compareGiven (fun x y => Ord.compare x.sign y.sign) a.restriction b.restriction

def before (a b : Key) : Outcome Bool := return (← compare a b) == .lt

end Key

end ModifiedTerminal

end FormKernel.Form
