import FormKernel.Form.Modified
import FormKernel.Quadrature.Rule
import FormKernel.Reference.Points
import FormKernel.Table.Kind

/-! # Values of tables

The values of the basis functions of an element, or of their derivatives, at the points of an
integral, for each entity of the cell.  Tables are named for the element, component, derivatives
and rule they belong to. -/

namespace FormKernel.Table

open Form (Average Cell Element EntityKind IntegralKind ModifiedTerminal)
open Quadrature (Rule)
open Reference (CellData item mapPoints rowLists)

/-- How the component of a table is told in its name. -/
def componentMark : Option Int → String
  | some c => s!"_C{c}"
  | none => ""

/-- How the derivatives of a table are told in its name. -/
def derivativeMark (derivatives : List Nat) : String :=
  if derivatives.any (· != 0) then "_D" ++ String.join (derivatives.map toString) else ""

/-- How the average of a table is told in its name. -/
def averageMark : Option Average → Outcome String
  | none => .ok ""
  | some .cell => .ok "_AC"
  | some .facet => .ok "_AF"
  | some (.unknown _) => misfit .noEntry

/-- How the entities of a table are told in its name. -/
def entityMark : EntityKind → Outcome String
  | .cell => .ok ""
  | .facet => .ok "_F"
  | .vertex => .ok "_V"
  | .unknown _ => misfit .noEntry

def tableName (rule : Rule) (number : Nat) (averaged : Option Average) (entity : EntityKind)
    (derivatives : List Nat) (component : Option Int) : Outcome String := do
  let averaged ← averageMark averaged
  let entity ← entityMark entity
  return s!"FE{number}" ++ componentMark component ++ derivativeMark derivatives ++ averaged ++
    entity ++ s!"_Q{← rule.name}"

/-- Values of a component of an element with the place of its degrees of freedom. -/
structure ComponentTable where
  values : Dense Float
  offset : Nat
  stride : Nat

/-- The kind of integral whose points are used. -/
def pointKind (kind : IntegralKind) (averaged : Option Average) (entity : EntityKind) :
    Outcome IntegralKind := do
  if kind.isCustom then
    require averaged.isNone
    return .cell
  if kind == .expression then
    return if entity == .cell then .cell else .exteriorFacet
  return kind

/-- The points and weights of an average of an element.  Only elements that are sets of points have
    an average. -/
def averagePoints (element : Element) : Outcome (Dense Float × Dense Float) :=
  if element.kind == .quadrature then
    orMisfit element.quadrature .noMember
  else misfit .wrongKind

def weightedMean (weights : List Float) (table : Dense Float) : Outcome (Dense Float) := do
  let total := weights.foldl (· + ·) 0.0
  let means ← (rowLists table).mapM fun row => do
    if row.length != weights.length then misfit .wrongValue
    return (List.zipWith (· * ·) row weights).foldl (· + ·) 0.0 / total
  let dofs := table.shape.getLastD 0
  if means.length != dofs then misfit .wrongValue
  return ⟨[1, dofs], means.toArray⟩

def knownAverage : Option Average → Option IntegralKind
  | some .cell => some .cell
  | some .facet => some .exteriorFacet
  | _ => none

/-- The entities and points at which an element is evaluated, and the weights of an average. -/
def evaluationPoints (kind : IntegralKind) (points : Dense Float) (element : Element)
    (averaged : Option Average) (derivatives : List Nat) :
    Outcome (IntegralKind × Dense Float × Option (List Float)) :=
  match knownAverage averaged with
  | some extent => do
    require (derivatives.all (· == 0))
    let (points, weights) ← averagePoints element
    return (extent, points, some weights.data.toList)
  | none => .ok (kind, points, none)

def meansOf (weights : Option (List Float)) (tables : List (Dense Float)) :
    Outcome (List (Dense Float)) :=
  match weights with
  | some ws => tables.mapM (weightedMean ws)
  | none => .ok tables

/-- The values of a component of an element, or of its derivatives, at points of each entity. -/
def componentTable (data : CellData) (points : Dense Float) (cell : Option Cell)
    (kind : IntegralKind) (element : Element) (averaged : Option Average) (entity : EntityKind)
    (derivatives : List Nat) (component : Int) : Outcome ComponentTable := do
  let kind ← pointKind kind averaged entity
  let (kind, points, weights) ← evaluationPoints kind points element averaged derivatives
  let some cell := cell | misfit .noMember
  let dim ← kind.entityDim cell.dim
  let entities ← item cell.entityCounts dim
  let (sub, offset, stride) ← element.component component
  let tables ← (List.range entities).mapM fun (e : Nat) => do
    let mapped ← mapPoints data points kind cell e
    return sub.tabulate derivatives (rowLists mapped)
  match ← meansOf weights tables with
  | [] => misfit .outOfRange
  | first :: rest =>
    return { values := ⟨1 :: entities :: first.shape,
               (first :: rest).foldl (fun out t => out ++ t.data) #[]⟩
             offset, stride }

structure TerminalElement where
  element : Element
  averaged : Option Average
  derivatives : List Nat
  component : Int

def domainOf (m : ModifiedTerminal) : Outcome Form.Domain := orMisfit m.terminal.domain? .noMember

def coordinateOf (d : Form.Domain) : Outcome Element := orMisfit d.coordinate .noMember

def terminalElement (m : ModifiedTerminal) : Outcome (Option TerminalElement) := do
  let globals := !m.globalDerivatives.isEmpty
  let locals := m.localDerivatives
  let found : Option (Element × Int × List Int) ← match m.terminal with
    | .argument _ _ space _ | .coefficient _ _ space _ =>
      if globals && m.reference then throw .globalOfReference
      if !locals.isEmpty && !m.reference then throw .localOfPhysical
      pure (some (space.element, m.flatComponent, locals))
    | .quantity .spatialCoordinate .. =>
      if m.reference then throw .referenceCoordinate
      if globals then throw .globalOfCoordinate
      let element ← coordinateOf (← domainOf m)
      if !locals.isEmpty then require (m.component == [m.flatComponent])
      pure (some (element, m.flatComponent, locals))
    | .quantity .jacobian .. =>
      if m.reference then throw .referenceJacobian
      if globals then throw .globalOfJacobian
      let element ← coordinateOf (← domainOf m)
      match m.component with
      | [c, d] => pure (some (element, c, (d :: locals).mergeSort))
      | _ => misfit .unmet
    | _ => pure none
  match found with
  | none => return none
  | some (element, component, locals) =>
    require (m.averaged.isNone || (locals.isEmpty && !globals))
    let domain ← domainOf m
    let derivatives := (List.range domain.cell.dim).map fun (i : Nat) => locals.count (i : Int)
    return some { element, averaged := m.averaged, derivatives, component }

end FormKernel.Table
