import FormKernel.Binding.Access

/-! # Definitions of terminals

The section of a kernel that computes the variable of a coefficient, of a coordinate or of an
entry of the Jacobian as a linear combination of degrees of freedom.  Terminals that are read in
place need no definition. -/

namespace FormKernel.Binding

open Form (ModifiedTerminal)
open Kernel (Expr MultiIndex Operand Stmt Symbol)
open Quadrature (Rule)
open Table (TableRef)

def symbolOf : Operand → Outcome Symbol
  | .expr (.symbol s) => .ok s
  | _ => misfit .unmet

/-- A section that sums products of degrees of freedom with a table into a variable. -/
def sumSection (name : String) (variable_ : Operand) (dof table : Expr) (index : MultiIndex)
    (input : List Symbol) : Outcome Stmt := do
  let v ← symbolOf variable_
  let declaration ← Stmt.ofVariable v (some (.float 0.0))
  let term ← ArithOp.apply .mul (.expr dof) (.expr table)
  let body : Operand := .list [.expr (.assign .add (.symbol v) (← term.toExpr))]
  let loops ← Kernel.nestedLoops [index] body
  Stmt.ofPart name [loops] [.stmt declaration] input [v] [.fuse]

/-- A coefficient at a point is the sum of its degrees of freedom times basis functions. -/
def coefficientDefinition (l : Layout) (declared : List String) (m : ModifiedTerminal)
    (table : Option TableRef) (rule : Option Rule) (variable_ : Operand) :
    Outcome (Option Stmt) := do
  let point ← ruleIndex rule pointIndex.name
  match table with
  | none => misfit .noMember
  | some t =>
    let dof ← dofIndex t dofSumIndex.name
    let dofs ← tableDofs t
    let width := tableSpan t dofs
    if t.kind == .zeros then return none
    if t.kind == .ones && width == 1 then return none
    require (width > 0)
    let (value, tables) ← tableAccess declared t l.entity m.restriction point dof
    let place ← plus (← times (.expr dof.flat) (.int t.blockSize)) (.int t.offset)
    let entry ← coefficientDof l m.terminal place
    return some (← sumSection m.terminal.head.name variable_ entry value dof
      (coefficients :: tables))

/-- A coordinate is the sum of those of the vertices times basis functions of the cell. -/
def coordinateDefinition (l : Layout) (declared : List String) (m : ModifiedTerminal)
    (table : Option TableRef) (rule : Option Rule) (variable_ : Operand) :
    Outcome (Option Stmt) := do
  let d ← domainOf m
  match d.coordinate.bind (·.subElements.head?), table with
  | none, _ | _, none => misfit .noMember
  | some scalar, some t =>
    require (scalar.dim == (← tableDofs t))
    require (t.kind != .zeros)
    require (t.kind != .ones)
    let dof ← dofIndex t dofSumIndex.name
    let point ← ruleIndex rule pointIndex.name
    let (value, tables) ← tableAccess declared t l.entity m.restriction point dof
    let offset : Int := if m.restriction == some .minus then (scalar.dim : Int) * 3 else 0
    let place ← plus (← plus (← times (.expr dof.flat) (.int 3)) (.int t.offset)) (.int offset)
    let entry ← item coordinateDofs [place]
    return some (← sumSection m.terminal.head.name variable_ entry value dof
      (coordinateDofs :: tables))

def definition (l : Layout) (declared : List String) (m : ModifiedTerminal)
    (table : Option TableRef) (rule : Option Rule) (variable_ : Operand) :
    Outcome (Option Stmt) :=
  match m.terminal with
  | .coefficient .. => coefficientDefinition l declared m table rule variable_
  | .constant .. => .ok none
  | .quantity q .. =>
    match q with
    | .jacobian => coordinateDefinition l declared m table rule variable_
    | .spatialCoordinate =>
      if l.kind.isCustom then .ok none
      else coordinateDefinition l declared m table rule variable_
    | .cellVertices | .facetEdgeVectors | .cellEdgeVectors | .cellFacetJacobian
    | .referenceCellVolume | .referenceFacetVolume | .referenceCellEdgeVectors
    | .referenceFacetEdgeVectors | .referenceNormal | .cellOrientation
    | .facetOrientation => .ok none
    | _ => .error .noDefinition
  | _ => .error .noDefinition

end FormKernel.Binding
