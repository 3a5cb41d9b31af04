import FormKernel.Binding.Names
import FormKernel.Reference.Basic

/-! # Access to terminals

The kernel expression for the value of a modified terminal: an item of an argument of the kernel,
of a table of the reference cell, or the variable that a definition computes. -/

namespace FormKernel.Binding

open Form (Cell Domain Element EntityKind ModifiedTerminal Side)
open Kernel (DType Expr MultiIndex Operand Symbol)
open Quadrature (Rule)
open Table (TableRef)

def domainOf (m : ModifiedTerminal) : Outcome Domain := orMisfit m.terminal.domain? .noMember

def componentAt (m : ModifiedTerminal) (k : Nat) : Outcome Int :=
  orMisfit m.component[k]? .outOfRange

def onlyItem {α : Type} : List α → Outcome α
  | [x] => .ok x
  | _ => misfit .wrongValue

/-- Cells with flat facets of one type. -/
def isRegular : Cell → Bool
  | .interval | .triangle | .tetrahedron | .quadrilateral | .hexahedron => true
  | _ => false

def cellTable (cell : Cell) (name : String) (dtype : DType) (indices : List Operand) :
    Outcome Expr :=
  item ⟨s!"{cell.name}_{name}", some dtype⟩ indices

/-- The values of a coefficient that is a single degree of freedom are read in place. -/
def coefficientAccess (l : Layout) (m : ModifiedTerminal) (table : Option TableRef) :
    Outcome Operand := do
  match table with
  | none => misfit .noMember
  | some t =>
    require (t.kind != .zeros)
    if t.kind == .ones && tableSpan t (← tableDofs t) == 1 then
      return .expr (← coefficientDof l m.terminal (.int t.offset))
    else return .expr (.symbol (← coefficientVariable l m))

def vectorExtent (m : ModifiedTerminal) : Outcome Nat := onlyItem m.terminal.shape

def coordinateAccess (l : Layout) (m : ModifiedTerminal) : Outcome Operand := do
  if !m.globalDerivatives.isEmpty then throw .coordinateDerivative
  if m.averaged.isSome then throw .coordinateAverage
  if l.kind.isCustom then
    if !m.localDerivatives.isEmpty then throw .customJacobian
    let gdim ← vectorExtent m
    let point : Operand := .expr (.symbol pointIndex)
    let index ← if gdim == 1 then pure point
      else do plus (← times point (.int gdim)) (.int m.flatComponent)
    return .expr (← item givenPoints [index])
  return .expr (.symbol (← coordinateVariable m))

/-- A coordinate in the reference cell has no access: it is expected to be gone. -/
def cellCoordinateAccess (l : Layout) (m : ModifiedTerminal) (rule : Option Rule) :
    Outcome Operand := do
  if !m.globalDerivatives.isEmpty || !m.localDerivatives.isEmpty then
    throw .cellCoordinateDerivative
  if m.averaged.isSome then throw .cellCoordinateAverage
  if l.kind == .cell && m.restriction.isNone then
    let _ ← pointsTable rule
    let _ ← vectorExtent m
    misfit .wrongKind
  throw .cellCoordinateLeft

/-- A coordinate in the reference facet, which is zero on a vertex. -/
def facetCoordinateAccess (l : Layout) (m : ModifiedTerminal) : Outcome Operand := do
  if !m.globalDerivatives.isEmpty || !m.localDerivatives.isEmpty then
    throw .facetCoordinateDerivative
  if m.averaged.isSome then throw .facetCoordinateAverage
  if m.restriction.isSome then throw .facetCoordinateSide
  if l.kind.isFacet then
    match ← vectorExtent m with
    | 0 => throw .vertexCoordinate
    | 1 => return .expr (.float 0.0)
    | _ => misfit .noMember
  throw .facetCoordinateLeft

def scalarCoordinateElement (d : Domain) : Outcome (Element × Element) := do
  match d.coordinate with
  | none => misfit .unmet
  | some e =>
    require (e.kind == .blocked)
    require (e.shape == [d.gdim])
    let scalar ← onlyItem (Form.distinct e.subElements)
    require (scalar.valueSize == 1 && scalar.blockSize == 1)
    return (e, scalar)

def vertexDof (scalar : Element) (vertex : Int) : Outcome Operand := do
  let dofs ← Reference.item scalar.entityDofs 0
  let dof ← onlyItem (← Reference.item dofs vertex)
  return .int dof

def vertexAccess (m : ModifiedTerminal) : Outcome Operand := do
  let (_, scalar) ← scalarCoordinateElement (← domainOf m)
  let _ ← Reference.item scalar.entityDofs 0
  let dof ← vertexDof scalar (← componentAt m 0)
  return .expr (← coordinateDof dof (.int (← componentAt m 1)) scalar.dim m.restriction)

def nodeDifference (a b : Operand) (component : Int) (dofs : Nat) (side : Option Side) :
    Outcome Operand := do
  let a ← coordinateDof a (.int component) dofs side
  let b ← coordinateDof b (.int component) dofs side
  ArithOp.apply .sub (.expr a) (.expr b)

def cellEdgeAccess (m : ModifiedTerminal) : Outcome Operand := do
  let d ← domainOf m
  match d.cell with
  | .triangle | .tetrahedron | .quadrilateral | .hexahedron => pure ()
  | .interval => throw .cellEdgesOfInterval
  | c => throw (.unhandledCell c.name)
  let (_, scalar) ← scalarCoordinateElement d
  let _ ← Reference.item scalar.entityDofs 0
  let edge ← componentAt m 0
  match ← Reference.item (← Reference.item scalar.topology 1) edge with
  | [v, w] =>
    let a ← vertexDof scalar v
    let b ← vertexDof scalar w
    nodeDifference a b (← componentAt m 1) scalar.dim m.restriction
  | _ => misfit .wrongValue

def facetEdgeAccess (m : ModifiedTerminal) : Outcome Operand := do
  let d ← domainOf m
  match d.cell with
  | .tetrahedron | .hexahedron => pure ()
  | .interval | .triangle | .quadrilateral => throw (.facetEdgesOfFlat d.cell.name)
  | c => throw (.unhandledCell c.name)
  let (element, scalar) ← scalarCoordinateElement d
  let facet ← entityNumber .facet m.restriction
  let edge ← componentAt m 0
  let vertex (k : Int) : Outcome Expr :=
    cellTable d.cell "facet_edge_vertices" .int [facet, .int edge, .int k]
  let v ← vertex 0
  let w ← vertex 1
  let component ← componentAt m 1
  if element.superdegree != 1 then throw (.unmetBecause "Assuming degree 1 element")
  nodeDifference (.expr v) (.expr w) component scalar.dim m.restriction

/-- A table of the reference cell that is read by component. -/
def referenceAccess (m : ModifiedTerminal) (name : String) (byFacet : Bool)
    (rank : Nat) : Outcome Operand := do
  let d ← domainOf m
  let facet ← if byFacet then do pure [← entityNumber .facet m.restriction] else pure []
  let components ← (List.range rank).mapM fun k => do return Operand.int (← componentAt m k)
  return .expr (← cellTable d.cell name .real (facet ++ components))

/-- The value of a modified terminal. -/
def access (l : Layout) (m : ModifiedTerminal) (table : Option TableRef) (rule : Option Rule) :
    Outcome Operand := do
  match m.terminal with
  | .coefficient .. => coefficientAccess l m table
  | .constant .. => return .expr (← constantItem l m.terminal m.flatComponent)
  | .quantity q .. =>
    match q with
    | .jacobian =>
      if m.averaged.isSome then throw .jacobianAverage
      return .expr (.symbol (← jacobianVariable m))
    | .spatialCoordinate => coordinateAccess l m
    | .cellCoordinate => cellCoordinateAccess l m rule
    | .facetCoordinate => facetCoordinateAccess l m
    | .cellVertices => vertexAccess m
    | .cellEdgeVectors => cellEdgeAccess m
    | .facetEdgeVectors => facetEdgeAccess m
    | .cellOrientation => return .int 1
    | .referenceCellVolume =>
      let d ← domainOf m
      if isRegular d.cell then referenceAccess m "reference_cell_volume" false 0
      else throw (.unhandledCell d.cell.name)
    | .referenceFacetVolume =>
      let d ← domainOf m
      if isRegular d.cell then referenceAccess m "reference_facet_volume" false 0
      else throw (.unhandledCell d.cell.name)
    | .referenceNormal =>
      let d ← domainOf m
      if isRegular d.cell then referenceAccess m "reference_facet_normals" true 1
      else throw (.unhandledCell d.cell.name)
    | .cellFacetJacobian =>
      match (← domainOf m).cell with
      | .triangle | .tetrahedron | .quadrilateral | .hexahedron =>
        referenceAccess m "reference_facet_jacobian" true 2
      | .interval => throw .facetJacobianOfInterval
      | c => throw (.unhandledCell c.name)
    | .referenceCellEdgeVectors =>
      match (← domainOf m).cell with
      | .triangle | .tetrahedron | .quadrilateral | .hexahedron =>
        referenceAccess m "reference_edge_vectors" false 2
      | .interval => throw .referenceEdgesOfInterval
      | c => throw (.unhandledCell c.name)
    | .referenceFacetEdgeVectors =>
      match (← domainOf m).cell with
      | .tetrahedron | .hexahedron => referenceAccess m "reference_edge_vectors" true 2
      | .interval | .triangle | .quadrilateral => throw .referenceFacetEdgesOfFlat
      | c => throw (.unhandledCell c.name)
    | .facetOrientation =>
      let d ← domainOf m
      match d.cell with
      | .interval | .triangle | .tetrahedron =>
        return .expr (← cellTable d.cell "facet_orientations" .int
          [← entityNumber .facet m.restriction])
      | c => throw (.unhandledCell c.name)
    | _ => throw (.noAccess m.terminal.head.typeText)
  | t => throw (.noAccess t.head.typeText)

/-- A factor of a table that is a product, at its own point and degree of freedom. -/
def factorAccess (declared : List String) (t : TableRef) (permutation entity : Operand)
    (point dof : MultiIndex) (i : Nat) : Outcome (Expr × Symbol) := do
  match t.factors with
  | none => misfit .wrongKind
  | some fs =>
    match fs[i]? with
    | none => misfit .outOfRange
    | some f =>
      let iq ← point.localIndex i
      let ic ← dof.localIndex i
      if !declared.contains f.name then misfit .noEntry
      let symbol : Symbol := ⟨f.name, some .real⟩
      return (← item symbol [permutation, entity, .expr iq, .expr ic], symbol)

/-- The value of a table at a point and a degree of freedom, with the tables that are read.  Tables
    have to be declared. -/
def tableAccess (declared : List String) (t : TableRef) (entity : EntityKind) (side : Option Side)
    (point dof : MultiIndex) : Outcome (Expr × List Symbol) := do
  let number ← entityNumber entity side
  let number : Operand := if t.uniform then .expr (.int (.int 0)) else number
  let permutation ← permutationNumber t side
  if dof.sizes.length == 1 && point.sizes.length == 1 then
    let symbol ← Symbol.of t.name (some .real)
    if !declared.contains t.name then misfit .noEntry
    let iq : Expr := if t.piecewise then .int (.int 0) else point.flat
    return (← item symbol [permutation, number, .expr iq, .expr dof.flat], [symbol])
  else
    let parts ← (List.range dof.sizes.length).mapM
      (factorAccess declared t permutation number point dof)
    return (← Expr.ofNary .product (parts.map (·.1)), parts.map (·.2))

end FormKernel.Binding
