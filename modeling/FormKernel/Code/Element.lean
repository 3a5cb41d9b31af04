import FormKernel.Code.Snippet
import FormKernel.Form.Element

/-! # Code for finite elements and dofmaps -/

namespace FormKernel.Code

open Form (CustomElement)

/-- Numbers in braces, each after a blank. -/
def spaced (items : List String) : String := braced (",".intercalate (items.map (" " ++ ·)))

/-- How a floating-point number is written. -/
def numberText (x : Float) : String := Decimal.shortestText x

structure PointSet where
  cell : String
  points : Dense Float
  weights : Dense Float

/-- A finite element as it is written out. -/
structure ElementRecord where
  name : String
  signature : String
  cell : String
  dim : Nat
  typeName : String
  spaceDim : Nat
  valueShape : List Int
  degree : Int
  subElementCount : Nat
  blockSize : Nat
  discontinuous : Bool
  symmetric : Bool
  lagrangeVariant : Option Int
  dpcVariant : Option Int
  family : Option Int
  cellNumber : Option Int
  subElements : List String
  custom : Option CustomElement
  quadrature : Option PointSet

def customElement (name : String) (e : CustomElement) : Outcome String := do
  let (shapeLine, shape) := optionalArray "int" s!"value_shape_{name}" (e.valueShape.map toString)
  let rows ← extent e.wcoeffs 0
  let columns ← extent e.wcoeffs 1
  let counts (parts : List (List (Dense Float))) : Outcome (List String) :=
    parts.flatten.mapM fun a => do return toString (← extent a 0)
  let numbers (rank : Nat) (parts : List (List (Dense Float))) : Outcome (List String) :=
    parts.flatten.flatMapM fun a => do
      if a.shape.length < rank && a.data.size > 0 then misfit .wrongKind
      return a.data.toList.map numberText
  let points ← counts e.x
  let coordinates ← numbers 2 e.x
  let dofs ← counts e.m
  let functionals ← numbers 4 e.m
  let line (type key : String) (items : List String) : String :=
    let values := spaced items
    s!"{type} {key}_{name}[{items.length}] = {values};"
  let wcoeffs := spaced (e.wcoeffs.data.toList.map numberText)
  let size := rows * columns
  let discontinuous := truth e.discontinuous
  return block [
    s!"// Code for custom element {name}", "", shapeLine,
    s!"double wcoeffs_{name}[{size}] = {wcoeffs};",
    line "int" "npts" points, line "int" "ndofs" dofs,
    line "double" "x" coordinates, line "double" "M" functionals, "",
    s!"ufcx_basix_custom_finite_element {name} =", "\x7b",
    s!"  .cell_type = {e.cellType},",
    s!"  .value_shape_length = {e.valueShape.length},",
    s!"  .value_shape = {shape},",
    s!"  .wcoeffs_rows = {rows},",
    s!"  .wcoeffs_cols = {columns},",
    s!"  .wcoeffs = wcoeffs_{name},",
    s!"  .npts = npts_{name},",
    s!"  .ndofs = ndofs_{name},",
    s!"  .x = x_{name},",
    s!"  .M = M_{name},",
    s!"  .map_type = {e.mapType},",
    s!"  .sobolev_space = {e.sobolevSpace},",
    s!"  .discontinuous = {discontinuous},",
    s!"  .embedded_subdegree = {e.embeddedSubdegree},",
    s!"  .interpolation_nderivs = {e.interpolationDerivatives},",
    s!"  .embedded_superdegree = {e.embeddedSuperdegree},",
    s!"  .polyset_type = {e.polysetType}",
    "\x7d;", "", s!"// End of code for custom element {name}"]

def pointSet (name : String) (q : PointSet) : Outcome String := do
  let count ← extent q.points 0
  let dim ← extent q.points 1
  let points := spaced (q.points.data.toList.map numberText)
  let weights := spaced (q.weights.data.toList.map numberText)
  let size := count * dim
  return block [
    s!"// Code for quadrature rule {name}", "",
    s!"double points_{name}[{size}] = {points};",
    s!"double weights_{name}[{count}] = {weights};", "",
    s!"ufcx_quadrature_rule {name} =", "\x7b",
    s!"  .cell_shape = {q.cell},",
    s!"  .npts = {count},",
    s!"  .topological_dimension = {dim},",
    s!"  .points = points_{name},",
    s!"  .weights = weights_{name}",
    "\x7d;", "", s!"// End of code for quadrature rule {name}"]

def ElementRecord.code (e : ElementRecord) : Outcome Snippet := do
  let name := e.name
  let number (n : Option Int) : Int := n.getD (-1)
  let (shapeLine, shape) := optionalArray "int" s!"reference_value_shape_{name}"
    (e.valueShape.map toString)
  let (subLine, subElements) := optionalArray "ufcx_finite_element*" s!"sub_elements_{name}"
    (e.subElements.map ("&" ++ ·))
  let (customCode, custom) ← match e.custom with
    | some c => do pure (← customElement s!"custom_element_{name}" c, s!"&custom_element_{name}")
    | none => pure ("", "NULL")
  let (pointCode, points) ← match e.quadrature with
    | some q => do
      pure (← pointSet s!"custom_quadrature_{name}" q, s!"&custom_quadrature_{name}")
    | none => pure ("", "NULL")
  let size := e.valueShape.foldl (· * ·) 1
  let symmetric := truth e.symmetric
  let discontinuous := truth e.discontinuous
  let family := number e.family
  let cell := number e.cellNumber
  let lagrange := number e.lagrangeVariant
  let dpc := number e.dpcVariant
  return {
    declaration := block [s!"extern ufcx_finite_element {name};"]
    implementation := block [
      s!"// Code for element {name}", "", shapeLine, subLine, customCode, pointCode, "",
      s!"ufcx_finite_element {name} =", "\x7b",
      s!"  .signature = \"{e.signature}\",",
      s!"  .cell_shape = {e.cell},",
      s!"  .element_type = {e.typeName},",
      s!"  .topological_dimension = {e.dim},",
      s!"  .space_dimension = {e.spaceDim},",
      s!"  .reference_value_rank = {e.valueShape.length},",
      s!"  .reference_value_shape = {shape},",
      s!"  .reference_value_size = {size},",
      s!"  .degree = {e.degree},",
      s!"  .symmetric = {symmetric},",
      s!"  .block_size = {e.blockSize},",
      s!"  .basix_family = {family},",
      s!"  .basix_cell = {cell},",
      s!"  .discontinuous = {discontinuous},",
      s!"  .lagrange_variant = {lagrange},",
      s!"  .dpc_variant = {dpc},",
      s!"  .num_sub_elements = {e.subElementCount},",
      s!"  .sub_elements = {subElements},",
      s!"  .custom_element = {custom},",
      s!"  .custom_quadrature = {points}",
      "\x7d;", "", s!"// End of code for element {name}"] }

structure DofmapRecord where
  name : String
  signature : String
  globalSupportDofs : Int
  elementSupportDofs : Int
  blockSize : Int
  subDofmapCount : Int
  entityDofs : List (List (List Int))
  entityClosureDofs : List (List (List Int))
  subDofmaps : List String

/-- Where the parts of a list of lists start when they are joined, with the total length. -/
def offsets (parts : List (List Int)) : List Nat :=
  parts.foldl (fun out p => out ++ [out.getLastD 0 + p.length]) [0]

/-- The code of a dofmap.  The array of closure offsets is given the length of the array of
    offsets. -/
def DofmapRecord.code (d : DofmapRecord) : Snippet :=
  let name := d.name
  let dofs := d.entityDofs.flatten
  let closure := d.entityClosureDofs.flatten
  let starts := offsets dofs
  let closureStarts := braced (", ".intercalate ((offsets closure).map toString))
  let (subLine, subDofmaps) := optionalArray "ufcx_dofmap*" s!"sub_dofmaps_{name}"
    (d.subDofmaps.map ("&" ++ ·))
  { declaration := block [s!"extern ufcx_dofmap {name};"]
    implementation := block [
      s!"// Code for dofmap {name}", "", subLine, "",
      array "int" s!"entity_dofs_{name}" (dofs.flatten.map toString), "",
      array "int" s!"entity_dof_offsets_{name}" (starts.map toString), "",
      array "int" s!"entity_closure_dofs_{name}" (closure.flatten.map toString), "",
      s!"int entity_closure_dof_offsets_{name}[{starts.length}] = {closureStarts};", "",
      s!"ufcx_dofmap {name} =", "\x7b",
      s!"  .signature = \"{d.signature}\",",
      s!"  .num_global_support_dofs = {d.globalSupportDofs},",
      s!"  .num_element_support_dofs = {d.elementSupportDofs},",
      s!"  .block_size = {d.blockSize},",
      s!"  .entity_dofs = entity_dofs_{name},",
      s!"  .entity_dof_offsets = entity_dof_offsets_{name},",
      s!"  .entity_closure_dofs = entity_closure_dofs_{name},",
      s!"  .entity_closure_dof_offsets = entity_closure_dof_offsets_{name},",
      s!"  .num_sub_dofmaps = {d.subDofmapCount},",
      s!"  .sub_dofmaps = {subDofmaps}",
      "\x7d;", "", s!"// End of code for dofmap {name}"] }

end FormKernel.Code
