import FormKernel.Code.Snippet
import FormKernel.CText.Format
import FormKernel.Integral.Kernel
import FormKernel.Integral.PointKernel

/-! # Code for integrals and expressions

The function that holds a kernel, and the object that refers to it. -/

namespace FormKernel.Code

open CText (NumberType Target)
open Integral (KernelTask PointTask Representation)

def functionHead (name scalar geometry : String) : List String := [
  s!"void tabulate_tensor_{name}({scalar}* restrict A,",
  s!"                                    const {scalar}* restrict w,",
  s!"                                    const {scalar}* restrict c,",
  s!"                                    const {geometry}* restrict coordinate_dofs,",
  "                                    const int* restrict entity_local_index,",
  "                                    const uint8_t* restrict quadrature_permutation)"]

/-- The C types of scalars and of coordinates, and the name of the scalar type. -/
structure TypeNames where
  scalar : String
  geometry : String
  name : String

def TypeNames.of (scalarType : String) : Outcome TypeNames := do
  let name := (← NumberType.ofName scalarType).name
  let scalar ← CText.cTypeOf scalarType
  let real ← CText.realTypeOf scalarType
  let geometry ← real.cType real.text
  return { scalar, geometry, name }

structure IntegralRecord where
  name : String
  task : KernelTask
  representation : Representation
  enabledCoefficients : List Bool
  coordinateElement : String

def IntegralRecord.code (i : IntegralRecord) (scalarType : String) : Outcome Snippet := do
  let name := i.name
  let kernel ← Integral.kernel i.task i.representation
  let body ← CText.formatStmts (← Target.ofName scalarType) kernel
  let (enabledLine, enabled) := optionalArray "bool" s!"enabled_coefficients_{name}"
    (i.enabledCoefficients.map fun b => if b then "1" else "0")
  let types ← TypeNames.of scalarType
  let function (type : String) : String :=
    let value := if types.name == type then s!"tabulate_tensor_{name}" else "NULL"
    s!"  .tabulate_tensor_{type} = {value},"
  let permutations := truth i.representation.facetPermutations
  return {
    declaration := block [s!"extern ufcx_integral {name};"]
    implementation := block (
      [s!"// Code for integral {name}", ""] ++ functionHead name types.scalar types.geometry ++
      ["\x7b", body, "\x7d", "", enabledLine, "",
        s!"ufcx_integral {name} =", "\x7b",
        s!"  .enabled_coefficients = {enabled},",
        function "float32", function "float64", function "complex64", function "complex128",
        s!"  .needs_facet_permutations = {permutations},",
        s!"  .coordinate_element = &{i.coordinateElement},",
        "\x7d;", "", s!"// End of code for integral {name}"]) }

structure ExpressionRecord where
  name : String
  publicName : String
  task : PointTask
  representation : Representation
  points : Dense Float
  positions : List Int
  coefficientNames : List String
  constantNames : List String
  spaces : List (String × FunctionSpace)

def ExpressionRecord.code (e : ExpressionRecord) (scalarType : String) : Outcome Snippet := do
  let name := e.name
  let kernel ← Integral.pointKernel e.task e.representation
  let body ← CText.formatStmts (← Target.ofName scalarType) kernel
  let (positionLine, positions) := optionalArray "static int"
    s!"original_coefficient_positions_{name}" (e.positions.map toString)
  let pointLine := array "static double" s!"points_{name}"
    (e.points.data.toList.map Decimal.shortestText)
  let (shapeLine, shape) := optionalArray "static int" s!"value_shape_{name}"
    (e.task.valueShape.map toString)
  let numPoints ← extent e.points 0
  let entityDim ← extent e.points 1
  let types ← TypeNames.of scalarType
  let (coefficientLine, coefficients) := optionalArray "static const char*"
    s!"coefficient_names_{name}" (e.coefficientNames.map quote)
  let (constantLine, constants) := optionalArray "static const char*" s!"constant_names_{name}"
    (e.constantNames.map quote)
  let spaces ← e.spaces.mapM fun (key, s) =>
    s.lines s!"function_space_{key}_{e.publicName}" s!"value_shape_{key}_{e.publicName}"
  let shapes := "\n".intercalate (spaces.flatMap (·.2))
  let spaceCode := "\n".intercalate (spaces.flatMap (·.1))
  let (spaceLine, spaceNames) := optionalArray "ufcx_function_space*" s!"function_spaces_{name}"
    (e.spaces.map fun (key, _) => s!"&function_space_{key}_{e.publicName}")
  return {
    declaration := block [
      s!"extern ufcx_expression {name};", "",
      "// Helper used to create expression using name which was given to the",
      "// expression in the UFL file.",
      "// This helper is called in user c++ code.",
      "//",
      s!"extern ufcx_expression* {e.publicName};"]
    implementation := block (
      [s!"// Code for expression {name}", ""] ++ functionHead name types.scalar types.geometry ++
      ["\x7b", body, "\x7d", "", pointLine, shapeLine, positionLine, shapes, spaceCode, spaceLine,
        coefficientLine, constantLine, "", "",
        s!"ufcx_expression {name} =", "\x7b",
        s!"  .tabulate_tensor_{types.name} = tabulate_tensor_{name},",
        s!"  .num_coefficients = {e.task.layout.coefficientNumbers.length},",
        s!"  .num_constants = {e.constantNames.length},",
        s!"  .original_coefficient_positions = {positions},",
        s!"  .coefficient_names = {coefficients},",
        s!"  .constant_names = {constants},",
        s!"  .num_points = {numPoints},",
        s!"  .entity_dimension = {entityDim},",
        s!"  .points = points_{name},",
        s!"  .value_shape = {shape},",
        s!"  .num_components = {e.task.valueShape.length},",
        s!"  .rank = {e.task.shape.length},",
        s!"  .function_spaces = {spaceNames}",
        "\x7d;", "", "// Alias name",
        s!"ufcx_expression* {e.publicName} = &{name};", "",
        s!"// End of code for expression {name}"]) }

end FormKernel.Code
