import FormKernel.Code.Snippet

/-! # Code for forms

A form lists its integrals by kind, those of one kind in the order of their subdomains. -/

namespace FormKernel.Code

/-- The integrals of one kind: their names and the subdomains they belong to. -/
structure IntegralList where
  names : List String := []
  ids : List Int := []
  deriving DecidableEq

structure FormRecord where
  name : String
  publicName : String
  signature : String
  rank : Int
  coefficientCount : Int
  constantCount : Int
  positions : List Int
  coefficientNames : List String
  constantNames : List String
  elements : List String
  dofmaps : List String
  cellIntegrals : IntegralList
  exteriorIntegrals : IntegralList
  interiorIntegrals : IntegralList
  spaces : List (String × FunctionSpace)

/-- The integrals of one kind in the order of their subdomains. -/
def IntegralList.sorted (l : IntegralList) : List (String × Int) :=
  (l.names.zip l.ids).mergeSort fun a b => a.2 ≤ b.2

def FormRecord.code (f : FormRecord) : Outcome Snippet := do
  let name := f.name
  let (positionLine, positions) := optionalArray "int" s!"original_coefficient_position_{name}"
    (f.positions.map toString)
  let (coefficientLine, coefficients) := optionalArray "static const char*"
    s!"coefficient_names_{name}" (f.coefficientNames.map quote)
  let (constantLine, constants) := optionalArray "static const char*" s!"constant_names_{name}"
    (f.constantNames.map quote)
  let (elementLine, elements) := optionalArray "ufcx_finite_element*" s!"finite_elements_{name}"
    (f.elements.map ("&" ++ ·))
  let (dofmapLine, dofmaps) := optionalArray "ufcx_dofmap*" s!"dofmaps_{name}"
    (f.dofmaps.map ("&" ++ ·))
  let kinds := [f.cellIntegrals.sorted, f.exteriorIntegrals.sorted, f.interiorIntegrals.sorted]
  let all := kinds.flatten
  let starts := kinds.foldl (fun out k => out ++ [out.getLastD 0 + k.length]) [0]
  let (integralLine, integrals) := optionalArray "static ufcx_integral*" s!"form_integrals_{name}"
    (all.map fun i => "&" ++ i.1)
  let (idLine, ids) := optionalArray "int" s!"form_integral_ids_{name}"
    (all.map fun i => toString i.2)
  let spaces ← f.spaces.mapM fun (key, s) =>
    s.lines s!"functionspace_{key}" s!"value_shape_{name}_{key}"
  let lookups := f.spaces.map fun (key, _) =>
    s!"if (strcmp(function_name, \"{key}\") == 0) return &functionspace_{key};"
  let shapes := "\n".intercalate (spaces.flatMap (·.2))
  return {
    declaration := block [
      s!"extern ufcx_form {name};", "",
      "// Helper used to create form using name which was given to the",
      "// form in the UFL file.",
      "// This helper is called in user c++ code.",
      "//",
      s!"extern ufcx_form* {f.publicName};", "",
      "// Helper used to create function space using function name",
      "// i.e. name of the Python variable.",
      "//",
      s!"ufcx_function_space* functionspace_{f.publicName}(const char* function_name);"]
    implementation := block ([
      s!"// Code for form {name}", "",
      positionLine, dofmapLine, elementLine,
      array "int" s!"form_integral_offsets_{name}" (starts.map toString),
      integralLine, idLine, "", coefficientLine, constantLine, "",
      s!"ufcx_form {name} =", "\x7b", "",
      s!"  .signature = \"{f.signature}\",",
      s!"  .rank = {f.rank},",
      s!"  .num_coefficients = {f.coefficientCount},",
      s!"  .num_constants = {f.constantCount},",
      s!"  .original_coefficient_position = {positions},", "",
      s!"  .coefficient_name_map = {coefficients},",
      s!"  .constant_name_map = {constants},", "",
      s!"  .finite_elements = {elements},",
      s!"  .dofmaps = {dofmaps},", "",
      s!"  .form_integrals = {integrals},",
      s!"  .form_integral_ids = {ids},",
      s!"  .form_integral_offsets = form_integral_offsets_{name}",
      "\x7d;", "", "// Alias name",
      s!"ufcx_form* {f.publicName} = &{name};", "", shapes,
      s!"ufcx_function_space* functionspace_{f.publicName}(const char* function_name)", "\x7b"] ++
      spaces.flatMap (·.1) ++ lookups ++
      ["return NULL;", "", "\x7d", "", s!"// End of code for form {name}"]) }

end FormKernel.Code
