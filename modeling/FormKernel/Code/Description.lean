import FormKernel.Code.Element
import FormKernel.Code.Form
import FormKernel.Form.Description

/-! # Descriptions of records

Records of elements, dofmaps and forms from their descriptions in JSON. -/

namespace FormKernel.Code

open Form (CustomElement)

def textsOfJson (j : Json) : List String := j.items.map Json.toText

/-- Function spaces with their names. -/
def spacesOfJson (j : Json) : List (String × FunctionSpace) :=
  j.items.filterMap fun
    | .list [name, .list [element, dofmap, family, degree, cell, variant, shape]] =>
      some (name.toText, {
        element := element.toText, dofmap := dofmap.toText, family := family.toText
        degree := degree.toInt, cell := cell.toInt, variant := variant.int?
        valueShape := shape.toInts })
    | _ => none

def PointSet.ofJson (j : Json) : PointSet where
  cell := j["cell_shape"].toText
  points := j["points"].toDense
  weights := j["weights"].toDense

def ElementRecord.ofJson (j : Json) : ElementRecord where
  name := j["name"].toText
  signature := j["signature"].toText
  cell := j["cell_shape"].toText
  dim := j["topological_dimension"].toNat
  typeName := j["element_type"].toText
  spaceDim := j["space_dimension"].toNat
  valueShape := j["reference_value_shape"].toInts
  degree := j["degree"].toInt
  subElementCount := j["num_sub_elements"].toNat
  blockSize := j["block_size"].toNat
  discontinuous := j["discontinuous"].toBool
  symmetric := j["symmetric"].toBool
  lagrangeVariant := j["lagrange_variant"].int?
  dpcVariant := j["dpc_variant"].int?
  family := j["basix_family"].int?
  cellNumber := j["basix_cell"].int?
  subElements := textsOfJson j["sub_elements"]
  custom := if j["custom_element"].isNull then none
    else some (CustomElement.ofJson j["custom_element"])
  quadrature := if j["custom_quadrature"].isNull then none
    else some (PointSet.ofJson j["custom_quadrature"])

/-- The dofs of the entities of each dimension. -/
def dofsOfJson (j : Json) : List (List (List Int)) :=
  j.items.map fun dim => dim.items.map Json.toInts

def DofmapRecord.ofJson (j : Json) : DofmapRecord where
  name := j["name"].toText
  signature := j["signature"].toText
  globalSupportDofs := j["num_global_support_dofs"].toInt
  elementSupportDofs := j["num_element_support_dofs"].toInt
  blockSize := j["block_size"].toInt
  subDofmapCount := j["num_sub_dofmaps"].toInt
  entityDofs := dofsOfJson j["entity_dofs"]
  entityClosureDofs := dofsOfJson j["entity_closure_dofs"]
  subDofmaps := textsOfJson j["sub_dofmaps"]

def FormRecord.ofJson (j : Json) : FormRecord :=
  let integrals (kind : String) : IntegralList := {
    names := textsOfJson j["integral_names"][kind]
    ids := j["subdomain_ids"][kind].toInts }
  { name := j["name"].toText
    publicName := j["name_from_uflfile"].toText
    signature := j["signature"].toText
    rank := j["rank"].toInt
    coefficientCount := j["num_coefficients"].toInt
    constantCount := j["num_constants"].toInt
    positions := j["original_coefficient_position"].toInts
    coefficientNames := textsOfJson j["coefficient_names"]
    constantNames := textsOfJson j["constant_names"]
    elements := textsOfJson j["finite_elements"]
    dofmaps := textsOfJson j["dofmaps"]
    cellIntegrals := integrals "cell"
    exteriorIntegrals := integrals "exterior_facet"
    interiorIntegrals := integrals "interior_facet"
    spaces := spacesOfJson j["function_spaces"] }

end FormKernel.Code
