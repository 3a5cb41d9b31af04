/-! # Declarations of the interface

The declarations that a compiled module is loaded with: the C structures that describe finite
elements, dofmaps, integrals, forms and expressions. -/

namespace FormKernel.Modules

def joinLines (lines : List String) : String := "\n".intercalate lines

/-- Shapes, kinds of integrals and elements, and the names of all structures. -/
def basicDeclarations : String := joinLines [
  "typedef enum", "  \x7b", "    interval = 10,", "    triangle = 20,",
  "    quadrilateral = 30,", "    tetrahedron = 40,", "    hexahedron = 50,", "    vertex = 60,",
  "    prism = 70,", "    pyramid = 80", "  \x7d ufcx_shape;", "", "  typedef enum", "  \x7b",
  "    cell = 0,", "    exterior_facet = 1,", "    interior_facet = 2",
  "  \x7d ufcx_integral_type;", "", "  typedef enum", "  \x7b", "    ufcx_basix_element = 0,",
  "    ufcx_mixed_element = 1,", "    ufcx_quadrature_element = 2,",
  "    ufcx_basix_custom_element = 3,", "    ufcx_real_element = 4,",
  "  \x7d ufcx_element_type;", "", "  /// Forward declarations",
  "  typedef struct ufcx_finite_element ufcx_finite_element;",
  "  typedef struct ufcx_basix_custom_finite_element ufcx_basix_custom_finite_element;",
  "  typedef struct ufcx_quadrature_rule ufcx_quadrature_rule;",
  "  typedef struct ufcx_dofmap ufcx_dofmap;",
  "  typedef struct ufcx_function_space ufcx_function_space;", ""]

/-- A field of a structure, and the lines of the remark before it. -/
abbrev Field := String × List String

def Field.text (f : Field) : String :=
  joinLines (f.2.map ("    ///" ++ ·) ++ ["    " ++ f.1 ++ ";"])

def structText (name : String) (fields : List Field) (gap : String := "\n") : String :=
  s!"typedef struct {name}\n  \x7b\n" ++ "\n\n".intercalate (fields.map Field.text) ++ gap ++
    s!"\n  \x7d {name};"

/-- Several fields without remarks between them. -/
def adjacent (declarations : List String) : String := ";\n    ".intercalate declarations

/-- Kernels by the type of their results: the types of scalars and of coordinates. -/
def kernelTypes : List (String × String × String) := [
  ("float32", "float", "float"), ("float64", "double", "double"),
  ("complex64", "float _Complex", "float"), ("complex128", "double _Complex", "double")]

def kernelType (name scalar real : String) : String := joinLines [
  s!"typedef void(ufcx_tabulate_tensor_{name})(",
  s!"      {scalar}* restrict A, const {scalar}* restrict w,",
  s!"      const {scalar}* restrict c, const {real}* restrict coordinate_dofs,",
  "      const int* restrict entity_local_index,",
  "      const uint8_t* restrict quadrature_permutation);"]

def kernelPointers : List String :=
  kernelTypes.map fun (name, _) => s!"ufcx_tabulate_tensor_{name}* tabulate_tensor_{name}"

def elementDeclaration : String :=
  "typedef struct ufcx_finite_element ufcx_finite_element;\n" ++ structText "ufcx_finite_element" [
    ("const char* signature", [" String identifying the finite element"]),
    ("ufcx_shape cell_shape", [" Cell shape"]),
    ("ufcx_element_type element_type", [" Element type"]),
    ("int topological_dimension", [" Topological dimension of the cell"]),
    ("int space_dimension", [" Dimension of the finite element function space"]),
    ("int reference_value_rank", [" Rank of the reference value space"]),
    ("int* reference_value_shape", [" Dimension of the reference value space for axis i"]),
    ("int reference_value_size", [" Number of components of the reference value space"]),
    ("int degree", [" Maximum polynomial degree of the finite element function space"]),
    ("bool symmetric", [" Is the value a symmetric 2-tensor"]),
    ("int block_size",
      [" Block size for a VectorElement. For a TensorElement, this is the",
       " product of the tensor's dimensions"]),
    ("int basix_family", [" Basix identifier of the family of the finite element function space"]),
    ("int basix_cell", [" Basix identifier of the cell shape"]),
    ("bool discontinuous",
      [" Indicates whether or not this is the discontinuous version of the element"]),
    ("int lagrange_variant",
      [" The Lagrange variant to be passed to Basix's create_element function"]),
    ("int dpc_variant", [" The DPC variant to be passed to Basix's create_element function"]),
    ("int num_sub_elements", [" Number of sub elements (for a mixed element)"]),
    ("ufcx_finite_element** sub_elements",
      [" Get a finite element for sub element i (for a mixed", " element)."]),
    ("ufcx_basix_custom_finite_element* custom_element",
      [" Pointer to data to recreate the element if it is a custom Basix element"]),
    ("ufcx_quadrature_rule* custom_quadrature",
      [" Pointer to data to recreate the custom quadrature rule if the element has one"])] ""

def dofmapDeclaration : String :=
  "typedef struct ufcx_dofmap ufcx_dofmap;\n" ++ structText "ufcx_dofmap" [
    ("const char* signature", [" String identifying the dofmap"]),
    ("int num_global_support_dofs",
      [" Number of dofs with global support (i.e. global constants)"]),
    ("int num_element_support_dofs",
      [" Dimension of the local finite element function space for a cell",
       " (not including global support dofs)"]),
    ("int block_size", [" Return the block size for a VectorElement or TensorElement"]),
    ("int *entity_dofs", [" Flattened list of dofs associated with each entity"]),
    ("int *entity_dof_offsets", [" Offset for dofs of each entity in entity_dofs"]),
    ("int *entity_closure_dofs", [" Flattened list of closure dofs associated with each entity"]),
    ("int *entity_closure_dof_offsets",
      [" Offset for closure dofs of each entity in entity_closure_dofs"]),
    ("int num_sub_dofmaps", [" Number of sub dofmaps (for a mixed element)"]),
    ("ufcx_dofmap** sub_dofmaps", [" Get a dofmap for sub dofmap i (for a mixed element)"])]

/-- The types of kernels and the structure of an integral. -/
def integralDeclaration : String :=
  String.join (kernelTypes.map fun (name, scalar, real) => kernelType name scalar real) ++
  structText "ufcx_integral" [
    (adjacent ("const bool* enabled_coefficients" :: kernelPointers ++
      ["bool needs_facet_permutations"]), []),
    ("ufcx_finite_element* coordinate_element",
      [" Get the coordinate element associated with the geometry of the mesh."])] ""

def formDeclaration : String :=
  structText "ufcx_form" [
    ("const char* signature", [" String identifying the form"]),
    ("int rank", [" Rank of the global tensor (r)"]),
    ("int num_coefficients", [" Number of coefficients (n)"]),
    ("int num_constants", [" Number of constants"]),
    ("int* original_coefficient_position", [" Original coefficient position for each coefficient"]),
    ("const char** coefficient_name_map", [" List of names of coefficients"]),
    ("const char** constant_name_map", [" List of names of constants"]),
    ("ufcx_finite_element** finite_elements",
      [" Get a finite element for the i-th argument function, where 0 <=", " i < r + n.", "",
       " @param i Argument number if 0 <= i < r Coefficient number j = i",
       " - r if r + j <= i < r + n"]),
    ("ufcx_dofmap** dofmaps",
      [" Get a dofmap for the i-th argument function, where 0 <= i < r +", " n.", "", " @param i",
       "        Argument number if 0 <= i < r",
       "        Coefficient number j=i-r if r+j <= i < r+n"]),
    ("ufcx_integral** form_integrals",
      [" List of cell, interior facet and exterior facet integrals"]),
    ("int* form_integral_ids", [" IDs for each integral in form_integrals list"]),
    ("int* form_integral_offsets",
      [" Offsets for cell, interior facet and exterior facet integrals in form_integrals list"])]

def expressionDeclaration : String :=
  structText "ufcx_expression" [
    (adjacent kernelPointers,
      [" Evaluate expression into tensor A with compiled evaluation points", "", " @param[out] A",
       "         Dimensions: A[num_points][num_components][num_argument_dofs]", "",
       " @see ufcx_tabulate_tensor", ""]),
    ("int num_coefficients", [" Number of coefficients"]),
    ("int num_constants", [" Number of constants"]),
    ("const int* original_coefficient_positions",
      [" Original coefficient position for each coefficient"]),
    ("const char** coefficient_names", [" List of names of coefficients"]),
    ("const char** constant_names", [" List of names of constants"]),
    ("int num_points", [" Number of evaluation points"]),
    ("int entity_dimension", [" Dimension of evaluation point"]),
    ("const double* points",
      [" Coordinates of evaluations points. Dimensions:", " points[num_points][entity_dimension]"]),
    ("const int* value_shape", [" Shape of expression. Dimension: value_shape[num_components]"]),
    ("int num_components", [" Number of components of return_shape"]),
    ("int rank", [" Rank, i.e. number of arguments"]),
    ("ufcx_function_space** function_spaces",
      [" Function spaces for all functions in the Expression.", "",
       " Function spaces for coefficients are followed by", " Arguments function spaces.",
       " Dimensions: function_spaces[num_coefficients + rank]"])]

end FormKernel.Modules
