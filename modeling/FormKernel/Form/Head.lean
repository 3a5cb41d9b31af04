/-! # Heads of form expressions

The kind of the outermost node of an expression of a variational form: a terminal such as
an argument or a geometric quantity, or an operator. -/

namespace FormKernel.Form

inductive Quantity where
  | spatialCoordinate | cellCoordinate | jacobian | cellVertices | cellEdgeVectors
  | referenceCellVolume | referenceCellEdgeVectors | cellOrientation | cellVolume
  | facetCoordinate | facetEdgeVectors | cellFacetJacobian | referenceFacetVolume
  | referenceNormal | facetOrientation | referenceFacetEdgeVectors
  | quadratureWeight
  deriving DecidableEq

inductive Operator where
  | sum | product | division | abs | power | real | imag | conj | conditional
  | minValue | maxValue | atan2 | indexSum | componentTensor | listTensor | labelled
  | condition | eq | ne | lt | gt | le | ge | andCondition | orCondition | notCondition
  | mathFunction | sqrt | ln | exp | cos | sin | tan | cosh | sinh | tanh
  | acos | asin | atan | acosh | asinh | atanh | erf
  | besselFunction | besselJ | besselY | besselI | besselK
  | indexed | grad | referenceGrad | referenceValue
  | restricted | positiveRestricted | negativeRestricted | cellAvg | facetAvg
  deriving DecidableEq

/-- The kind of the outermost node of an expression. -/
inductive Head where
  | argument
  /-- A coefficient; `function` marks the variety that belongs to a problem at hand. -/
  | coefficient (function : Bool)
  /-- A constant; `user` marks the variety that belongs to a problem at hand. -/
  | constant (user : Bool)
  | intValue | floatValue | complexValue | zero
  | quantity (q : Quantity)
  | multiIndex | label
  | operator (op : Operator)
  deriving DecidableEq

namespace Quantity

/-- All quantities with their names. -/
def names : List (Quantity × String) := [
  (.spatialCoordinate, "SpatialCoordinate"), (.cellCoordinate, "CellCoordinate"),
  (.jacobian, "Jacobian"), (.cellVertices, "CellVertices"),
  (.cellEdgeVectors, "CellEdgeVectors"), (.referenceCellVolume, "ReferenceCellVolume"),
  (.referenceCellEdgeVectors, "ReferenceCellEdgeVectors"),
  (.cellOrientation, "CellOrientation"), (.cellVolume, "CellVolume"),
  (.facetCoordinate, "FacetCoordinate"), (.facetEdgeVectors, "FacetEdgeVectors"),
  (.cellFacetJacobian, "CellFacetJacobian"), (.referenceFacetVolume, "ReferenceFacetVolume"),
  (.referenceNormal, "ReferenceNormal"), (.facetOrientation, "FacetOrientation"),
  (.referenceFacetEdgeVectors, "ReferenceFacetEdgeVectors"),
  (.quadratureWeight, "QuadratureWeight")]

def name (q : Quantity) : String := (names.lookup q).getD ""

end Quantity

namespace Operator

def names : List (Operator × String) := [
  (.sum, "Sum"), (.product, "Product"), (.division, "Division"), (.abs, "Abs"),
  (.power, "Power"), (.real, "Real"), (.imag, "Imag"), (.conj, "Conj"),
  (.conditional, "Conditional"), (.minValue, "MinValue"), (.maxValue, "MaxValue"),
  (.atan2, "Atan2"), (.indexSum, "IndexSum"), (.componentTensor, "ComponentTensor"),
  (.listTensor, "ListTensor"), (.labelled, "Variable"), (.condition, "Condition"),
  (.eq, "EQ"), (.ne, "NE"), (.lt, "LT"), (.gt, "GT"), (.le, "LE"), (.ge, "GE"),
  (.andCondition, "AndCondition"), (.orCondition, "OrCondition"),
  (.notCondition, "NotCondition"), (.mathFunction, "MathFunction"), (.sqrt, "Sqrt"),
  (.ln, "Ln"), (.exp, "Exp"), (.cos, "Cos"), (.sin, "Sin"), (.tan, "Tan"), (.cosh, "Cosh"),
  (.sinh, "Sinh"), (.tanh, "Tanh"), (.acos, "Acos"), (.asin, "Asin"), (.atan, "Atan"),
  (.acosh, "Acosh"), (.asinh, "Asinh"), (.atanh, "Atanh"), (.erf, "Erf"),
  (.besselFunction, "BesselFunction"), (.besselJ, "BesselJ"), (.besselY, "BesselY"),
  (.besselI, "BesselI"), (.besselK, "BesselK"), (.indexed, "Indexed"), (.grad, "Grad"),
  (.referenceGrad, "ReferenceGrad"), (.referenceValue, "ReferenceValue"),
  (.restricted, "Restricted"), (.positiveRestricted, "PositiveRestricted"),
  (.negativeRestricted, "NegativeRestricted"), (.cellAvg, "CellAvg"), (.facetAvg, "FacetAvg")]

def name (op : Operator) : String := (names.lookup op).getD ""

def isCondition : Operator → Bool
  | .condition | .eq | .ne | .lt | .gt | .le | .ge
  | .andCondition | .orCondition | .notCondition => true
  | _ => false

def isModifier : Operator → Bool
  | .indexed | .grad | .referenceGrad | .referenceValue
  | .restricted | .positiveRestricted | .negativeRestricted | .cellAvg | .facetAvg => true
  | _ => false

end Operator

namespace Head

def name : Head → String
  | .argument => "Argument"
  | .coefficient function => if function then "Function" else "Coefficient"
  | .constant user => if user then "UserConstant" else "Constant"
  | .intValue => "IntValue"
  | .floatValue => "FloatValue"
  | .complexValue => "ComplexValue"
  | .zero => "Zero"
  | .quantity q => q.name
  | .multiIndex => "MultiIndex"
  | .label => "Label"
  | .operator op => op.name

def terminals : List Head := [
  .argument, .coefficient false, .coefficient true, .constant false, .constant true,
  .intValue, .floatValue, .complexValue, .zero, .multiIndex, .label] ++
  Quantity.names.map (fun q => .quantity q.1)

def ofName? (name : String) : Option Head :=
  match terminals.find? (fun h => h.name == name) with
  | some h => some h
  | none => (Operator.names.find? (fun p => p.2 == name)).map (fun p => .operator p.1)

/-- The type of a node as it stands in a message. -/
def typeText (h : Head) : String := s!"<class 'ufl.classes.{h.name}'>"

/-- Puts an underscore before every character that is no lower-case letter and follows one,
    and makes letters small. -/
def snakeCase : List Char → List Char
  | [] => []
  | [c] => [c.toLower]
  | c :: d :: rest =>
    if c.isLower && !d.isLower then c :: '_' :: snakeCase (d :: rest)
    else c.toLower :: snakeCase (d :: rest)

/-- The name of a head in small letters with underscores. -/
def functionName (h : Head) : String := String.ofList (snakeCase h.name.toList)

end Head

inductive Number where
  | int (n : Int)
  | float (x : Float)
  | complex (re im : Float)

end FormKernel.Form
