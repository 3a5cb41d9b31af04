/-! # Faults

Everything that can go wrong, as causes.  `Fault.message` words each cause; a misfit has
no wording of its own.  `Fault.category` sorts causes into broad kinds. -/

namespace FormKernel

/-- Broad kinds of faults. -/
inductive Category where
  | unmet | noMember | outOfRange | noEntry | wrongKind | wrongValue | unassigned
  | refused | unsupported | general | malformed | noModule | noFile | fileExists
  | system | timedOut | zeroDivision | overflow | notDirectory | notLoadable
  deriving Repr, DecidableEq

/-- Why something is refused. -/
inductive Fault where
  /-- A value does not fit where it is used; there is nothing more to say. -/
  | misfit (c : Category)
  /-- An expected property does not hold, with a remark. -/
  | unmetBecause (remark : String)
  -- kernel language
  | notAnExpression (type text : String) | notAStatement (type text : String)
  | pureStatement (type text : String) | notAnArray (type : String) | indexCount
  | invalidType (types : String) | noCommonType (types : String) | unprintableType (type : String)
  | divisionByZero | unknownStatement (name : String) | noLowering (type : String)
  | unsupportedDependency (text : String) | operandType (type : String)
  -- scalar types
  | noCType (name : String) | noRealType (name : String)
  -- integrals and cells
  | unknownIntegral (name : String) | unmappedEntity (dim : Int) | mixedFacets (cell kind : String)
  | unknownGeometryTable (name : String) | edgesNeedVolume | oddFaces | unequalFacets
  -- modified terminals
  | twiceIndexed | expectedFixedIndices | twicePulledBack | gradientWithoutIndex | twiceRestricted
  | twiceAveraged | unhandledModifier (type text : String) | localOfGlobal | globalOfLocal
  | componentRank | componentRange
  -- expression graphs
  | unknownNode | numberingMismatch | expectedScalar | scalarCondition | unequalBranches
  | expectedUnary | scalarDivisor | expectedTwoOperands | subexpressionCount
  | noComponents (type : String) | unexpectedMultiIndex (type : String) | singleNumber
  | oneNumberEach
  -- tables
  | globalOfReference | localOfPhysical | referenceCoordinate | globalOfCoordinate
  | referenceJacobian | globalOfJacobian | noSumFactorization
  -- factorisation
  | argumentOperator (type : String) | noArguments | unequalRanks | binarySum | binaryProduct
  | notCellwiseConstant
  -- access to terminals
  | noAccess (type : String) | noDefinition | coordinateDerivative | coordinateAverage
  | customJacobian | cellCoordinateDerivative | cellCoordinateAverage | cellCoordinateLeft
  | facetCoordinateDerivative | facetCoordinateAverage | facetCoordinateSide | vertexCoordinate
  | facetCoordinateLeft | jacobianAverage | unhandledCell (name : String) | cellEdgesOfInterval
  | facetEdgesOfFlat (name : String) | facetJacobianOfInterval | referenceEdgesOfInterval
  | referenceFacetEdgesOfFlat
  -- kernels
  | noDrawing | zeroArgument | severalComponents | severalPointSets | facetQuantity (type : String)
  -- objects to compile
  | unknownObject (type : String) | unrecognised | notIntegrals | zeroForm (signature : String)
  | customForm (signature : String) | vertexScheme (cell : String) | functionName (name : String)
  | negativeSubdomain | severalArguments | pointDimension (tdim pdim : Nat)
  -- compiled modules
  | moduleMissing | buildTimedOut (path : String)
  /-- The program is told to stop. -/
  | interrupted
  deriving DecidableEq

namespace Fault

def category : Fault → Category
  | .misfit c => c
  | .unmetBecause _ => .unmet
  | .notAnArray _ | .indexCount | .invalidType _ | .noCommonType _ | .unprintableType
    _ | .divisionByZero
  | .unknownGeometryTable _ | .edgesNeedVolume | .oddFaces | .unequalFacets | .functionName _
  | .negativeSubdomain | .pointDimension .. => .wrongValue
  | .unsupportedDependency _ | .noDefinition | .notIntegrals => .unsupported
  | .mixedFacets .. | .interrupted => .general
  | .unknownNode => .noEntry
  | .unrecognised => .wrongKind
  | .moduleMissing => .noModule
  | .buildTimedOut _ => .timedOut
  | _ => .refused

def wording : Fault → String
  | .misfit _ => ""
  | .unmetBecause remark => remark
  | .notAnExpression type text => s!"Unexpected LExpr type {type}:\n{text}"
  | .notAStatement type text => s!"Unexpected Statement type {type}:\n{text}"
  | .pureStatement type text =>
    s!"Trying to create a statement of lexprOperator type {type}:\n{text}"
  | .notAnArray type => s!"Unexpected array type {type}"
  | .indexCount => "Invalid number of indices."
  | .invalidType types => s!"Invalid DataType in LNodes {types}"
  | .noCommonType types => s!"Can't get dtype for operation with {types}"
  | .unprintableType type => s!"Invalid dtype: {type}"
  | .divisionByZero => "Division by zero!"
  | .unknownStatement name => s!"('Unknown statement: ', '{name}')"
  | .noLowering type => s!"Missing lookup for expr type {type}."
  | .unsupportedDependency text => s!"Statement {text} not supported."
  | .operandType type => s!"Not expecting this type of operand {type}"
  | .noCType name => s!"Unknown NumPy type for: {name}"
  | .noRealType name => s!"Cannot get value dtype for '{name}'. "
  | .unknownIntegral name => s!"Unknown integral_type: {name}"
  | .unmappedEntity dim => s!"Can't map points from entity_dim={dim}"
  | .mixedFacets cell kind => s!"Cell type {cell} not supported for integral type {kind}."
  | .unknownGeometryTable name => s!"Unknown geometry table name: {name}"
  | .edgesNeedVolume => "Can only get facet edges for 3D cells."
  | .oddFaces => "Only triangular and quadrilateral faces supported."
  | .unequalFacets => "Reference facet volume not supported for this cell type."
  | .twiceIndexed => "Got twice indexed terminal."
  | .expectedFixedIndices => "Expected only fixed indices."
  | .twicePulledBack => "Got twice pulled back terminal!"
  | .gradientWithoutIndex => "Got local gradient of terminal without prior indexing."
  | .twiceRestricted => "Got twice restricted terminal!"
  | .twiceAveraged => "Got twice averaged terminal!"
  | .unhandledModifier type text =>
    s!"Missing handler for terminal modifier type {type}, object is {text}."
  | .localOfGlobal => "Local derivatives of non-local value is not legal."
  | .globalOfLocal => "Global derivatives of local value is not legal."
  | .componentRank => "Length of component does not match rank of (reference) terminal."
  | .componentRange =>
    "Component indices \x7bcomponent\x7d are outside value shape \x7bbase_shape\x7d."
  | .unknownNode => "'Adding edge to unknown node'"
  | .numberingMismatch => "Internal error in value numbering."
  | .expectedScalar => "Expecting scalar."
  | .scalarCondition => "Condition should be scalar."
  | .unequalBranches => "Conditional branches should have same shape."
  | .expectedUnary => "Expecting unary operator."
  | .scalarDivisor => "Expecting scalar divisor."
  | .expectedTwoOperands => "Expecting two operands."
  | .subexpressionCount => "Mismatching number of subexpressions."
  | .noComponents type => s!"Not expecting expression of type {type} in here."
  | .unexpectedMultiIndex type => s!"Not expecting a {type}."
  | .singleNumber => "Expecting single symbol for scalar valued modified terminal."
  | .oneNumberEach => "Expecting one symbol for each expression."
  | .globalOfReference => "Global derivatives of reference values not defined."
  | .localOfPhysical => "Local derivatives of global values not defined."
  | .referenceCoordinate => "Not expecting reference value of x."
  | .globalOfCoordinate => "Not expecting global derivatives of x."
  | .referenceJacobian => "Not expecting reference value of J."
  | .globalOfJacobian => "Not expecting global derivatives of J."
  | .noSumFactorization => "Sum factorization not available for this quadrature rule."
  | .argumentOperator type => s!"Assuming that a {type} cannot be applied to arguments. " ++
      "If this is wrong please report a bug."
  | .noArguments => "No arguments"
  | .unequalRanks => "Expecting equal argument rank terms among summands."
  | .binarySum => "Assuming binary sum here. This can be fixed if needed."
  | .binaryProduct => "Assuming binary product here. This can be fixed if needed."
  | .notCellwiseConstant => "Error None"
  | .noAccess type => s!"Not handled: {type}"
  | .noDefinition => "No handler for terminal type: <class 'object'>"
  | .coordinateDerivative => "Not expecting global derivatives of SpatialCoordinate."
  | .coordinateAverage => "Not expecting average of SpatialCoordinates."
  | .customJacobian => "FIXME: Jacobian in custom integrals is not implemented."
  | .cellCoordinateDerivative => "Not expecting derivatives of CellCoordinate."
  | .cellCoordinateAverage => "Not expecting average of CellCoordinate."
  | .cellCoordinateLeft => "Expecting reference cell coordinate to be symbolically rewritten."
  | .facetCoordinateDerivative => "Not expecting derivatives of FacetCoordinate."
  | .facetCoordinateAverage => "Not expecting average of FacetCoordinate."
  | .facetCoordinateSide => "Not expecting restriction of FacetCoordinate."
  | .vertexCoordinate => "Vertices have no facet coordinates."
  | .facetCoordinateLeft => "Expecting reference facet coordinate to be symbolically rewritten."
  | .jacobianAverage => "Not expecting average of Jacobian."
  | .unhandledCell name => s!"Unhandled cell types {name}."
  | .cellEdgesOfInterval => "The physical cell edge vectors doesn't make sense for interval cell."
  | .facetEdgesOfFlat name =>
    s!"The physical facet edge vectors doesn't make sense for {name} cell."
  | .facetJacobianOfInterval => "The reference facet jacobian doesn't make sense for interval cell."
  | .referenceEdgesOfInterval =>
    "The reference cell edge vectors doesn't make sense for interval cell."
  | .referenceFacetEdgesOfFlat =>
      "The reference cell facet edge vectors doesn't make sense for interval " ++
      "or triangle cell."
  | .noDrawing => "Install pygraphviz"
  | .zeroArgument => "Not expecting zero arguments to be left in dofblock generation."
  | .severalComponents => "Code generation for non-scalar integrals unsupported"
  | .severalPointSets => "Only one set of points allowed for expression evaluation"
  | .facetQuantity type => s!"Expressions for cells do not support {type}."
  | .unknownObject type => s!"Unknown ufl object type {type}"
  | .unrecognised => "UFL objects not recognised."
  | .notIntegrals => ""
  | .zeroForm signature => s!"Form ({signature}) seems to be zero: cannot compile it."
  | .customForm signature => s!"Form ({signature}) contains unsupported custom integrals."
  | .vertexScheme cell => s!"Vertex scheme is not supported for cell: {cell}"
  | .functionName name => s!"Function name \"{name}\" must be a valid object identifier."
  | .negativeSubdomain => "Integral subdomain IDs must be non-negative."
  | .severalArguments => "Expression with more than one Argument not implemented."
  | .pointDimension tdim pdim =>
      s!"Expression on domain with topological dimension {tdim}" ++
      s!"with points of dimension {pdim} not supported."
  | .moduleMissing => "Unable to find JIT module."
  | .buildTimedOut path =>
      "JIT compilation timed out, probably due to a failed previous compile. " ++
      s!"Try cleaning cache (e.g. remove {path}) or increase timeout option."
  | .interrupted => ""

def message : Fault → Option String
  | .misfit _ => none
  | f => some f.wording

end Fault

/-- A result or the fault that prevented it. -/
abbrev Outcome := Except Fault

/-- Fails with an unworded fault of a kind. -/
def misfit {α : Type} (c : Category) : Outcome α := .error (.misfit c)

def orMisfit {α : Type} (o : Option α) (c : Category) : Outcome α :=
  match o with
  | some a => .ok a
  | none => misfit c

/-- Fails unless a condition holds. -/
def require (ok : Bool) : Outcome Unit := if ok then .ok () else misfit .unmet

end FormKernel
