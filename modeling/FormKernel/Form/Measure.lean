import FormKernel.Fault

/-! # Kinds of integrals

Over what an integral is taken, the entities of a cell that its tables are made for, and
what an average is taken over. -/

namespace FormKernel.Form

inductive IntegralKind where
  | cell | exteriorFacet | interiorFacet | vertex
  /-- Points of the user's own. -/
  | custom | cutcell | interface | overlap
  /-- The values of an expression at points. -/
  | expression
  | unknown (name : String)
  deriving DecidableEq, Inhabited

namespace IntegralKind

def name : IntegralKind → String
  | .cell => "cell"
  | .exteriorFacet => "exterior_facet"
  | .interiorFacet => "interior_facet"
  | .vertex => "vertex"
  | .custom => "custom"
  | .cutcell => "cutcell"
  | .interface => "interface"
  | .overlap => "overlap"
  | .expression => "expression"
  | .unknown name => name

def ofName : String → IntegralKind
  | "cell" => .cell
  | "exterior_facet" => .exteriorFacet
  | "interior_facet" => .interiorFacet
  | "vertex" => .vertex
  | "custom" => .custom
  | "cutcell" => .cutcell
  | "interface" => .interface
  | "overlap" => .overlap
  | "expression" => .expression
  | name => .unknown name

def isFacet : IntegralKind → Bool
  | .exteriorFacet | .interiorFacet => true
  | _ => false

/-- Whether the points are the user's own. -/
def isCustom : IntegralKind → Bool
  | .custom | .cutcell | .interface | .overlap => true
  | _ => false

/-- The dimension of the entities that an integral is taken over, on a cell of dimension `tdim`. -/
def entityDim (kind : IntegralKind) (tdim : Int) : Outcome Int :=
  match kind with
  | .cell => .ok tdim
  | .exteriorFacet | .interiorFacet => .ok (tdim - 1)
  | .vertex => .ok 0
  | .custom | .cutcell | .interface | .overlap | .expression => .ok tdim
  | .unknown name => .error (.unknownIntegral name)

end IntegralKind

/-- The entities that tables are made for. -/
inductive EntityKind where
  | cell | facet | vertex
  | unknown (name : String)
  deriving DecidableEq

namespace EntityKind

def ofName : String → EntityKind
  | "cell" => .cell
  | "facet" => .facet
  | "vertex" => .vertex
  | name => .unknown name

end EntityKind

inductive Average where
  | cell | facet
  | unknown (name : String)
  deriving DecidableEq, Inhabited

namespace Average

def name : Average → String
  | .cell => "cell"
  | .facet => "facet"
  | .unknown name => name

def ofName : String → Average
  | "cell" => .cell
  | "facet" => .facet
  | name => .unknown name

end Average

end FormKernel.Form
