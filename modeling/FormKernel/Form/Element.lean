import FormKernel.Dense
import FormKernel.Fault
import FormKernel.Form.Cell

/-! # Finite elements

An element has a basis of polynomials on its cell and a layout of its degrees of freedom
on the entities of the cell; it may be a block of equal elements, a mixture of elements or
a set of points.  Elements are told apart by their number. -/

namespace FormKernel.Form

/-- A polynomial: coefficients with exponents, one per coordinate. -/
abbrev Polynomial := List (Float × List Nat)

/-- How an element is made. -/
inductive ElementKind where
  | plain | blocked | quadrature
  deriving DecidableEq, Inhabited

/-- The data of an element that is defined by its user. -/
structure CustomElement where
  cellType : Int
  valueShape : List Nat
  wcoeffs : Dense Float
  x : List (List (Dense Float))
  m : List (List (Dense Float))
  mapType : Int
  sobolevSpace : Int
  discontinuous : Bool
  interpolationDerivatives : Int
  embeddedSubdegree : Int
  embeddedSuperdegree : Int
  polysetType : Int

structure Element where
  /-- The number that tells elements apart and orders them. -/
  id : Nat
  kind : ElementKind
  text : String
  cell : Cell
  basis : List Polynomial
  subElements : List Element
  blockSize : Nat
  dim : Nat
  globalSupportDofs : Nat
  typeName : String
  lagrangeVariant : Option Int
  dpcVariant : Option Int
  family : Option Int
  familyName : String
  discontinuous : Bool
  degree : Int
  superdegree : Int
  shape : List Nat
  polysetType : Int
  symmetry : List (List Nat × List Nat)
  /-- Numbers of the components of a symmetric tensor. -/
  symmetricNumbers : Option (List (List Nat × Nat))
  entityDofs : List (List (List Nat))
  entityClosureDofs : List (List (List Nat))
  topology : List (List (List Nat))
  /-- The element, offset and stride of each component; no element stands for the element
      itself. -/
  components : List (Option Element × Nat × Nat)
  custom : Option CustomElement
  quadrature : Option (Dense Float × Dense Float)
  /-- Factorisations into elements of intervals. -/
  tensorProduct : Option (List (List Element))
  deriving Inhabited

instance : BEq Element := ⟨fun a b => a.id == b.id⟩

namespace Element

/-- An element followed by its sub-elements, down to `fuel` levels. -/
def withSubElements : Nat → Element → List Element
  | 0, e => [e]
  | fuel + 1, e => e :: e.subElements.flatMap (withSubElements fuel)

/-- An element followed by all its sub-elements; sub-elements have smaller numbers. -/
def closure (e : Element) : List Element := withSubElements (e.id + 1) e

/-- Different elements in the order of their numbers. -/
def sortUnique (es : List Element) : List Element :=
  let unique := es.foldl (fun out e => if out.any (· == e) then out else out ++ [e]) []
  unique.mergeSort (fun a b => a.id ≤ b.id)

/-- The number of components on the reference cell. -/
def valueSize (e : Element) : Nat := volume e.shape

def component (e : Element) (c : Int) : Outcome (Element × Nat × Nat) :=
  let place := if c < 0 then c + e.components.length else c
  if place < 0 then misfit .outOfRange
  else match e.components[place.toNat]? with
    | some (some sub, offset, stride) => .ok (sub, offset, stride)
    | some (none, offset, stride) => .ok (e, offset, stride)
    | none => misfit .outOfRange

/-- `m * e * (e - 1) * …` with one factor per derivative. -/
def fallingProduct (m : Float) (e : Int) : Nat → Float
  | 0 => m
  | n + 1 => fallingProduct (m * Float.ofInt e) (e - 1) n

/-- `m * x * x * …` with `n` factors. -/
def powerProduct (m x : Float) : Nat → Float
  | 0 => m
  | n + 1 => powerProduct (m * x) x n

def monomialAt (m : Float) : List Nat → List Nat → List Float → Float
  | e :: es, n :: ns, x :: xs =>
    monomialAt (powerProduct (fallingProduct m e n) x (e - n)) es ns xs
  | _, _, _ => m

def polynomialAt (p : Polynomial) (derivatives : List Nat) (x : List Float) : Float :=
  p.foldl (fun total term => total + monomialAt term.1 term.2 derivatives x) 0.0

/-- Derivatives of all basis functions at points: one row per point. -/
def tabulate (e : Element) (derivatives : List Nat) (points : List (List Float)) : Dense Float :=
  ⟨[points.length, e.basis.length],
    (points.flatMap fun x => e.basis.map fun p => polynomialAt p derivatives x).toArray⟩

end Element

/-- A mesh: its cell, the dimension of the space around it and its coordinate element. -/
structure Domain where
  id : Nat
  cell : Cell
  gdim : Nat
  coordinate : Option Element
  deriving Inhabited

instance : BEq Domain := ⟨fun a b => a.id == b.id⟩

/-- A space of functions with values of a shape. -/
structure Space where
  id : Nat
  element : Element
  domain : Option Domain
  shape : List Nat
  deriving Inhabited

instance : BEq Space := ⟨fun a b => a.id == b.id⟩

end FormKernel.Form
