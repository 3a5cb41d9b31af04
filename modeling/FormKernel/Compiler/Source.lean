import FormKernel.Form.Expr
import FormKernel.Form.Measure
import FormKernel.Json.Pretty

/-! # What is compiled

Multilinear forms, finite elements, meshes, and expressions that are evaluated at points.  The
integrals of a form are grouped: a group holds the integrals of one kind over the same parts of a
mesh. -/

namespace FormKernel.Compiler

open Form (Domain Element Expr IntegralKind Terminal)

/-- The part of a mesh that an integral is taken over. -/
inductive Subdomain where
  /-- What no other integral of the kind covers. -/
  | otherwise
  | number (n : Int)
  | other (value : Json)

/-- How a part of a mesh is written. -/
def Subdomain.text : Subdomain → String
  | .otherwise => Text.quoted "otherwise"
  | .number n => toString n
  | .other value => value.literal

/-- What is asked of the quadrature of an integral. -/
structure Metadata where
  degree : Option Json := none
  /-- An estimate of the degree of the integrand. -/
  estimate : Option Json := none
  scheme : Option Json := none
  points : Option (Dense Float) := none
  weights : Option (Dense Float) := none

/-- An integral of a group, with the elements of its integrand. -/
structure Term where
  integrand : Expr
  metadata : Metadata
  elements : List Element

/-- The integrals of one kind over the same parts of a mesh. -/
structure IntegralGroup where
  kind : IntegralKind
  domain : Domain
  subdomains : List Subdomain
  /-- The coefficients that the integrals depend on. -/
  enabled : List Bool
  terms : List Term
  deriving Inhabited

structure MultilinearForm where
  signature : String
  arguments : List Terminal
  coefficients : List Terminal
  constants : List Terminal
  /-- The places of the coefficients in the form as it was given. -/
  positions : List Int
  groups : List IntegralGroup
  name : Option String := none

inductive Source where
  | form (f : MultilinearForm)
  | element (e : Element)
  | mesh (d : Domain)
  | expression (e : Expr) (points : Dense Float) (name : Option String)
  /-- A list that holds no expression. -/
  | other

/-- The object without the name it was given. -/
def Source.anonymous : Source → Source
  | .form f => .form { f with name := none }
  | .expression e points _ => .expression e points none
  | o => o

def elementsOf (functions : List Terminal) : List Element :=
  functions.filterMap fun t => t.space?.map (·.element)

namespace MultilinearForm

def isZero (f : MultilinearForm) : Bool := f.groups.all (·.terms.isEmpty)

/-- Whether a form has integrals over points of the user's own. -/
def hasCustom (f : MultilinearForm) : Bool :=
  f.groups.any fun g => g.kind.isCustom && !g.terms.isEmpty

/-- The elements of arguments, coefficients and coordinates. -/
def elements (f : MultilinearForm) : List Element :=
  elementsOf f.arguments ++ elementsOf f.coefficients ++
    f.groups.filterMap fun g => g.domain.coordinate

end MultilinearForm

/-! ## Terminals of expressions -/

/-- The number that orders terminals of one kind. -/
def rankOf : Terminal → Int
  | .argument n .. | .coefficient _ n .. | .constant _ n .. => n
  | _ => 0

/-- The different terminals of a kind in the order of their numbers. -/
def terminalsWhere (e : Expr) (p : Terminal → Bool) : List Terminal :=
  ((Form.distinct e.terminals).filter p).mergeSort fun a b => rankOf a ≤ rankOf b

def argumentsOf (e : Expr) : List Terminal :=
  terminalsWhere e fun
    | .argument .. => true
    | _ => false

def coefficientsOf (e : Expr) : List Terminal :=
  terminalsWhere e fun
    | .coefficient .. => true
    | _ => false

def constantsOf (e : Expr) : List Terminal :=
  terminalsWhere e fun
    | .constant .. => true
    | _ => false

end FormKernel.Compiler
