import FormKernel.Digest.Sha1
import FormKernel.Table.Closeness

/-! # Quadrature rules

A rule is a list of points with weights; a rule on a product cell may also be given by its
factors.  A rule is identified by the digest of its points. -/

namespace FormKernel.Quadrature

open Table (pointTolerance arraysClose)

structure Rule where
  points : Dense Float
  weights : Dense Float
  factors : Option (List (Dense Float × Dense Float)) := none
  /-- Whether the points are stored in single precision. -/
  single : Bool := false
  /-- Whether the digest has been taken; a rule without digest has no name. -/
  digested : Bool := true
  deriving Inhabited

/-- The bytes of a number, the least significant first. -/
def littleEndian : Nat → Nat → List UInt8
  | 0, _ => []
  | width + 1, n => (n % 256).toUInt8 :: littleEndian width (n / 256)

namespace Rule

def bytes (r : Rule) : Array UInt8 :=
  (r.points.data.toList.flatMap fun x =>
    if r.single then littleEndian 4 x.toFloat32.toBits.toNat
    else littleEndian 8 x.toBits.toNat).toArray

def digest (r : Rule) : String := (Digest.sha1 r.bytes).hex

/-- The last three digits of the digest, which name the rule in generated code. -/
def id (r : Rule) : String := String.ofList (r.digest.toList.drop 37)

def name (r : Rule) : Outcome String := if r.digested then .ok r.id else misfit .noMember

def digitValue (c : Char) : Nat := if c.isDigit then c.toNat - 48 else c.toNat - 87

/-- The digits of the digest as a number in base 32. -/
def hashNumber (r : Rule) : Nat := r.digest.toList.foldl (fun n c => 32 * n + digitValue c) 0

/-- Whether points and weights are close. -/
def equal (r s : Rule) : Outcome Bool := do
  if ← arraysClose pointTolerance r.points s.points then
    arraysClose pointTolerance r.weights s.weights
  else return false

def numPoints (r : Rule) : Nat := r.points.shape.headD 0

end Rule

end FormKernel.Quadrature
