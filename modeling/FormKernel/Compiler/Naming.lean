import FormKernel.Code.File
import FormKernel.Compiler.Source
import FormKernel.Decimal.Aligned
import FormKernel.Digest.Sha1

/-! # Names of generated objects

A generated object is named by the digest of what it was generated from, of the versions of the
compiler and of the interface, and of a tag that tells apart objects with the same source. -/

namespace FormKernel.Compiler

open Form (Element Expr)

def interfaceDigest : String := "ea06373d6123e47e4a3c75d92f167503ae508922"

/-- What tells an object with a signature apart from others: its kind, a tag and the versions of the
    compiler and of the interface. -/
def digestText (signature kind tag : String) : String :=
  ";".intercalate [signature, Code.compilerVersion, interfaceDigest, kind, tag]

/-- The digest of a signature of a kind of object with a tag. -/
def digest (signature kind tag : String) : String := Digest.ofText (digestText signature kind tag)

def expressionSignature (e : Expr) (points : Dense Float) : String :=
  e.text ++ Decimal.arrayText points

def Source.signature : Source → Outcome (String × String)
  | .form f => .ok (f.signature, "form")
  | .element e => .ok (e.text, "element")
  | .expression e points _ => .ok (expressionSignature e points, "expression")
  | .mesh _ => .error (.unknownObject "Mesh")
  | .other => .error (.unknownObject "tuple")

/-- What tells several objects with a tag apart from others; the last object gives the kind. -/
def keyText (objects : List Source) (tag : String) : Outcome String := do
  let parts ← objects.mapM Source.signature
  let some (_, kind) := parts.getLast? | misfit .unassigned
  return digestText (String.join (parts.map (·.1))) kind tag

/-- The digest of several objects with a tag. -/
def digestAll (objects : List Source) (tag : String) : Outcome String := do
  return Digest.ofText (← keyText objects tag)

def elementName (label : String) (e : Element) : String :=
  "element_" ++ digest e.text "element" label

def dofmapName (label : String) (e : Element) : String := "dofmap_" ++ digest e.text "element" label

def formTag (label : String) (id : Int) : String := Text.inRounds [Text.quoted label, toString id]

def integralTag (label : String) (id : Int) (kind : String) (subdomains : List Subdomain) :
    String :=
  Text.inRounds [Text.quoted label, Text.quoted kind, toString id,
    Text.inRounds (subdomains.map Subdomain.text)]

def formName (label : String) (f : MultilinearForm) (id : Int) : String :=
  "form_" ++ digest f.signature "form" (formTag label id)

def integralName (label : String) (f : MultilinearForm) (id : Int) (kind : String)
    (subdomains : List Subdomain) : String :=
  "integral_" ++ digest f.signature "form" (integralTag label id kind subdomains)

def expressionName (label : String) (e : Expr) (points : Dense Float) : String :=
  "expression_" ++ digest (expressionSignature e points) "expression" label

/-- Options as text, in the order of their names. -/
def optionText (options : Entries Json) : String :=
  let sorted := options.mergeSort fun a b => decide (a.1 ≤ b.1)
  let items := sorted.map fun (k, v) => Text.inRounds [Text.quoted k, v.literal false]
  Text.inSquares items

end FormKernel.Compiler
