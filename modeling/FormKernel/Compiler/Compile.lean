import FormKernel.Compiler.Records

/-! # Compilation

Objects are first analysed, then all records are made and at last code is written from the
records, each for elements, dofmaps, integrals, forms and expressions in this order. -/

namespace FormKernel.Compiler

open Code
open Form (Element Expr)

structure Sorted where
  forms : List MultilinearForm := []
  elements : List Element := []
  expressions : List (Expr × Dense Float × Option String) := []

/-- Adds an object; the coordinate elements of meshes are not compiled. -/
def Sorted.add (out : Sorted) : Source → Outcome Sorted
  | .form f => .ok { out with forms := out.forms ++ [f] }
  | .element e => .ok { out with elements := out.elements ++ [e] }
  | .mesh _ => .ok out
  | .expression e points name =>
    .ok { out with expressions := out.expressions ++ [(e, points, name)] }
  | .other => .error .unrecognised

/-- Finds the points that the integrals of a form are sampled at. -/
def analyseForm (options : Json) (f : MultilinearForm) : Outcome SampledForm := do
  if f.isZero then throw (.zeroForm f.signature)
  if f.hasCustom then throw (.customForm f.signature)
  require (f.groups.all fun g => g.terms.isEmpty || g.domain.coordinate.isSome)
  let _ ← isComplex options
  return { form := f, groups := ← f.groups.mapM fun g => do
    return { group := g, samplings := ← g.terms.mapM Term.sampling } }

def elementsIn (e : Expr) : List Element := elementsOf (Form.distinct e.terminals)

/-- Everything that code is written for. -/
structure Analysis where
  forms : List SampledForm
  elements : List Element
  expressions : List (Expr × Dense Float × Option String)

/-- Analyses objects: elements with all their sub-elements are collected once. -/
def analyse (options : Json) (objects : List Source) : Outcome Analysis := do
  let sorted ← objects.foldlM Sorted.add {}
  let forms ← sorted.forms.mapM (analyseForm options)
  for _ in sorted.expressions do
    let _ ← isComplex options
  let elements := sorted.elements ++ sorted.forms.flatMap (·.elements) ++
    sorted.expressions.flatMap fun (e, _) => elementsIn e
  return { forms, elements := Element.sortUnique (elements.flatMap Element.closure)
           expressions := sorted.expressions }

structure Records where
  elements : List ElementRecord
  dofmaps : List DofmapRecord
  integrals : List IntegralRecord
  forms : List FormRecord
  expressions : List ExpressionRecord

def records (s : Settings) (a : Analysis) : Outcome Records := do
  let elements ← a.elements.mapM (elementRecord s.label)
  let dofmaps ← a.elements.mapM (dofmapRecord s.label)
  let integrals ← a.forms.zipIdx.mapM fun (f, i) => f.groups.mapM (integralRecord s f.form i)
  let forms ← a.forms.zipIdx.mapM fun (f, i) => formRecord s f.form i
  let expressions ← a.expressions.zipIdx.mapM fun ((e, points, name), i) =>
    expressionRecord s e points name i
  return { elements, dofmaps, integrals := integrals.flatten, forms, expressions }

def Records.code (r : Records) (options : Json) : Outcome Snippet := do
  let scalarType := options["scalar_type"].toText
  let elements ← r.elements.mapM ElementRecord.code
  let dofmaps := r.dofmaps.map DofmapRecord.code
  let integrals ← r.integrals.mapM fun i => i.code scalarType
  let forms ← r.forms.mapM FormRecord.code
  let expressions ← r.expressions.mapM fun e => e.code scalarType
  let (start, finish) ← fileFrame options
  return joined ([start] ++ elements ++ dofmaps ++ integrals ++ forms ++ expressions ++ [finish])

/-- The header and the source file for objects. -/
def compile (s : Settings) (objects : List Source) : Outcome Snippet := do
  let analysis ← analyse s.options objects
  (← records s analysis).code s.options

end FormKernel.Compiler
