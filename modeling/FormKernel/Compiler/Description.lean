import FormKernel.Compiler.Source
import FormKernel.Form.Description

/-! # Objects described in JSON -/

namespace FormKernel.Compiler

open Form (Env Expr IntegralKind Terminal named)

def Subdomain.ofJson : Json → Subdomain
  | .text "otherwise" => .otherwise
  | .int n => .number n
  | j => .other j

def Metadata.ofJson (j : Json) : Metadata where
  degree := j.get? "quadrature_degree"
  estimate := j.get? "estimated_polynomial_degree"
  scheme := j.get? "quadrature_rule"
  points := (j.get? "quadrature_points").map Json.toDense
  weights := (j.get? "quadrature_weights").map Json.toDense

def terminalOfJson (env : Env) (j : Json) : Outcome Terminal := do
  match ← Expr.ofJson env j with
  | .terminal t => return t
  | .operator .. => misfit .noMember

def Term.ofJson (env : Env) (j : Json) : Outcome Term := do
  return { integrand := ← Expr.ofJson env j["integrand"]
           metadata := Metadata.ofJson j["metadata"]
           elements := ← j["elements"].items.mapM (named env.elements) }

def IntegralGroup.ofJson (env : Env) (j : Json) : Outcome IntegralGroup := do
  return { kind := IntegralKind.ofName j["integral_type"].toText
           domain := ← named env.domains j["domain"]
           subdomains := j["subdomain_id"].items.map Subdomain.ofJson
           enabled := j["enabled_coefficients"].items.map Json.toBool
           terms := ← j["integrals"].items.mapM (Term.ofJson env) }

def MultilinearForm.ofJson (env : Env) (j : Json) : Outcome MultilinearForm := do
  let terminals (key : String) : Outcome (List Terminal) := j[key].items.mapM (terminalOfJson env)
  let coefficients ← terminals "coefficients"
  return { signature := j["signature"].toText
           arguments := ← terminals "arguments"
           coefficients
           constants := ← terminals "constants"
           positions := match j["positions"] with
             | .list ps => ps.map Json.toInt
             | _ => (List.range coefficients.length).map Int.ofNat
           groups := ← j["integral_data"].items.mapM (IntegralGroup.ofJson env)
           name := j["name"].text? }

/-- The name that an expression was given: its own, or, if the object refers to a description, the
    last one that any object gives it, or the one among the names. -/
def expressionNameOf (names objects j : Json) : Option String :=
  match j["expr"] with
  | .text key =>
    let given := objects.items.filterMap fun o =>
      if o["kind"].toText == "expression" && o["expr"].text? == some key
      then o["name"].text? else none
    given.getLast?.or ((names.pairs.lookup key).bind Json.text?)
  | _ => j["name"].text?

/-- One of the objects to compile; names are pairs of a name in the description and the name it
    gets. -/
def Source.ofJson (env : Env) (names objects j : Json) : Outcome Source := do
  match j["kind"].toText with
  | "form" => return .form (← MultilinearForm.ofJson env j)
  | "element" => return .element (← named env.elements j["element"])
  | "mesh" => return .mesh (← named env.domains j["domain"])
  | "expression" =>
    return .expression (← Expr.ofJson env j["expr"]) j["points"].toDense
      (expressionNameOf names objects j)
  | _ => return .other

/-- The names that terminals were given: by pairs of their name in the description and the name they
    get, and as expressions to compile. -/
def namesOfJson (env : Env) (names : Json) (objects : List Source) :
    Outcome (List (Terminal × String)) := do
  let given ← names.pairs.filterMapM fun (key, name) => do
    match ← named env.exprs (.text key) with
    | .terminal t => return some (t, name.toText)
    | .operator .. => return none
  let own := objects.filterMap fun
    | .expression (.terminal t) _ (some name) => some (t, name)
    | _ => none
  return (given ++ own).foldl (fun out (t, name) => assign t name out) []

/-- Objects to compile and the names of their functions. -/
structure Description where
  objects : List Source
  names : List (Terminal × String)

/-- What is described under `objects` and `names`, in terms of what is under `env`. -/
def Description.ofJson (j : Json) : Outcome Description := do
  let env ← Env.ofJson j["env"]
  let names := j["names"]
  let objects ← j["objects"].items.mapM (Source.ofJson env names j["objects"])
  return { objects, names := ← namesOfJson env names objects }

end FormKernel.Compiler
