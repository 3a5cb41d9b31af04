import FormKernel.Binding.Names
import FormKernel.Form.Description

/-! # Layouts described in JSON -/

namespace FormKernel.Binding

open Form (Env Expr Terminal)

/-- The terminals of a list of descriptions, each with a number. -/
def numbersOfJson (env : Env) (list : Json) (key : String) : Outcome (List (Terminal × Int)) := do
  let found ← list.items.mapM fun x => do
    match ← Expr.ofJson env x["expr"] with
    | .terminal t => return [(t, x[key].toInt)]
    | .operator .. => return []
  return found.flatten

def Layout.ofJson (env : Env) (j : Json) : Outcome Layout := do
  return { kind := .ofName j["integral_type"].toText
           entity := .ofName j["entitytype"].toText
           coefficientNumbers := ← numbersOfJson env j["coefficients"] "number"
           coefficientOffsets := ← numbersOfJson env j["coefficients"] "offset"
           constantOffsets := ← numbersOfJson env j["constants"] "offset" }

end FormKernel.Binding
