import FormKernel.CText.ScalarType
import FormKernel.Code.Snippet
import FormKernel.Json.Access
import FormKernel.Json.Pretty

/-! # Generated files

A header and a source file start with the options they were generated with and hold the code of
all objects in the order elements, dofmaps, integrals, forms and expressions. -/

namespace FormKernel.Code

open CText (NumberType)

def compilerVersion : String := "0.8.0"

def interfaceVersion : String := "2018.2.0.dev0"

/-- The comment that generated files start with. -/
def fileHead (options : Json) : List String :=
  [s!"// This code conforms with the UFC specification version {interfaceVersion}",
    s!"// and was automatically generated by FFCx version {compilerVersion}.", "//",
    "// This code was generated with the following options:", "//"] ++
  (options.pretty.splitOn "\n").map ("//  " ++ ·)

def option (options : Json) (key : String) : Outcome Json := orMisfit (options.get? key) .noEntry

/-- Whether the scalar type of options is complex. -/
def isComplex (options : Json) : Outcome Bool := do
  match ← option options "scalar_type" with
  | .text name => return (← NumberType.ofName name).family == .complex
  | .null => return false
  | _ => misfit .wrongKind

/-- What generated files start with, and what they end with. -/
def fileFrame (options : Json) : Outcome (Snippet × Snippet) := do
  let head := fileHead options
  let includes := if ← isComplex options then "#include <complex.h>" else ""
  return ({
    declaration := block (head ++ ["", "#pragma once", "#include <ufcx.h>", "",
      "#ifdef __cplusplus", "extern \"C\" \x7b", "#endif"])
    implementation := block (head ++ ["", "#include <math.h>", "#include <stdalign.h>",
      "#include <stdlib.h>", "#include <string.h>", "#include <ufcx.h>", includes, ""]) },
    { declaration := block ["#ifdef __cplusplus", "\x7d", "#endif"], implementation := "" })

/-- The texts of header and source file. -/
def joined (snippets : List Snippet) : Snippet where
  declaration := String.join (snippets.map (·.declaration))
  implementation := String.join (snippets.map (·.implementation))

end FormKernel.Code
