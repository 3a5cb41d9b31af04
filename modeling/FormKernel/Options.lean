import FormKernel.Fault
import FormKernel.Json.Pretty
import FormKernel.Text.Numeral

/-! # Options

Options are read from a file of the user and a file in the working directory, and may be given
directly; the later ones win over the earlier ones and all win over the defaults.  The files are
read once and remembered; a reading that fails is not. -/

namespace FormKernel.Options

def defaults : Entries Json := [
  ("epsilon", .float 1e-14), ("scalar_type", .text "float64"), ("sum_factorization", .bool false),
  ("table_rtol", .float 1e-6), ("table_atol", .float 1e-9), ("verbosity", .int 30)]

/-- A pair of key and value: a list of two, or a text of two characters. -/
def pairOf : Json → Outcome (String × Json)
  | .list [.text k, v] => .ok (k, v)
  | .list [.list _, _] | .list [.map _, _] => misfit .wrongKind
  | .list [k, v] => .ok (k.literal, v)
  | .list _ => misfit .wrongValue
  | .text s =>
    match s.toList with
    | [k, v] => .ok (k.toString, .text v.toString)
    | _ => misfit .wrongValue
  | .map [(k, _), (v, _)] => .ok (k, .text v)
  | .map _ => misfit .wrongValue
  | _ => misfit .wrongKind

/-- Sets options to the values of an object, or to those of a list of pairs. -/
def update (options : Entries Json) (changes : Json) : Outcome (Entries Json) :=
  match changes with
  | .map es => .ok (options.update es)
  | .list items => do return options.update (← items.mapM pairOf)
  | .text s => do return options.update (← s.toList.mapM fun c => pairOf (.text c.toString))
  | _ => misfit .wrongKind

/-- Fails unless a value can be a level of messages. -/
def checkLevel : Json → Outcome Unit
  | .int _ | .bool _ => .ok ()
  | .float x =>
    if x.isNaN then misfit .wrongValue else if x.isInf then misfit .overflow else .ok ()
  | .text s => if (Text.whole? s).isSome then .ok () else misfit .wrongValue
  | _ => misfit .wrongKind

/-- The options that result from those of the user, those of the working directory and those
    given directly, if any. -/
def merge (user own given : Json) : Outcome (Entries Json) := do
  let options ← update defaults user
  let options ← update options own
  let options ← if given.isNull then pure options else update options given
  checkLevel ((options.get? "verbosity").getD .null)
  return options

/-- The option files and what has been read of them. -/
structure Store where
  user : Option String := none
  own : Option String := none
  loaded : Option (Json × Json) := none

namespace Store

/-- The value that a file holds; a file that is not there holds nothing. -/
def read : Option String → Outcome Json
  | none => .ok (.map [])
  | some text => orMisfit (Json.parse? text) .malformed

/-- Reads the files unless they have been read. -/
def load (s : Store) : Outcome Store :=
  match s.loaded with
  | some _ => .ok s
  | none => do
    let user ← read s.user
    let own ← read s.own
    return { s with loaded := some (user, own) }

/-- The options for those given directly. -/
def get (s : Store) (given : Json) : Outcome (Entries Json) :=
  match s.loaded with
  | some (user, own) => merge user own given
  | none => merge (.map []) (.map []) given

end Store

end FormKernel.Options
