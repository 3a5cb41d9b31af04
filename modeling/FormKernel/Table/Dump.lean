import FormKernel.Json.Access
import FormKernel.Table.Build

/-! # Terminals and tables as JSON -/

namespace FormKernel

open Json (ofDense ofInts ofNats ofText? ofTexts)

def Form.ModifiedTerminal.dump (m : Form.ModifiedTerminal) : Json := .map [
  ("terminal", .text m.terminal.text), ("reference_value", .bool m.reference),
  ("base_shape", ofNats m.baseShape),
  ("base_symmetry", .list (m.baseSymmetry.map fun (a, b) => .list [ofNats a, ofNats b])),
  ("component", ofInts m.component), ("flat_component", .int m.flatComponent),
  ("global_derivatives", ofInts m.globalDerivatives),
  ("local_derivatives", ofInts m.localDerivatives),
  ("averaged", ofText? (m.averaged.map (·.name))),
  ("restriction", ofText? (m.restriction.map (·.sign))), ("str", .text m.text)]

/-- The parts of the key that orders arguments. -/
def Form.ModifiedTerminal.Key.dump (k : Form.ModifiedTerminal.Key) : Json := .list [
  .int k.number, (k.part.map Json.int).getD .null, .bool k.reference, .int k.flatComponent,
  ofInts k.globalDerivatives, ofInts k.localDerivatives, ofText? (k.averaged.map (·.name)),
  ofText? (k.restriction.map (·.sign))]

namespace Table

/-- A table with its name and values, and its properties if it belongs to a terminal. -/
def dumpTable (name : String) (values : Dense Float) (t : Option TableRef) : Json :=
  let flag (f : TableRef → Bool) : Json := .bool (t.any f)
  let part (f : TableRef → Json) : Json := (t.map f).getD .null
  .map [("name", .text name), ("values", ofDense values), ("offset", part (.int ·.offset)),
    ("block_size", part (.int ·.blockSize)), ("ttype", part (.text ·.kind.name)),
    ("piecewise", flag (·.piecewise)), ("uniform", flag (·.uniform)),
    ("permuted", flag (·.permuted)),
    ("tensor_factors", match t.bind (·.factors) with
      | some fs => ofTexts (fs.map (·.name))
      | none => .null)]

def TableEntry.dump : TableEntry → Json
  | .factor f => .list [.text f.name, dumpTable f.name f.values none]
  | .terminal m t => .list [.text m.text, dumpTable t.name t.values (some t)]

end Table

end FormKernel
