import FormKernel.Form.Modified
import FormKernel.Graph.Basic
import FormKernel.Json.Access
import FormKernel.Quadrature.Rule
import FormKernel.Reference.Basic
import FormKernel.Table.Kind

/-! # Forms described in JSON

Elements, meshes, spaces and expressions are described by objects that refer to each other by
name; every name has to be introduced before it is used. -/

namespace FormKernel

def Reference.CellData.ofJson (j : Json) : Reference.CellData :=
  let arrays (key : String) := j[key].entries.map fun (k, v) => (k, v.toDense)
  { topology := j["topology"].entries.map fun (k, v) => (k, v.items.map Json.toNatLists)
    geometry := arrays "geometry"
    volume := j["volume"].entries.map fun (k, v) => (k, v.toFloat)
    facetVolumes := arrays "facet_reference_volumes"
    facetNormals := arrays "facet_outward_normals"
    facetOrientations := arrays "facet_orientations"
    facetJacobians := arrays "facet_jacobians"
    quadrature := j["quadrature"].entries.filterMap fun (k, v) =>
      match v with
      | .list [p, w] => some (k, p.toDense, w.toDense)
      | _ => none }

def Quadrature.Rule.ofJson (j : Json) : Quadrature.Rule :=
  let points := j["points"]
  { points := points.toDense
    weights := j["weights"].toDense
    factors := match j["tensor_factors"] with
      | .list fs => some (fs.filterMap fun
        | .list [p, w] => some (p.toDense, w.toDense)
        | _ => none)
      | _ => none
    single := points["dtype"].toText == "float32"
    digested := match j["hashed"] with
      | .bool false => false
      | _ => true }

def Table.TableRef.ofJson (j : Json) : Table.TableRef :=
  let kind := (Table.TableKind.ofName? j["ttype"].toText).getD .varying
  let zeros (j : Json) : Dense Float := Dense.filled j["shape"].toNats 0.0
  let flag (key : String) (other : Bool) := (j.atOr key (.bool other)).toBool
  { name := j["name"].toText, values := zeros j, offset := j["offset"].toNat
    blockSize := (j.atOr "block_size" (.int 1)).toNat, kind
    piecewise := flag "piecewise" kind.isPiecewise, uniform := flag "uniform" kind.isUniform
    permuted := flag "permuted" false
    factors := match j["factors"] with
      | .list fs => some (fs.map fun f => { name := f["name"].toText, values := zeros f })
      | _ => none }

namespace Form

structure Env where
  elements : List (String × Element) := []
  domains : List (String × Domain) := []
  spaces : List (String × Space) := []
  exprs : List (String × Expr) := []

def named {α : Type} (table : List (String × α)) (name : Json) : Outcome α :=
  orMisfit (table.lookup name.toText) .noEntry

/-- The thing of a name, if there is a name. -/
def named? {α : Type} (table : List (String × α)) : Json → Outcome (Option α)
  | .text name => do return some (← named table (.text name))
  | _ => .ok none

def Cell.ofJson (j : Json) : Outcome Cell := orMisfit (Cell.ofName? j.toText) .noMember

/-- The data of an element that is defined by its user. -/
def CustomElement.ofJson (j : Json) : CustomElement :=
  let arrays (key : String) := j[key].items.map fun row => row.items.map Json.toDense
  let number (key : String) := j[key].toInt
  { cellType := number "cell_type", valueShape := j["value_shape"].toNats
    wcoeffs := j["wcoeffs"].toDense, x := arrays "x", m := arrays "M"
    mapType := number "map_type", sobolevSpace := number "sobolev_space"
    discontinuous := j["discontinuous"].toBool
    interpolationDerivatives := number "interpolation_nderivs"
    embeddedSubdegree := number "embedded_subdegree"
    embeddedSuperdegree := number "embedded_superdegree", polysetType := number "polyset_type" }

def polynomialsOf (j : Json) : List Polynomial :=
  j.items.map fun dof => dof.items.filterMap fun
    | .list [c, e] => some (c.toFloat, e.toNats)
    | _ => none

/-- The element, offset and stride of each component; an unknown name stands for the element
    itself. -/
def componentsOf (env : Env) : Json → List (Option Element × Nat × Nat)
  | .list cs => cs.filterMap fun
    | .list [e, offset, stride] => some (env.elements.lookup e.toText, offset.toNat, stride.toNat)
    | _ => none
  | _ => [(none, 0, 1)]

def Element.ofJson (env : Env) (name : String) (j : Json) : Outcome Element := do
  let basis := polynomialsOf j["dofs"]
  let degree := (j.atOr "degree" (.int 1)).toInt
  let tensorProduct ← match j["tensor_product"] with
    | .list ts => do pure (some (← ts.mapM fun t => t.items.mapM (named env.elements)))
    | _ => pure none
  return {
    id := env.elements.length
    kind := match j["kind"].toText with
      | "blocked" => .blocked
      | "quadrature" => .quadrature
      | _ => .plain
    text := (j["repr"].text?).getD name
    cell := ← Cell.ofJson (j.atOr "cell" (.text "triangle"))
    basis
    subElements := ← j["sub_elements"].items.mapM (named env.elements)
    blockSize := (j.atOr "block_size" (.int 1)).toNat
    dim := (j.atOr "dim" (.int basis.length)).toNat
    globalSupportDofs := j["num_global_support_dofs"].toNat
    typeName := (j.atOr "element_type" (.text "ufcx_basix_element")).toText
    lagrangeVariant := j["lagrange_variant"].int?
    dpcVariant := j["dpc_variant"].int?
    family := j["family"].int?
    familyName := (j.atOr "family_name" (.text "P")).toText
    discontinuous := j["discontinuous"].toBool
    degree
    superdegree := (j.atOr "embedded_superdegree" (.int degree)).toInt
    shape := j["shape"].toNats
    polysetType := j["polyset_type"].toInt
    symmetry := j["symmetry"].items.filterMap fun
      | .list [a, b] => some (a.toNats, b.toNats)
      | _ => none
    symmetricNumbers := match j["symmetric_pullback"] with
      | .list ps => some (ps.filterMap fun
        | .list [a, n] => some (a.toNats, n.toNat)
        | _ => none)
      | _ => none
    entityDofs := j["entity_dofs"].items.map Json.toNatLists
    entityClosureDofs := j["entity_closure_dofs"].items.map Json.toNatLists
    topology := j["topology"].items.map Json.toNatLists
    components := componentsOf env j["components"]
    custom := match j["custom_element"] with
      | .map m => some (CustomElement.ofJson (.map m))
      | _ => none
    quadrature := match j["quadrature"] with
      | .list [p, w] => some (p.toDense, w.toDense)
      | _ => none
    tensorProduct }

def Number.ofJson : Json → Number
  | .list [re, im] => .complex re.toFloat im.toFloat
  | .int n => .int n
  | .bool b => .int (if b then 1 else 0)
  | j => .float j.toFloat

def shapeGiven (j : Json) : Option (List Nat) :=
  match j["shape"] with
  | .list ns => some (ns.map Json.toNat)
  | _ => none

def indicesOf (j : Json) : List Index :=
  j.items.map fun
    | .map m => .free (Json.map m)["i"].toInt
    | i => .fixed i.toInt

def Terminal.ofJson (env : Env) (head : Head) (j : Json) : Outcome Terminal := do
  match head with
  | .argument =>
    return .argument j["number"].toInt j["part"].int?
      (← named env.spaces j["space"]) (shapeGiven j)
  | .coefficient function =>
    return .coefficient function j["count"].toInt (← named env.spaces j["space"])
      (shapeGiven j)
  | .constant user =>
    return .constant user j["count"].toInt (← named? env.domains j["domain"])
      ((shapeGiven j).getD [])
  | .intValue | .floatValue | .complexValue => return .number (Number.ofJson j["v"])
  | .zero | .operator _ => return .zero
  | .multiIndex => return .multiIndex (indicesOf j["idx"])
  | .label => return .label j["count"].toInt
  | .quantity q =>
    return .quantity q (← named? env.domains j["domain"]) ((shapeGiven j).getD [])

/-- An expression that is nested at most `fuel` deep. -/
def Expr.ofJsonWithin (env : Env) : Nat → Json → Outcome Expr
  | 0, _ => misfit .wrongKind
  | fuel + 1, j => do
    match j with
    | .text name => named env.exprs (.text name)
    | .int _ | .float _ | .bool _ => return .ofNumber (Number.ofJson j)
    | .map _ =>
      match Head.ofName? j["t"].toText with
      | some (.operator op) =>
        return .operator op (← j["ops"].items.mapM (Expr.ofJsonWithin env fuel))
          ((shapeGiven j).getD []) j["fi"].toInts j["fid"].toNats
      | some head => return .terminal (← Terminal.ofJson env head j)
      | none => misfit .noMember
    | _ => misfit .wrongKind

/-- An expression: a name, a number or an object. -/
def Expr.ofJson (env : Env) (j : Json) : Outcome Expr := Expr.ofJsonWithin env j.depth j

def Domain.ofJson (env : Env) (j : Json) : Outcome Domain := do
  return { id := env.domains.length, cell := ← Cell.ofJson j["cell"]
           gdim := j["gdim"].toNat
           coordinate := ← named? env.elements j["coordinate"] }

def Space.ofJson (env : Env) (j : Json) : Outcome Space := do
  let element ← named env.elements j["element"]
  return { id := env.spaces.length, element, domain := ← named? env.domains j["domain"]
           shape := (shapeGiven j).getD element.shape }

/-- Everything that is described: elements, meshes, spaces and expressions. -/
def Env.ofJson (j : Json) : Outcome Env := do
  let env ← j["elements"].pairs.foldlM (fun (env : Env) (name, v) => do
    return { env with elements := assign name (← Element.ofJson env name v) env.elements }) {}
  let env ← j["domains"].pairs.foldlM (fun (env : Env) (name, v) => do
    return { env with domains := assign name (← Domain.ofJson env v) env.domains }) env
  let env ← j["spaces"].pairs.foldlM (fun (env : Env) (name, v) => do
    return { env with spaces := assign name (← Space.ofJson env v) env.spaces }) env
  j["exprs"].pairs.foldlM (fun (env : Env) (name, v) => do
    return { env with exprs := assign name (← Expr.ofJson env v) env.exprs }) env

def ModifiedTerminal.ofJson (env : Env) (j : Json) : Outcome ModifiedTerminal := do
  match j.get? "terminal" with
  | none => ModifiedTerminal.of (← Expr.ofJson env j)
  | some t =>
    match ← Expr.ofJson env t with
    | .terminal t =>
      return {
        terminal := t, reference := j["reference_value"].toBool, baseShape := t.shape
        component := j["component"].toInts, flatComponent := j["flat_component"].toInt
        globalDerivatives := j["gd"].toInts, localDerivatives := j["ld"].toInts
        averaged := (j["averaged"].text?).map Average.ofName
        restriction := Side.ofSign? j["restriction"].toText }
    | .operator .. => misfit .noMember

end Form

end FormKernel
