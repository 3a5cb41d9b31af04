import FormKernel.Kernel.Fusion

/-! # Loop-invariant code motion

In a section whose first statement is a nest of two loops around updates
`A[…] += f₁ * f₂ * …`, the factors that do not depend on the inner index are multiplied once
per step of the outer loop and kept in a temporary array. -/

namespace FormKernel.Kernel

/-- The expressions of a statement or of a list of statements. -/
def Stmt.exprs : Stmt → Outcome (List Expr)
  | .list body => body.mapM fun
    | .expr e => pure e
    | _ => misfit .noMember
  | .expr e => .ok [e]
  | _ => misfit .noMember

/-- Whether an expression depends on the index that `isIndex` knows.  Only symbols, literals and
    array accesses are decided; of the indices of an access, sums and products are searched. -/
def Expr.dependsOn (e : Expr) (isIndex : Expr → Bool) : Outcome Bool :=
  match e with
  | .access _ indices => .ok (indices.any fun i =>
      isIndex i || match i with
        | .nary _ _ _ args => args.any isIndex
        | _ => false)
  | .symbol _ => .ok false
  | e => do
    if e.isLiteral then return false
    throw (.unsupportedDependency (← e.brief))

/-- An update `target += product`: the slot of its product among all updates and the
    factors. -/
structure Update where
  target : Expr
  slot : Nat
  factors : List Expr

def Update.ofExpr (slot : Nat) : Expr → Outcome Update
  | .assign .add target (.nary .product tag _ factors) => do
    require (match target with | .access .. => true | _ => false)
    -- products that are one object share a slot
    return ⟨target, if tag == 0 then 2 * slot else 2 * tag + 1, factors⟩
  | _ => misfit .unmet

/-- Puts updates of one target next to each other, in the order of first appearance. -/
def groupUpdates : List Update → List (List Update) → List (List Update)
  | [], groups => groups
  | u :: us, groups =>
    let rec place : List (List Update) → List (List Update)
      | [] => [[u]]
      | [] :: rest => [] :: place rest
      | (v :: vs) :: rest =>
        if v.target.same u.target then (v :: vs ++ [u]) :: rest else (v :: vs) :: place rest
    groupUpdates us (place groups)

structure LoopNest where
  outer : Expr
  lower : Expr
  upper : Expr
  inner : Expr
  body : List Stmt

/-- What has been hoisted so far: the code in front of the nest and the factors that are left
    at each slot. -/
structure Hoisted where
  counter : Nat := 0
  code : List Stmt := []
  left : List (Nat × List Expr) := []

def LoopNest.steps (nest : LoopNest) : Outcome Int := do
  match nest.upper, nest.lower with
  | .int m, .int n =>
    match ← m.sub n with
    | .int k => return k
    | _ => misfit .wrongKind
  | upper, lower =>
    if upper.isLiteral && lower.isLiteral then misfit .wrongKind else misfit .noMember

def hoistUpdate (nest : LoopNest) (done : Hoisted) (u : Update) : Outcome Hoisted := do
  let factors := (done.left.lookup u.slot).getD u.factors
  let marked ← factors.mapM fun f => return (f, ← f.dependsOn (·.same nest.inner))
  let fixed := (marked.filter (fun p => !p.2)).map (·.1)
  if fixed.length ≤ 1 then return { done with left := (u.slot, factors) :: done.left }
  let temp : Symbol := ⟨s!"temp_{done.counter}", some .scalar⟩
  let access : Expr := .access temp [nest.outer]
  let moving := (marked.filter (fun p => p.2)).map (·.1)
  let n ← nest.steps
  let decl ← Stmt.ofArray temp (some [n]) (.nested [.int 0]) false
  let product ← Expr.ofNary .product fixed
  let loop ← Stmt.ofLoop nest.outer (.expr nest.lower) (.expr nest.upper)
    [.expr (.assign .set access product)]
  return ⟨done.counter + 1, done.code ++ [decl, loop], (u.slot, moving ++ [access]) :: done.left⟩

/-- Writes the remaining factors back into an expression. -/
def Expr.withFactors (left : List (Nat × List Expr)) (slot : Nat) : Expr → Expr
  | .assign .add target (.nary .product tag t factors) =>
    let key := if tag == 0 then 2 * slot else 2 * tag + 1
    .assign .add target (.nary .product tag t ((left.lookup key).getD factors))
  | e => e

/-- Writes the remaining factors back into statements, whose expressions are numbered from
    `slot`. -/
def Stmt.withFactors (left : List (Nat × List Expr)) : Nat → List Stmt → List Stmt
  | _, [] => []
  | slot, .expr e :: rest =>
    .expr (e.withFactors left slot) :: Stmt.withFactors left (slot + 1) rest
  | slot, .list body :: rest =>
    .list (body.zipIdx.map fun
      | (.expr e, i) => .expr (e.withFactors left (slot + i))
      | (s, _) => s) :: Stmt.withFactors left (slot + body.length) rest
  | slot, s :: rest => s :: Stmt.withFactors left slot rest

/-- The updates of the inner loop of a nest. -/
def updatesOf (inside : List Stmt) : Outcome (List Update) :=
  inside.foldlM (fun updates s => do
    (← s.exprs).foldlM (fun updates e =>
      return updates ++ [← Update.ofExpr updates.length e]) updates) []

/-- Moves loop-invariant factors out of the inner loop of a section, when `left` is left of
    products that have been met before.  Also says what is left of its own products. -/
def hoistWith (left : List (Nat × List Expr)) :
    Stmt → Outcome (Stmt × List (Nat × List Expr))
  | .part tag name body declarations input output annotations => do
    require (annotations.contains .licm)
    match body with
    | [] => misfit .outOfRange
    | first :: rest =>
      if (← first.depth) != 2 then
        return (.part tag name body declarations input output annotations, left)
      match first with
      | .loop outer lower upper (.loop inner innerLower innerUpper inside :: others) =>
        let nest : LoopNest := ⟨outer, lower, upper, inner, inside⟩
        let groups := groupUpdates (← updatesOf inside) []
        let done ← groups.flatten.foldlM (hoistUpdate nest) { left }
        let inside := Stmt.withFactors done.left 0 inside
        let first := Stmt.loop outer lower upper
          (.loop inner innerLower innerUpper inside :: others)
        return (.part tag name (done.code ++ first :: rest) declarations input output annotations,
          done.left)
      | _ => misfit .noMember
  | _ => misfit .noMember

/-- Moves loop-invariant factors out of the inner loop of a section. -/
def hoist (s : Stmt) : Outcome Stmt := do return (← hoistWith [] s).1

/-- Fuses the loops of a section and hoists from it, as its annotations ask. -/
def optimizeSection (s : Stmt) : Outcome Stmt := do
  let s ← if s.annotations.contains .fuse then fuseLoops s else pure s
  if s.annotations.contains .licm then hoist s else pure s

/-- Fuses the sections of coefficients and of Jacobians and optimises each section. -/
def optimize (code : List Stmt) : Outcome (List Stmt) := do
  let code ← fuseSections code "Coefficient"
  let code ← fuseSections code "Jacobian"
  code.mapM optimizeSection

end FormKernel.Kernel
