import FormKernel.Form.Modified
import FormKernel.Graph.Basic

/-! # Factors of arguments

An expression that is linear in arguments is a sum of products of arguments with factors that do
not depend on arguments.  `Factors` maps each product of arguments, given by the numbers of the
arguments, to the number of its factor; the factors are collected in a list without
repetitions.  `combine` gives the factors of an operator from those of its operands. -/

namespace FormKernel.Factor

open Form (Builder Expr)

/-- For each product of arguments the number of its factor. -/
abbrev Factors := List (List Nat × Nat)

/-- Steps that may add factors; those added before a failure stay. -/
abbrev Building := ExceptT Fault (StateM (List Expr))

/-- The number of a factor, which is added if it is new. -/
def insert (e : Expr) : Building Nat := do
  let factors ← get
  match factors.findIdx? (· == e) with
  | some i => return i
  | none =>
    set (factors ++ [e])
    return factors.length

def factorAt (i : Nat) : Building Expr := do
  match (← get)[i]? with
  | some e => return e
  | none => throw (.misfit .noEntry)

def itemAt {α : Type} (xs : List α) (k : Nat) : Building α :=
  match xs[k]? with
  | some x => pure x
  | none => throw (.misfit .outOfRange)

def sortKeys (keys : List (List Nat)) : List (List Nat) :=
  (Form.distinct keys).mergeSort fun a b => !(decide (b < a))

def keys (f : Factors) : List (List Nat) := f.map (·.1)

/-- The entries of factors in the order of their keys. -/
def sorted (f : Factors) : Factors :=
  (sortKeys (keys f)).filterMap fun k => (f.lookup k).map fun i => (k, i)

/-- A factor that does not depend on arguments. -/
def scalarAt (scalars : List (Option Expr)) (k : Nat) : Building Expr := do
  match ← itemAt scalars k with
  | some e => return e
  | none => throw (.misfit .wrongKind)

def mapFactors (f : Factors) (change : Expr → Expr) : Building Factors :=
  f.mapM fun (k, i) => do return (k, ← insert (change (← factorAt i)))

/-- The factors of a sum: `f * u + g * u = (f + g) * u`. -/
def sum [Builder] (fac : List Factors) : Building Factors := do
  match fac with
  | [f, g] =>
    let all := sortKeys (keys f ++ keys g)
    match all with
    | [] => throw .noArguments
    | first :: _ =>
      all.mapM fun k => do
        if k.length != first.length then throw .unequalRanks
        match f.lookup k, g.lookup k with
        | some i, some j => do
          let a ← factorAt i
          let b ← factorAt j
          return (k, ← insert (Expr.sum a b))
        | some i, none => return (k, i)
        | none, some j => return (k, j)
        | none, none => throw .noArguments
  | _ => throw .binarySum

def product [Builder] (fac : List Factors) (scalars : List (Option Expr)) : Building Factors := do
  match fac with
  | [f, g] =>
    match f, g with
    | [], [] => throw .noArguments
    | [], _ :: _ => do
      let a ← scalarAt scalars 0
      mapFactors (sorted g) (Expr.product a)
    | _ :: _, [] => do
      let b ← scalarAt scalars 1
      mapFactors (sorted f) (Expr.product b)
    | _ :: _, _ :: _ =>
      (sorted f).foldlM (fun out (k, i) => do
        let a ← factorAt i
        (sorted g).foldlM (fun out (l, j) => do
          let b ← factorAt j
          let key := (k ++ l).mergeSort
          return assign key (← insert (Expr.product a b)) out) out) []
  | _ => throw .binaryProduct

def conj [Builder] (fac : List Factors) : Building Factors := do
  match ← itemAt fac 0 with
  | [] => throw .noArguments
  | f => mapFactors f fun a => Builder.build .conj [a]

def division [Builder] (fac : List Factors) (scalars : List (Option Expr)) : Building Factors := do
  let f ← itemAt fac 0
  let g ← itemAt fac 1
  if !g.isEmpty then throw (.unmetBecause "Cannot divide by arguments.")
  match f with
  | [] => throw .noArguments
  | f => do
    let b ← scalarAt scalars 1
    mapFactors (sorted f) fun a => Builder.build .division [a, b]

/-- Whether a factor that does not depend on arguments is zero. -/
def isZero : Option Expr → Bool
  | some (.terminal .zero) => true
  | _ => false

/-- Fails unless a condition holds. -/
def expect (ok : Bool) : Building Unit := if ok then pure () else throw (.misfit .unmet)

/-- The factors of a choice: a product of arguments that one branch lacks has the factor zero
    there. -/
def conditional [Builder] (fac : List Factors)
    (scalars : List (Option Expr)) : Building Factors := do
  let c ← itemAt fac 0
  let f ← itemAt fac 1
  let g ← itemAt fac 2
  if !c.isEmpty then throw (.unmetBecause "Cannot have argument in condition.")
  if f.isEmpty && g.isEmpty then throw .noArguments
  let test ← itemAt scalars 0
  let yes ← itemAt scalars 1
  let no ← itemAt scalars 2
  expect (!f.isEmpty || isZero yes)
  expect (!g.isEmpty || isZero no)
  expect (!(keys f).contains [])
  expect (!(keys g).contains [])
  let branch (i : Option Nat) : Building Expr :=
    match i with
    | none => pure (.terminal .zero)
    | some i => factorAt i
  (sortKeys (keys f ++ keys g)).mapM fun k => do
    let a ← branch (f.lookup k)
    let b ← branch (g.lookup k)
    match test with
    | some c => return (k, ← insert (Builder.build .conditional [c, a, b]))
    | none => throw (.misfit .wrongKind)

/-- The factors of an expression from those of its operands.  `scalars` holds the operands that do
    not depend on arguments. -/
def combine [Builder] (e : Expr) (fac : List Factors)
    (scalars : List (Option Expr)) : Building Factors :=
  match e.head with
  | .operator .sum => sum fac
  | .operator .product => product fac scalars
  | .operator .conj => conj fac
  | .operator .division => division fac scalars
  | .operator .conditional => conditional fac scalars
  | head =>
    if fac.any (!·.isEmpty) then throw (.argumentOperator head.typeText) else throw .noArguments

end FormKernel.Factor
