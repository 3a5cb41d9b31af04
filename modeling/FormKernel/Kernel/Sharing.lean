import FormKernel.Kernel.Hoist

/-! # Hoisting from shared products

A product may stand at several places of the code.  When factors are hoisted from it at one of
them, it is changed at all.  `hoistShared` and `optimizeShared` are `hoist` and `optimize` for code
in which products, or sections, with one tag are one; without tags they do the same. -/

namespace FormKernel.Kernel

/-- The factors that are left of products, by tag. -/
abbrev Remaining := List (Tag × List Expr)

def Expr.remaining (left : Remaining) : Expr → Expr
  | .neg a => .neg (a.remaining left)
  | .not a => .not (a.remaining left)
  | .binary op a b => .binary op (a.remaining left) (b.remaining left)
  | .nary op tag t args =>
    .nary op tag t (match left.lookup tag with
      | some factors => factors
      | none => args.map (·.remaining left))
  | .call f args => .call f (args.map (·.remaining left))
  | .access s indices => .access s (indices.map (·.remaining left))
  | .conditional c a b =>
    .conditional (c.remaining left) (a.remaining left) (b.remaining left)
  | .assign op a b => .assign op (a.remaining left) (b.remaining left)
  | e => e

/-- The statement with what is left of its products. -/
def Stmt.remaining (left : Remaining) : Stmt → Stmt
  | .expr e => .expr (e.remaining left)
  | .list body => .list (body.map (·.remaining left))
  | .variableDecl tag s value => .variableDecl tag s (value.map (·.remaining left))
  | .loop index lower upper body =>
    .loop index (lower.remaining left) (upper.remaining left) (body.map (·.remaining left))
  | .part tag name body declarations input output annotations =>
    .part tag name (body.map (·.remaining left)) (declarations.map (·.remaining left)) input output
      annotations
  | s => s

/-- What is left of tagged products.  The slots of all others belong to one nest. -/
def taggedSlots (left : List (Nat × List Expr)) : List (Nat × List Expr) :=
  left.filter fun p => p.1 % 2 == 1

/-- What is left of tagged products, by tag. -/
def remainingOf (left : List (Nat × List Expr)) : Remaining :=
  (taggedSlots left).map fun (slot, factors) => (slot / 2, factors)

/-- Moves loop-invariant factors out of the inner loop of a section with shared products. -/
def hoistShared (s : Stmt) : Outcome Stmt := do
  let (s, left) ← hoistWith [] s
  return s.remaining (remainingOf left)

def Stmt.partTag : Stmt → Tag
  | .part tag .. => tag
  | _ => 0

/-- Statements that have been optimised, and what is left of all shared products. -/
structure SharedCode where
  code : List Stmt := []
  left : List (Nat × List Expr) := []

/-- Optimises a statement.  A section that has been optimised before stays as it is. -/
def addShared (done : SharedCode) (s : Stmt) : Outcome SharedCode := do
  match done.code.find? fun t => Stmt.sameObject t.partTag s.partTag with
  | some t => return { done with code := done.code ++ [t] }
  | none =>
    if !s.annotations.contains .fuse && s.annotations.contains .licm then
      let (s, left) ← hoistWith done.left s
      return ⟨done.code ++ [s], taggedSlots left⟩
    else return { done with code := done.code ++ [← optimizeSection s] }

/-- Optimises code with shared products. -/
def optimizeShared (code : List Stmt) : Outcome (List Stmt) := do
  let code ← fuseSections code "Coefficient"
  let code ← fuseSections code "Jacobian"
  let done ← code.foldlM addShared {}
  return done.code.map (·.remaining (remainingOf done.left))

end FormKernel.Kernel
