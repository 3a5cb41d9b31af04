import FormKernel.Kernel.Operand

/-! # Equality of kernel trees

Equality is structural: literals compare by value, symbols by name and a multi-index by its
tag.  A literal that is no number differs from itself, and declarations of variables cannot be
compared at all.  In a sequence, though, an item equals another without a further look when it is
the very same: the tags tell.

`hashable` tells which trees may be used as keys. -/

namespace FormKernel.Kernel

namespace Expr

mutual

/-- Equality of expressions; `item` says that they are compared as items of sequences. -/
def equal (item : Bool) : Expr → Expr → Bool
  | .float x, .float y => x == y
  | .nan s, .nan t => item && s == t
  | .float x, .complex re im => x == re && im == 0.0
  | .complex re im, .float y => re == y && im == 0.0
  | .complex a b, .complex c d => a == c && b == d
  | .int m, .int n => m.same n
  | .symbol s, .symbol t => s.same t
  | .multiIndex t₁ xs m _, .multiIndex t₂ ys n _ =>
    t₁ == t₂ && m == n && equalAll true xs ys
  | .neg a, .neg b => equal item a b
  | .not a, .not b => equal item a b
  | .binary o₁ a b, .binary o₂ c d => o₁ == o₂ && equal item a c && equal item b d
  | .nary o₁ _ _ xs, .nary o₂ _ _ ys => o₁ == o₂ && equalAll item xs ys
  | .call f xs, .call g ys => f == g && equalAll item xs ys
  | .access s xs, .access t ys => s.same t && equalAll true xs ys
  | .conditional a b c, .conditional d e f =>
    equal item a d && equal item b e && equal item c f
  | .assign o₁ a b, .assign o₂ c d => o₁ == o₂ && equal item a c && equal item b d
  | _, _ => false

def equalAll (item : Bool) : List Expr → List Expr → Bool
  | [], [] => true
  | x :: xs, y :: ys => equal item x y && equalAll item xs ys
  | _, _ => false

end

/-- Equality of two expressions that are no items. -/
def same (a b : Expr) : Bool := equal false a b

mutual

def reflexive : Expr → Bool
  | .float x => x == x
  | .nan _ => false
  | .complex re im => re == re && im == im
  | .int n => n.same n
  | .symbol _ | .multiIndex .. | .access .. => true
  | .neg a | .not a => reflexive a
  | .binary _ a b => reflexive a && reflexive b
  | .assign _ a b => reflexive a && reflexive b
  | .nary _ _ _ args => allReflexive args
  | .call _ args => allReflexive args
  | .conditional a b c => reflexive a && reflexive b && reflexive c

def allReflexive : List Expr → Bool
  | [] => true
  | e :: es => reflexive e && allReflexive es

end

/-- The expression with a tag for every literal in it that is no number.  Such literals are
    told from those of other expressions; in the indices of an access, which stay what they are,
    only those without a tag are given one. -/
def renewed (tag : Tag) : Expr → Expr
  | .float x => if x == x then .float x else .nan tag
  | .nan _ => .nan tag
  | .neg a => .neg (renewed tag a)
  | .not a => .not (renewed tag a)
  | .binary op a b => .binary op (renewed tag a) (renewed tag b)
  | .assign op a b => .assign op (renewed tag a) (renewed tag b)
  | .nary op t d args => .nary op t d (args.map (renewed tag))
  | .call f args => .call f (args.map (renewed tag))
  | .conditional a b c => .conditional (renewed tag a) (renewed tag b) (renewed tag c)
  | .access s indices => .access s (indices.map fun
    | .float x => if x == x then .float x else .nan tag
    | i => i)
  | e => e

mutual

/-- Whether an expression may be used as a key. -/
def hashable : Expr → Bool
  | .int _ | .symbol _ | .multiIndex .. | .access .. => true
  | .binary _ a b => hashable a && hashable b
  | .assign _ a b => hashable a && hashable b
  | .nary _ _ _ args => allHashable args
  | .float _ | .nan _ | .complex .. | .neg _ | .not _ | .call .. | .conditional .. => false

/-- Whether all expressions may be used as keys. -/
def allHashable : List Expr → Bool
  | [] => true
  | e :: es => hashable e && allHashable es

end

end Expr

namespace Stmt

/-- Whether an array equals itself, for an array of a single entry. -/
def valuesReflexive : Option Values → Outcome Bool
  | none => .ok true
  | some v =>
    match v.data.toList with
    | [x] => .ok (x.equal x)
    | _ => misfit .wrongValue

/-- Whether two tags name one object. -/
def sameObject (s t : Tag) : Bool := s == t && s != 0

mutual

/-- Equality of statements; `item` says that they are compared as items of sequences.  Of loops
    and array declarations only the form is compared; declarations of variables cannot be
    compared. -/
def equal (item : Bool) : Stmt → Stmt → Outcome Bool
  | .expr a, .expr b => .ok (a.equal item b)
  | .list xs, .list ys => if xs.length == ys.length then equalAll xs ys else .ok false
  | .comment s, .comment t => .ok (s == t)
  | .declaration s, .declaration t => .ok (s.same t)
  | .variableDecl s .., .variableDecl t .. =>
    if item && sameObject s t then .ok true else misfit .noMember
  | .arrayDecl s _ _ v _, .arrayDecl t .. =>
    if item && sameObject s t then .ok true else valuesReflexive v
  | .loop _ lower upper _, .loop .. => .ok (lower.reflexive && upper.reflexive)
  | .part s n xs _ i o a, .part t m ys _ j p b =>
    if item && sameObject s t then .ok true
    else if n == m && i.map (·.name) == j.map (·.name) && o.map (·.name) == p.map (·.name) &&
        a == b then
      if xs.length == ys.length then equalAll xs ys else .ok false
    else .ok false
  | _, _ => .ok false

/-- Equality of the items of two lists, up to the first difference. -/
def equalAll : List Stmt → List Stmt → Outcome Bool
  | x :: xs, y :: ys => do
    if ← equal true x y then equalAll xs ys else return false
  | _, _ => .ok true

end

mutual

/-- Whether a statement may be used as a key. -/
def hashable : Stmt → Bool
  | .expr e => e.hashable
  | .list body => allHashable body
  | .loop index lower upper body =>
    index.hashable && lower.hashable && upper.hashable && allHashable body
  | .arrayDecl .. => true
  | .comment _ | .declaration _ | .variableDecl .. | .part .. => false

/-- Whether all statements may be used as keys. -/
def allHashable : List Stmt → Bool
  | [] => true
  | s :: ss => hashable s && allHashable ss

end

end Stmt

namespace Operand

mutual

/-- Equality of operands: trees as such, numbers by value, texts, lists and maps by content. -/
def equal (item : Bool) : Operand → Operand → Outcome Bool
  | .expr a, .expr b => .ok (a.equal item b)
  | .stmt a, .stmt b => a.equal item b
  | .list xs, .list ys => if xs.length == ys.length then equalAll xs ys else .ok false
  | .map xs, .map ys => if xs.length == ys.length then equalIn ys xs else .ok false
  | .number m, .number n => .ok (m.same n)
  | .text s, .text t => .ok (s == t)
  | .none, .none => .ok true
  | _, _ => .ok false

/-- Equality of the items of two lists, up to the first difference. -/
def equalAll : List Operand → List Operand → Outcome Bool
  | x :: xs, y :: ys => do
    if ← equal true x y then equalAll xs ys else return false
  | _, _ => .ok true

/-- Whether all entries of a map are in another. -/
def equalIn (others : List (String × Operand)) : List (String × Operand) → Outcome Bool
  | [] => .ok true
  | (key, x) :: es => do
    match others.lookup key with
    | some y => if ← equal true x y then equalIn others es else return false
    | Option.none => return false

end

/-- Inequality of operands: two trees are unequal unless they are one. -/
def unequal (shared : Bool) (a b : Operand) : Outcome Bool := do
  if a.isTree || b.isTree then return !shared else return !(← equal false a b)

/-- Whether an operand may be used as a key. -/
def hashable : Operand → Bool
  | .expr e => e.hashable
  | .stmt s => s.hashable
  | .list _ | .map _ => false
  | _ => true

end Operand

end FormKernel.Kernel
