import FormKernel.Proofs.Kernel.Index
import FormKernel.Proofs.Table.Kind

/-!
# Which entry of a table a kernel reads

A kernel that computes at a permutation, an entity, a point and a degree of freedom reads a table
at the place that `tableAccess` writes down: along each axis that the reference calls constant it
reads the first entry.
-/

namespace FormKernel.Binding

open Form (EntityKind Side)
open Kernel (Expr MultiIndex Operand Symbol Wholes)
open Table (TableRef entry IsTable)

/-- A kernel computes for the permutation `p` of the points, the entity `e`, the point `q` and the
    degree of freedom `d`, as seen from a side, and its points and degrees of freedom are counted
    by one loop each. -/
structure At (σ : Wholes) (entity : EntityKind) (side : Option Side) (point dof : MultiIndex)
    (p e q d : Nat) : Prop where
  permutation : σ.item pointPermutation.name [if side == some .minus then 1 else 0] = some (p : Int)
  entity : ∃ o x, entityNumber entity side = .ok o ∧ o.toExpr = .ok x ∧ x.whole σ = some (e : Int)
  point : point.sizes.length = 1 ∧ point.flat.whole σ = some (q : Int)
  dof : dof.sizes.length = 1 ∧ dof.flat.whole σ = some (d : Int)

/-- Every kernel that declares a table and computes at a place finds the entry `y` in it. -/
def Reads (t : TableRef) (p e q d : Nat) (y : Float) : Prop :=
  ∀ (declared : List String) (σ : Wholes) (entity : EntityKind) (side : Option Side)
    (point dof : MultiIndex), declared.contains t.name = true → At σ entity side point dof p e q d →
    ∃ x symbols, tableAccess declared t entity side point dof = .ok (x, symbols) ∧
      x.read σ t.name t.values = some y

variable {p d e q : Nat} {t : TableRef}

lemma permutationNumber_eq_ok (t : TableRef) {σ : Wholes} {side : Option Side}
    (h : σ.item pointPermutation.name [if side == some .minus then 1 else 0] = some (p : Int)) :
    ∃ o x, permutationNumber t side = .ok o ∧ o.toExpr = .ok x ∧
      x.whole σ = some (if t.permuted then (p : Int) else 0) := by
  unfold permutationNumber
  cases t.permuted with
  | true =>
    let place : Int := if side == some .minus then 1 else 0
    have hitem : item pointPermutation [.int place] =
        .ok (.access pointPermutation [.int (.int place)]) := item_eq_ok rfl
    refine ⟨.expr (.access pointPermutation [.int (.int place)]), _, ?_, rfl, ?_⟩
    · rw [if_pos rfl, hitem]
      rfl
    · rwa [Expr.whole_access (Expr.wholes_cons (Expr.whole_int place) Expr.wholes_nil), if_pos rfl]
  | false => exact ⟨.int 0, .int (.int 0), rfl, rfl, rfl⟩

/-- The indices that an access writes down. -/
lemma tableAccess_eq_ok (hname : Kernel.isSymbolName t.name = true) {declared : List String}
    {σ : Wholes} {entity : EntityKind} {side : Option Side} {point dof : MultiIndex}
    (hdeclared : declared.contains t.name = true) (h : At σ entity side point dof p e q d) :
    ∃ is symbols, tableAccess declared t entity side point dof =
        .ok (.access ⟨t.name, some .real⟩ is, symbols) ∧
      Expr.wholes σ is = some ([if t.permuted then p else 0, if t.uniform then 0 else e,
        if t.piecewise then 0 else q, d].map Int.ofNat) := by
  obtain ⟨o, x, ho, hox, hx⟩ := h.entity
  obtain ⟨perm, y, hperm, hpermy, hy⟩ := permutationNumber_eq_ok t h.permutation
  have hnumber : (if t.uniform then .expr (.int (.int 0)) else o : Operand).toExpr =
      .ok (if t.uniform then .int (.int 0) else x) := by
    cases t.uniform with
    | true => rfl
    | false => exact hox
  have hsymbol : Symbol.of t.name (some .real) = .ok ⟨t.name, some .real⟩ := by
    rw [Symbol.of, hname]
    rfl
  have hitem := item_eq_ok (s := ⟨t.name, some .real⟩) (mapM_eq_ok.2 (.cons hpermy
    (.cons hnumber (.cons (Eq.refl (Operand.toExpr (.expr (if t.piecewise then .int (.int 0)
      else point.flat)))) (.cons (Eq.refl (Operand.toExpr (.expr dof.flat))) .nil)))))
  refine ⟨[y, if t.uniform then .int (.int 0) else x,
      if t.piecewise then .int (.int 0) else point.flat, dof.flat], [⟨t.name, some .real⟩], ?_,
    Expr.wholes_cons (hy.trans ?_) (Expr.wholes_cons ?_
      (Expr.wholes_cons ?_ (Expr.wholes_cons h.dof.2 Expr.wholes_nil)))⟩
  · have hloops : (dof.sizes.length == 1 && point.sizes.length == 1) = true := by
      simp [h.dof.1, h.point.1]
    unfold tableAccess
    rw [ho, hperm]
    simp only [bind, Except.bind, hloops, if_true, hsymbol, hdeclared, Bool.not_true,
      Bool.false_eq_true, if_false, hitem, pure, Except.pure]
  · cases t.permuted <;> rfl
  · cases t.uniform with
    | true => rfl
    | false => exact hx
  · cases t.piecewise with
    | true => rfl
    | false => exact h.point.2

/-- What a kernel reads: along the axes that the reference calls constant, the first entry. -/
lemma reads_entry {N E P D : Nat} (hname : Kernel.isSymbolName t.name = true)
    (htable : IsTable t.values N E P D) (hp : (if t.permuted then p else 0) < N)
    (he : (if t.uniform then 0 else e) < E) (hq : (if t.piecewise then 0 else q) < P) (hd : d < D) :
    Reads t p e q d (entry t.values (if t.permuted then p else 0) (if t.uniform then 0 else e)
      (if t.piecewise then 0 else q) d) := by
  intro declared σ entity side point dof hdeclared hat
  obtain ⟨is, symbols, haccess, hindex⟩ := tableAccess_eq_ok hname hdeclared hat
  refine ⟨_, symbols, haccess, ?_⟩
  have hwithin : Within t.values.shape [if t.permuted then p else 0, if t.uniform then 0 else e,
      if t.piecewise then 0 else q, d] := by
    rw [htable.shape]
    exact Table.within_four.2 ⟨_, _, _, _, rfl, hp, he, hq, hd⟩
  rw [Expr.read, hindex, Option.bind_eq_bind, Option.bind_some, if_pos rfl,
    Dense.at?_of_within hwithin]
  exact htable.get?_eq hp he hq hd

/-- The index of a loop that runs over one symbol. -/
def loopIndex (name : String) : MultiIndex :=
  ⟨0, [.symbol ⟨name, some .int⟩], [1], .symbol ⟨name, some .int⟩⟩

/-- There is a kernel at every place. -/
lemma exists_at (p e q d : Nat) : ∃ σ, At σ .facet none (loopIndex "iq")
    (loopIndex "ic") p e q d := by
  let σ : Wholes := {
    symbol := fun name => some (if name = "iq" then q else d)
    item := fun name _ => some (if name = pointPermutation.name then p else e) }
  refine ⟨σ, rfl, ?_, ⟨rfl, rfl⟩, rfl, rfl⟩
  have hitem : item entityLocalIndex [.int 0] = .ok (.access entityLocalIndex [.int (.int 0)]) :=
    item_eq_ok rfl
  refine ⟨.expr (.access entityLocalIndex [.int (.int 0)]), _, ?_, rfl, rfl⟩
  simp only [entityNumber]
  exact bind_eq_ok.2 ⟨_, hitem, rfl⟩

lemma Reads.unique {x y : Float} (hx : Reads t p e q d x) (hy : Reads t p e q d y) : x = y := by
  obtain ⟨σ, hat⟩ := exists_at p e q d
  have hdeclared : [t.name].contains t.name = true := by simp
  obtain ⟨_, _, haccess, hread⟩ := hx _ _ _ _ _ _ hdeclared hat
  obtain ⟨_, _, haccess', hread'⟩ := hy _ _ _ _ _ _ hdeclared hat
  obtain ⟨rfl, rfl⟩ : _ ∧ _ := by simpa using haccess.symm.trans haccess'
  exact Option.some.inj (hread.symm.trans hread')

end FormKernel.Binding
