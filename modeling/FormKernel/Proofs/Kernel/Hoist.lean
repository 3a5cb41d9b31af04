import FormKernel.Proofs.Form.Rational
import FormKernel.Proofs.Kernel.HoistSteps
import FormKernel.Proofs.Kernel.Semantics
import Mathlib.Algebra.BigOperators.Group.List.Basic

/-!
# Hoisting keeps the result

In a nest of two loops the factors that do not depend on the inner index are multiplied once per
step of the outer loop and kept in a temporary array.  The section does the same as before, and the
temporary arrays are gone after it.  As reading an entry that is not set or does not exist gets
stuck, and the section also runs when the temporary arrays start without values, every entry of them
is written before it is read.
-/

namespace FormKernel.Kernel

open Form (Datum Interpretation)
open List

variable {R : Type}

/-! ## Temporary arrays over an environment -/

def Env.overlay (top env : Env R) : Env R := fun x => (top x).or (env x)

namespace Env

variable {top env env' : Env R} {x : String}

lemma overlay_of_none (h : top x = none) (env : Env R) : top.overlay env x = env x := by
  rw [overlay, h, Option.none_or]

lemma overlay_set (h : top x = none) (env : Env R) (o : Object R) :
    (top.overlay env).set x o = top.overlay (env.set x o) := by
  funext y
  by_cases hy : y = x
  · rw [hy, overlay_of_none h, set_self, set_self]
  · rw [set_of_ne hy, overlay, overlay, set_of_ne hy]

lemma set_overlay (o : Object R) : (top.set x o).overlay env = (top.overlay env).set x o := by
  funext y
  by_cases hy : y = x
  · rw [hy, set_self, overlay, set_self, Option.some_or]
  · rw [set_of_ne hy, overlay, overlay, set_of_ne hy]

lemma overlay_leave (names : List String) :
    (top.overlay env').leave names (top.overlay env) = top.overlay (env'.leave names env) := by
  funext y
  by_cases hy : y ∈ names <;> simp [leave, overlay, hy]

end Env

variable [CommRing R] {I : Interpretation R}

/-! ## Values of products -/

def Expr.number (I : Interpretation R) (env : Env R) (e : Expr) : Option R :=
  do (← e.eval I env).number?

/-- The factors have numbers as values, and `x` is their product. -/
def Multiplies (I : Interpretation R) (env : Env R) (fs : List Expr) (x : R) : Prop :=
  (∀ f ∈ fs, (f.number I env).isSome) ∧ (fs.map fun f => (f.number I env).getD 0).prod = x

lemma numbers_eq_some {env : Env R} {fs : List Expr} {xs : List R} :
    Expr.numbers I env fs = some xs ↔
      (∀ f ∈ fs, (f.number I env).isSome) ∧ fs.map (fun f => (f.number I env).getD 0) = xs := by
  induction fs generalizing xs with
  | nil => simp [Expr.numbers]
  | cons f fs ih =>
    have hcons : Expr.numbers I env (f :: fs) =
        (f.number I env).bind fun y => (Expr.numbers I env fs).map (y :: ·) := by
      rw [Expr.numbers, Expr.number]
      cases f.eval I env with
      | none => rfl
      | some d => cases d <;> cases Expr.numbers I env fs <;> rfl
    rw [hcons, forall_mem_cons, map_cons]
    cases f.number I env with
    | none => simp
    | some y => simp [Option.map_eq_some_iff, ih, and_assoc]

lemma multiplies_iff {env : Env R} {tag : Tag} {t : DType} {fs : List Expr} {d : Datum R} :
    (Expr.nary .product tag t fs).eval I env = some d ↔ ∃ x, d = .number x ∧
      Multiplies I env fs x := by
  rw [Expr.eval]
  simp only [Option.bind_eq_bind, Option.bind_eq_some_iff, numbers_eq_some, Option.pure_def,
    Option.some.injEq, Multiplies]
  constructor
  · rintro ⟨xs, ⟨hsome, rfl⟩, rfl⟩
    exact ⟨_, rfl, hsome, rfl⟩
  · rintro ⟨x, rfl, hsome, rfl⟩
    exact ⟨_, ⟨hsome, rfl⟩, rfl⟩

namespace Multiplies

variable {env env' : Env R} {fs gs : List Expr} {x y : R}

lemma congr (heval : ∀ f ∈ fs, f.eval I env' = f.eval I env) (h : Multiplies I env fs x) :
    Multiplies I env' fs x := by
  have hnumber : ∀ f ∈ fs, f.number I env' = f.number I env := fun f hf => by
    rw [Expr.number, heval f hf, Expr.number]
  refine ⟨fun f hf => hnumber f hf ▸ h.1 f hf, ?_⟩
  rw [map_congr_left fun f hf => by rw [hnumber f hf]]
  exact h.2

lemma append (h : Multiplies I env fs x) (h' : Multiplies I env gs y) :
    Multiplies I env (fs ++ gs) (x * y) := by
  refine ⟨forall_mem_append.2 ⟨h.1, h'.1⟩, ?_⟩
  rw [map_append, prod_append, h.2, h'.2]

/-- The factors may be sorted into two kinds. -/
lemma filter (h : Multiplies I env fs x) (p : Expr → Bool) :
    ∃ y z, Multiplies I env (fs.filter p) y ∧ Multiplies I env (fs.filter fun f => !p f) z ∧
      x = y * z := by
  refine ⟨_, _, ⟨fun f hf => h.1 f (mem_of_mem_filter hf), rfl⟩,
    ⟨fun f hf => h.1 f (mem_of_mem_filter hf), rfl⟩, ?_⟩
  rw [← prod_append, ← map_append, ← h.2]
  exact ((filter_append_perm p fs).map _).prod_eq.symm

lemma unique (h : Multiplies I env fs x) (h' : Multiplies I env fs y) : x = y := h.2.symm.trans h'.2

end Multiplies

/-! ## Filling a temporary array -/

/-- A statement that leaves the array it declares without values. -/
def Stmt.bare : Stmt → Stmt
  | .arrayDecl tag s sizes _ const => .arrayDecl tag s sizes none const
  | s => s

/-- An array with one index and `n` entries. -/
def Object.column (n : Nat) (a : Nat → R) : Object R :=
  .numbers (isWithin [n]) fun is => if isWithin
    [n] is then some (.number (a is.head!.toNat)) else none

lemma isWithin_singleton {n : Nat} {is : List Int} :
    isWithin [n] is = true ↔ ∃ k : Nat, k < n ∧ is = [(k : Int)] := by
  rw [isWithin, decide_eq_true_eq]
  constructor
  · rintro ⟨hlength, hbounds⟩
    obtain ⟨k, rfl⟩ := length_eq_one_iff.1 hlength
    obtain ⟨hpos, hlt⟩ := hbounds (k, n) (by simp)
    exact ⟨k.toNat, by omega, by rw [Int.toNat_of_nonneg hpos]⟩
  · rintro ⟨k, hk, rfl⟩
    simpa using hk

/-- After its loop a temporary array holds a product for each step, whatever its first values. -/
lemma exec_fill {c : Nat} {j : Symbol} {n : Nat} {product : Expr} {a : Nat → R} (env : Env R)
    (values : Option Values) (hj : (temporary c).name ≠ j.name)
    (h : ∀ k < n, ∀ o, product.eval I ((env.set (temporary c).name o).set j.name (.index k)) =
      some (.number (a k))) :
    Stmt.execAll I [.arrayDecl 0 (temporary c) [n] values false,
      .loop (.symbol j) (.int (.int 0)) (.int (.int n))
        [.expr (.assign .set (.access (temporary c) [.symbol j]) product)]] env =
      some (env.set (temporary c).name (.column n a)) := by
  -- after `k` steps the first `k` entries are set
  let filled (k : Nat) : Object R := .numbers (isWithin [n]) fun is =>
    if isWithin [k] is then some (.number (a is.head!.toNat)) else firstEntry I [n] values is
  have hfirst : Object.array I [n] values = filled 0 := by
    have hnone : ∀ is, isWithin [(0 : Nat)] is ≠ true := fun is h => by
      obtain ⟨k, hk, -⟩ := isWithin_singleton.1 h
      exact absurd hk (Nat.not_lt_zero k)
    exact congrArg (Object.numbers _) (funext fun is => (if_neg (hnone is)).symm)
  have hlast : filled n = .column n a := by
    refine congrArg (Object.numbers _) (funext fun is => ?_)
    split
    · rfl
    · next hout => exact if_neg hout
  have hnext : ∀ k < n,
      Function.update (fun is => if isWithin [k] is then some (.number (a is.head!.toNat))
      else firstEntry I [n] values is) [(k : Int)] (some (.number (a k))) = fun is =>
        if isWithin [(k + 1 : Nat)] is then some (.number (a is.head!.toNat))
          else firstEntry I [n] values is := by
    intro k hk
    funext is
    by_cases his : is = [(k : Int)]
    · rw [his, Function.update_self, if_pos (isWithin_singleton.2 ⟨k, Nat.lt_succ_self k, rfl⟩)]
      rfl
    · have hiff : isWithin [(k + 1 : Nat)] is = isWithin [k] is := by
        rw [Bool.eq_iff_iff, isWithin_singleton, isWithin_singleton]
        refine exists_congr fun m => and_congr_left fun hm => ?_
        have hne : m ≠ k := fun h => his (h ▸ hm)
        omega
      rw [Function.update_of_ne his, hiff]
  rw [execAll_cons, Stmt.exec, Option.bind_some, execAll_singleton, hfirst, ← hlast,
    exec_loop I rfl]
  refine ⟨fun k => env.set (temporary c).name (filled k), rfl, rfl, fun k hk =>
    ⟨((env.set (temporary c).name (filled k)).set j.name (.index k)).set (temporary c).name
      (filled (k + 1)), ?_, ?_⟩⟩
  · have hplace : (Expr.access (temporary c) [.symbol j]).place
        ((env.set (temporary c).name (filled k)).set j.name (.index k)) =
          some ((temporary c).name, [(k : Int)]) := by
      simp [Expr.place, Expr.wholes, Expr.whole, Env.wholes]
    have harray : ((env.set (temporary c).name (filled k)).set j.name (.index k))
        (temporary c).name = some (filled k) := by
      rw [Env.set_of_ne hj, Env.set_self]
    rw [execAll_singleton, Stmt.exec, Env.assign, hplace, h k hk]
    simp only [Option.bind_eq_bind, Option.bind_some, AssignOp.apply, Env.put, harray, filled]
    rw [if_pos (isWithin_singleton.2 ⟨k, hk, rfl⟩), hnext k hk]
  · funext x
    by_cases hx : x = j.name
    · subst hx
      simp [Env.leave, Env.set_of_ne hj.symm]
    · by_cases hx' : x = (temporary c).name
      · subst hx'
        simp [Env.leave, hj]
      · simp [Env.leave, hx, Env.set_of_ne hx, Env.set_of_ne hx']

/-! ## Loops that change one array -/

/-- Code that changes nothing but what one name stands for. -/
def Changes (I : Interpretation R) (x : String) (body : List Stmt) : Prop :=
  ∀ env env', Stmt.execAll I body env = some env' → env.SameBut [x] env'

section Loops

variable {x : String} {i : Symbol} {n : Nat} {body body' : List Stmt} {env env' top : Env R}

lemma Changes.states (hbody : Changes I x body) (hdeclares : Stmt.declaresAll body = [])
    (h : (Stmt.loop (.symbol i) (.int (.int 0)) (.int (.int n)) body).exec I env = some env') :
    ∃ state : Nat → Env R, state 0 = env ∧ state n = env' ∧ (∀ k ≤ n, env.SameBut [x] (state k)) ∧
      ∀ k < n, ∃ after, Stmt.execAll I body ((state k).set i.name (.index k)) = some after ∧
        after.leave [i.name] (state k) = state (k + 1) := by
  obtain ⟨state, hfirst, hlast, hstep⟩ := (exec_loop I hdeclares).1 h
  refine ⟨state, hfirst, hlast, fun k => ?_, hstep⟩
  induction k with
  | zero => exact fun _ => hfirst ▸ Env.SameBut.refl _ _
  | succ k ih =>
    intro hk
    obtain ⟨after, hafter, hleave⟩ := hstep k hk
    refine (ih (Nat.le_of_succ_le hk)).trans fun y hy => ?_
    rw [← hleave, Env.leave]
    split
    · rfl
    · next hne => rw [hbody _ _ hafter y hy, Env.set_of_ne (by simpa using hne)]

lemma Changes.loop (hbody : Changes I x body) (hdeclares : Stmt.declaresAll body = []) :
    Changes I x [.loop (.symbol i) (.int (.int 0)) (.int (.int n)) body] := by
  intro env env' h
  rw [execAll_singleton] at h
  obtain ⟨state, -, rfl, hsame, -⟩ := hbody.states hdeclares h
  exact hsame n (Nat.le_refl n)

/-- Each step of a loop runs from a state that differs from the first in one array. -/
lemma Changes.reaches (hbody : Changes I x body) (hdeclares : Stmt.declaresAll body = [])
    (h : (Stmt.loop (.symbol i) (.int (.int 0)) (.int (.int n)) body).exec I env = some env')
    {k : Nat} (hk : k < n) : ∃ before after, (env.set i.name (.index k)).SameBut [x] before ∧
      Stmt.execAll I body before = some after := by
  obtain ⟨state, -, -, hsame, hstep⟩ := hbody.states hdeclares h
  obtain ⟨after, hafter, -⟩ := hstep k hk
  exact ⟨_, after, (hsame k (Nat.le_of_lt hk)).set _ _, hafter⟩

/-- A loop over other arrays does the same if its body does. -/
lemma Changes.exec_overlay (hbody : Changes I x body) (hdeclares : Stmt.declaresAll body = [])
    (hdeclares' : Stmt.declaresAll body' = []) (htop : top i.name = none)
    (hsame : ∀ k < n, ∀ before after, (env.set i.name (.index k)).SameBut [x] before →
      Stmt.execAll I body before = some after →
        Stmt.execAll I body' (top.overlay before) = some (top.overlay after))
    (h : (Stmt.loop (.symbol i) (.int (.int 0)) (.int (.int n)) body).exec I env = some env') :
    (Stmt.loop (.symbol i) (.int (.int 0)) (.int (.int n)) body').exec I (top.overlay env) =
      some (top.overlay env') := by
  obtain ⟨state, rfl, rfl, hstates, hstep⟩ := hbody.states hdeclares h
  refine (exec_loop I hdeclares').2 ⟨fun k => top.overlay (state k), rfl, rfl, fun k hk => ?_⟩
  obtain ⟨after, hafter, hleave⟩ := hstep k hk
  refine ⟨top.overlay after, ?_, by rw [Env.overlay_leave, hleave]⟩
  rw [Env.overlay_set htop]
  exact hsame k hk _ after ((hstates k (Nat.le_of_lt hk)).set _ _) hafter

end Loops

/-! ## Terms -/

section Terms

variable {array : Symbol} {env env' top : Env R}

lemma execAll_bodies (groups : List (List Term)) (env : Env R) :
    Stmt.execAll I (groups.map (bodyOf array)) env =
      Stmt.execAll I (groups.flatten.map fun t => .expr (t.expr array)) env := by
  have hbody : ∀ ts : List Term, (bodyOf array ts).exec I =
      Stmt.execAll I (ts.map fun t => .expr (t.expr array)) := by
    intro ts
    funext env
    match ts with
    | [] => rfl
    | [_] => rw [map_singleton, execAll_singleton]; rfl
    | _ :: _ :: _ => rfl
  induction groups generalizing env with
  | nil => rfl
  | cons g gs ih =>
    rw [map_cons, execAll_cons, flatten_cons, map_append, execAll_append, hbody]
    exact congrArg _ (funext ih)

lemma changes_terms (array : Symbol) (ts : List Term) :
    Changes I array.name (ts.map fun t => .expr (t.expr array)) := by
  induction ts with
  | nil => exact fun env env' h => Option.some.inj h ▸ Env.SameBut.refl _ _
  | cons t ts ih =>
    intro env env' h
    rw [map_cons, execAll_cons] at h
    obtain ⟨after, hafter, h⟩ := Option.bind_eq_some_iff.1 h
    obtain ⟨-, o, rfl, -⟩ := assign_access I hafter
    exact (Env.sameBut_set (by simp) env o).trans (ih _ _ h)

lemma changes_bodies (array : Symbol) (groups : List (List Term)) :
    Changes I array.name (groups.map (bodyOf array)) := fun env env' h =>
  changes_terms array groups.flatten env env' (execAll_bodies groups env ▸ h)

/-- Where terms are added, their factors have values. -/
lemma multiplies_of_execAll {ts : List Term} (hts : ∀ t ∈ ts, ∀ f ∈ t.factors, f.Avoids array.name)
    (h : Stmt.execAll I (ts.map fun t => .expr (t.expr array)) env = some env') :
    ∀ t ∈ ts, ∃ x, Multiplies I env t.factors x := by
  induction ts generalizing env with
  | nil => simp
  | cons t ts ih =>
    rw [forall_mem_cons] at hts ⊢
    rw [map_cons, execAll_cons] at h
    obtain ⟨after, hafter, h⟩ := Option.bind_eq_some_iff.1 h
    obtain ⟨hvalue, o, rfl, -⟩ := assign_access I hafter
    obtain ⟨d, hd⟩ := Option.isSome_iff_exists.1 hvalue
    obtain ⟨x, -, hx⟩ := multiplies_iff.1 hd
    refine ⟨⟨x, hx⟩, fun t' ht' => ?_⟩
    obtain ⟨y, hy⟩ := ih hts.2 h t' ht'
    exact ⟨y, hy.congr fun f hf =>
      (Expr.eval_congr I fun u hu => Env.set_of_ne (hts.2 t' ht' f hf u hu) env o).symm⟩

/-- Terms whose products keep their values do the same over temporary arrays. -/
lemma execAll_overlay {ps : List (Term × Nat)} {left : List (Nat × List Expr)} {P : Env R → Prop}
    (harray : top array.name = none) (hP : ∀ {env}, P env → ∀ o, P (env.set array.name o))
    (hindices : ∀ p ∈ ps, ∀ e ∈ p.1.indices, e.Fits fun x _ => top x = none)
    (hps : ∀ p ∈ ps, ∀ env, P env → ∀ x, Multiplies I env p.1.factors x →
      Multiplies I (top.overlay env) (Term.rest left p).factors x) (henv : P env)
    (h : Stmt.execAll I (ps.map fun p => .expr (p.1.expr array)) env = some env') :
    Stmt.execAll I (ps.map fun p => .expr ((Term.rest left p).expr array)) (top.overlay env) =
      some (top.overlay env') := by
  induction ps generalizing env with
  | nil => rw [← Option.some.inj h]; rfl
  | cons p ps ih =>
    rw [forall_mem_cons] at hindices hps
    rw [map_cons, execAll_cons] at h ⊢
    obtain ⟨after, hafter, h⟩ := Option.bind_eq_some_iff.1 h
    obtain ⟨hvalue, o, rfl, hassign⟩ := assign_access I hafter
    obtain ⟨d, hd⟩ := Option.isSome_iff_exists.1 hvalue
    obtain ⟨x, rfl, hx⟩ := multiplies_iff.1 hd
    have hstep : (Stmt.expr ((Term.rest left p).expr array)).exec I (top.overlay env) =
        some (top.overlay (env.set array.name o)) := by
      rw [← Env.overlay_set harray]
      refine hassign (Expr.wholes_congr fun e he u hu => ?_) (Env.overlay_of_none harray env) ?_
      · exact Env.overlay_of_none (hindices.1 e he u hu) env
      · exact (multiplies_iff.2 ⟨x, rfl, hps.1 env henv x hx⟩).trans hd.symm
    rw [hstep]
    exact ih hindices.2 hps.2 (hP henv o) h

end Terms

/-! ## Hoisted factors -/

namespace ProductNest

variable {nest : ProductNest}

lemma factors_eq_of_slot (h : nest.WellFormed) {p q : Term × Nat} (hp : p ∈ nest.terms.zipIdx)
    (hq : q ∈ nest.terms.zipIdx) (hslot : Term.slot p = Term.slot q) :
    p.1.factors = q.1.factors := by
  rcases Term.slot_inj hslot with ⟨-, hindex⟩ | ⟨htag, hsame⟩
  · have hp' := mem_zipIdx_iff_getElem?.1 hp
    rw [hindex, mem_zipIdx_iff_getElem?.1 hq] at hp'
    rw [Option.some.inj hp']
  · exact h.shared _ (fst_mem_of_mem_zipIdx hp) _ (fst_mem_of_mem_zipIdx hq) htag hsame

lemma isTemporary_of_factor (h : nest.WellFormed) {t : Term} (ht : t ∈ nest.terms) :
    ∀ f ∈ t.factors, f.Fits fun x _ => isTemporary x = false := fun f hf u hu =>
  h.uses u (mem_flatMap.2 ⟨t, ht, mem_append_right _ (Expr.mem_usesAll.2 ⟨f, hf, hu⟩)⟩)

lemma isTemporary_of_index (h : nest.WellFormed) {t : Term} (ht : t ∈ nest.terms) :
    ∀ e ∈ t.indices, e.Fits fun x _ => isTemporary x = false := fun e he u hu =>
  h.uses u (mem_flatMap.2 ⟨t, ht, mem_append_left _ (Expr.mem_usesAll.2 ⟨e, he, hu⟩)⟩)

/-- The fixed factors have values at each step of the outer loop. -/
def Reads (I : Interpretation R) (nest : ProductNest) (env : Env R) : Prop :=
  ∀ k < nest.rows, ∀ t ∈ nest.terms, ∀ f ∈ fixedOf nest.inner t.factors,
    (f.number I (env.set nest.outer.name (.index k))).isSome

/-- The states inside of the nest at a step of the outer loop. -/
def Inside (nest : ProductNest) (env : Env R) (k : Nat) (σ : Env R) : Prop :=
  (env.set nest.outer.name (.index k)).SameBut [nest.array.name, nest.inner.name] σ

end ProductNest

/-- What has been hoisted: the code in front of the nest fills the temporary arrays in `top`, also
    if they have no first values, and the factors that are left multiply to what they multiplied to
    before. -/
structure Hoisted.Keeps (I : Interpretation R) (nest : ProductNest) (env : Env R) (done : Hoisted)
    (top : Env R) : Prop where
  /-- Temporary arrays that are still to come have no values, -/
  fresh : ∀ c, done.counter ≤ c → top (temporary c).name = none
  /-- and neither has anything else; -/
  names : ∀ x, isTemporary x = false → top x = none
  /-- those so far are declared by the code that fills them. -/
  declares : ∀ x, x ∈ Stmt.declaresAll done.code ↔ (top x).isSome
  run : Stmt.execAll I done.code env = some (top.overlay env)
  bare : Stmt.execAll I (done.code.map Stmt.bare) env = some (top.overlay env)
  uses : ∀ slot fs, done.left.lookup slot = some fs → ∀ f ∈ fs,
    f.Fits fun x _ => ∀ c, done.counter ≤ c → x ≠ (temporary c).name
  /-- A changed product has no more fixed factors to move, -/
  few : ∀ slot fs, done.left.lookup slot = some fs → (fixedOf nest.inner fs).length ≤ 1
  /-- and the value it had. -/
  left : ∀ p ∈ nest.terms.zipIdx, ∀ fs, done.left.lookup (Term.slot p) = some fs →
    ∀ k < nest.rows, ∀ σ, nest.Inside env k σ → ∀ x, Multiplies I σ p.1.factors x →
      Multiplies I (top.overlay σ) fs x

section Hoisting

variable {nest : ProductNest} {env top : Env R} {done : Hoisted} {p : Term × Nat}

/-- Factors of the nest have the same values over temporary arrays. -/
lemma Hoisted.Keeps.overlay (h : done.Keeps I nest env top) (hnest : nest.WellFormed) {t : Term}
    (ht : t ∈ nest.terms) {fs : List Expr} (hfs : ∀ f ∈ fs, f ∈ t.factors) {σ : Env R} {x : R}
    (hx : Multiplies I σ fs x) : Multiplies I (top.overlay σ) fs x :=
  hx.congr fun f hf => Expr.eval_congr I fun u hu =>
    Env.overlay_of_none (h.names u.1 (nest.isTemporary_of_factor hnest ht f (hfs f hf) u hu)) σ

lemma lookup_cons_eq_some {left : List (Nat × List Expr)} {slot slot' : Nat} {fs gs : List Expr}
    (h : ((slot, gs) :: left).lookup slot' = some fs) :
    slot' = slot ∧ fs = gs ∨ left.lookup slot' = some fs := by
  rw [lookup_cons] at h
  split at h
  · next heq => exact .inl ⟨eq_of_beq heq, (Option.some.inj h).symm⟩
  · exact .inr h

/-- A step that leaves the factors as they are. -/
lemma Hoisted.Keeps.stay (h : done.Keeps I nest env top) (hnest : nest.WellFormed)
    (hp : p ∈ nest.terms.zipIdx)
    (hfew : (fixedOf nest.inner (done.factors (Term.update nest.array p))).length ≤ 1) :
    Hoisted.Keeps I nest env { done with
      left := (Term.slot p, done.factors (Term.update nest.array p)) :: done.left } top := by
  have hterm := fst_mem_of_mem_zipIdx hp
  refine ⟨h.fresh, h.names, h.declares, h.run, h.bare, fun slot fs hfs => ?_, fun slot fs hfs => ?_,
    fun q hq fs hfs k hk σ hσ x hx => ?_⟩
  all_goals rcases lookup_cons_eq_some hfs with ⟨hslot, rfl⟩ | hfs
  · cases hlookup : done.left.lookup (Term.slot p) with
    | none =>
      rw [Hoisted.factors, Term.update, hlookup]
      exact fun f hf u hu c _ => ne_temporary (nest.isTemporary_of_factor hnest hterm f hf u hu) c
    | some gs =>
      rw [Hoisted.factors, Term.update, hlookup]
      exact h.uses _ _ hlookup
  · exact h.uses _ _ hfs
  · exact hfew
  · exact h.few _ _ hfs
  · cases hlookup : done.left.lookup (Term.slot p) with
    | none =>
      rw [Hoisted.factors, Term.update, hlookup]
      rw [nest.factors_eq_of_slot hnest hq hp hslot] at hx
      exact h.overlay hnest hterm (fun f hf => hf) hx
    | some gs =>
      rw [Hoisted.factors, Term.update, hlookup]
      exact h.left q hq gs (hslot ▸ hlookup) k hk σ hσ x hx
  · exact h.left q hq fs hfs k hk σ hσ x hx

/-- The products of the fixed factors of a term at the steps of the outer loop. -/
def ProductNest.column (I : Interpretation R) (nest : ProductNest) (env : Env R) (t : Term)
    (k : Nat) : R :=
  ((fixedOf nest.inner t.factors).map fun f =>
    (f.number I (env.set nest.outer.name (.index k))).getD 0).prod

variable {k : Nat} {t : Term} {σ : Env R}

/-- The fixed factors have the same values anywhere inside of the nest. -/
lemma ProductNest.eval_fixed (hnest : nest.WellFormed) (ht : t ∈ nest.terms)
    (hσ : nest.Inside env k σ) :
    ∀ f ∈ fixedOf nest.inner t.factors,
    f.eval I σ = f.eval I (env.set nest.outer.name (.index k)) := by
  intro f hf
  obtain ⟨hf, hfixed⟩ := mem_filter.1 hf
  obtain ⟨hfactor, -, harray⟩ := hnest.factors t ht f hf
  have hinner := avoids_of_moves hfactor (by simpa using hfixed)
  refine Expr.eval_congr I fun u hu => hσ u.1 ?_
  simp [harray u hu, hinner u hu]

/-- What the fixed factors of a term multiply to inside of the nest. -/
lemma ProductNest.multiplies_column (hnest : nest.WellFormed) (hreads : nest.Reads I env)
    (ht : t ∈ nest.terms) (hk : k < nest.rows) (hσ : nest.Inside env k σ) :
    Multiplies I σ (fixedOf nest.inner t.factors) (nest.column I env t k) :=
  Multiplies.congr (nest.eval_fixed hnest ht hσ) ⟨hreads k hk t ht, rfl⟩

/-- The product that fills a temporary array. -/
lemma Hoisted.Keeps.eval_fixed (h : done.Keeps I nest env top) (hnest : nest.WellFormed)
    (hreads : nest.Reads I env) (ht : t ∈ nest.terms) (type : DType) (hk : k < nest.rows)
    (o : Object R) : (Expr.nary .product 0 type (fixedOf nest.inner t.factors)).eval I
      (((top.overlay env).set (temporary done.counter).name o).set nest.outer.name (.index k)) =
        some (.number (nest.column I env t k)) := by
  refine multiplies_iff.2 ⟨_, rfl, Multiplies.congr (fun f hf => Expr.eval_congr I fun u hu => ?_)
    ⟨hreads k hk t ht, rfl⟩⟩
  have hname := nest.isTemporary_of_factor hnest ht f (mem_of_mem_filter hf) u hu
  dsimp only
  by_cases hu' : u.1 = nest.outer.name
  · rw [hu', Env.set_self, Env.set_self]
  · rw [Env.set_of_ne hu', Env.set_of_ne hu', Env.set_of_ne (ne_temporary hname _),
      Env.overlay_of_none (h.names _ hname)]

/-- Inside of the nest the current entry of a temporary array is read. -/
lemma multiplies_temporary (hnest : nest.WellFormed) {c : Nat} {a : Nat → R} (hk : k < nest.rows)
    (hσ : nest.Inside env k σ) (htop : top nest.outer.name = none) : Multiplies I
      ((top.set (temporary c).name (.column nest.rows a)).overlay σ)
      [.access (temporary c) [.symbol nest.outer]] (a k) := by
  have houter : nest.outer.name ≠ (temporary c).name := ne_temporary (hnest.loops _ (by simp)) c
  have hindex : (top.set (temporary c).name (.column nest.rows a)).overlay σ nest.outer.name =
      some (.index k) := by
    have hdiffer := hnest.names
    simp only [nodup_cons, mem_cons, not_or] at hdiffer
    rw [Env.set_overlay, Env.set_of_ne houter, Env.overlay_of_none htop, hσ _ (by simp [hdiffer]),
      Env.set_self]
  have hnumber : (Expr.access (temporary c) [.symbol nest.outer]).number I
      ((top.set (temporary c).name (.column nest.rows a)).overlay σ) = some (a k) := by
    have hwithin : isWithin [(nest.rows : Int)] [(k : Int)] = true :=
      isWithin_singleton.2 ⟨k, hk, rfl⟩
    simp [Expr.number, Expr.eval, Expr.wholes, Expr.whole, Env.wholes, hindex, Env.number?]
    simp [Env.set_overlay, Object.column, hwithin, Form.Datum.number?]
  exact ⟨by simp [hnumber], by simp [hnumber]⟩

lemma fixedOf_moving (i j : Symbol) (c : Nat) (fs : List Expr) :
    (fixedOf i (fs.filter (Expr.moves i) ++ [.access (temporary c) [.symbol j]])).length ≤ 1 := by
  have hmoving : (fs.filter (Expr.moves i)).filter (fun f => !f.moves i) = [] := by
    rw [filter_filter, filter_eq_nil_iff]
    simp
  rw [fixedOf, filter_append, hmoving, nil_append]
  exact length_filter_le _ _

/-- A step that moves the fixed factors of a product to a temporary array: the array is new and
    holds their products, so nothing that was there before changes. -/
lemma Hoisted.Keeps.move (h : done.Keeps I nest env top) (hnest : nest.WellFormed)
    (hreads : nest.Reads I env) (hp : p ∈ nest.terms.zipIdx)
    (hmany : 1 < (fixedOf nest.inner (done.factors (Term.update nest.array p))).length)
    (type : DType) :
    (done.moved nest.outer nest.inner nest.rows (Term.update nest.array p) type).Keeps I nest env
      (top.set (temporary done.counter).name (.column nest.rows (nest.column I env p.1))) := by
  have hterm := fst_mem_of_mem_zipIdx hp
  -- products that have been met before have no more than one fixed factor
  have hlookup : done.left.lookup (Term.slot p) = none := by
    cases hlookup : done.left.lookup (Term.slot p) with
    | none => rfl
    | some gs =>
      rw [Hoisted.factors, Term.update, hlookup] at hmany
      exact absurd (h.few _ _ hlookup) (Nat.not_le_of_lt hmany)
  have hfactors : done.factors (Term.update nest.array p) = p.1.factors := by
    rw [Hoisted.factors, Term.update, hlookup]
    rfl
  have hfill := fun values => exec_fill (I := I) (top.overlay env) values
    (ne_temporary (hnest.loops nest.outer.name (by simp)) done.counter).symm
    fun k hk o => h.eval_fixed hnest hreads hterm type hk o
  have hother : ∀ x, x ≠ (temporary done.counter).name → ∀ o σ,
      (top.set (temporary done.counter).name o).overlay σ x = top.overlay σ x := by
    intro x hx o σ
    rw [Env.set_overlay, Env.set_of_ne hx]
  refine ⟨fun c hc => ?_, fun x hx => ?_, fun x => ?_, ?_, ?_, fun slot fs hfs => ?_,
    fun slot fs hfs => ?_, fun q hq fs hfs k hk σ hσ x hx => ?_⟩
  · have hne : (temporary c).name ≠ (temporary done.counter).name := fun heq => by
      rw [temporary_injective heq] at hc
      exact Nat.not_succ_le_self _ hc
    rw [Env.set_of_ne hne]
    exact h.fresh c (Nat.le_of_succ_le hc)
  · rw [Env.set_of_ne (ne_temporary hx _), h.names x hx]
  · rw [Hoisted.moved, declaresAll_append, mem_append, h.declares]
    by_cases hx : x = (temporary done.counter).name
    · simp [hx, fillCode, Stmt.declaresAll, Stmt.declares]
    · simp [Env.set_of_ne hx, hx, fillCode, Stmt.declaresAll, Stmt.declares]
  · rw [Hoisted.moved, execAll_append, h.run, Option.bind_some, Env.set_overlay, hfactors]
    exact hfill _
  · rw [Hoisted.moved, map_append, execAll_append, h.bare, Option.bind_some,
      Env.set_overlay, hfactors]
    exact hfill none
  -- of the products that are left, one is new and the others are as before
  all_goals
    rw [Hoisted.moved, hfactors] at hfs
    rcases lookup_cons_eq_some hfs with ⟨hslot, rfl⟩ | hfs
  · refine forall_mem_append.2 ⟨fun f hf u hu c _ => ?_, forall_mem_singleton.2 ?_⟩
    · exact ne_temporary (nest.isTemporary_of_factor hnest hterm f (mem_of_mem_filter hf) u hu) c
    · refine Expr.fits_access.2 ⟨fun c hc heq => ?_, forall_mem_singleton.2 (Expr.fits_symbol.2
        fun c _ => ne_temporary (hnest.loops _ (by simp)) c)⟩
      rw [← temporary_injective heq] at hc
      exact Nat.not_succ_le_self _ hc
  · exact fun f hf u hu c hc => h.uses _ _ hfs f hf u hu c (Nat.le_of_succ_le hc)
  · exact fixedOf_moving _ _ _ _
  · exact h.few _ _ hfs
  · -- the moving factors keep their values, and the array has that of the others
    rw [nest.factors_eq_of_slot hnest hq hp hslot] at hx
    obtain ⟨y, z, hy, hz, rfl⟩ := hx.filter (Expr.moves nest.inner)
    obtain rfl := hz.unique (nest.multiplies_column hnest hreads hterm hk hσ)
    refine Multiplies.append ?_
      (multiplies_temporary hnest hk hσ (h.names _ (hnest.loops _ (by simp))))
    exact hy.congr fun f hf => Expr.eval_congr I fun u hu => by
      have hname := nest.isTemporary_of_factor hnest hterm f (mem_of_mem_filter hf) u hu
      dsimp only
      rw [hother _ (ne_temporary hname _), Env.overlay_of_none (h.names _ hname)]
  · exact (h.left q hq fs hfs k hk σ hσ x hx).congr fun f hf => Expr.eval_congr I fun u hu =>
      hother _ (h.uses _ _ hfs f hf u hu _ (Nat.le_refl _)) _ σ

/-- All steps keep the products. -/
lemma exists_keeps (hnest : nest.WellFormed) (hreads : nest.Reads I env) {us : List Update}
    (hus : us.Perm (nest.terms.zipIdx.map (Term.update nest.array))) {body : List Stmt}
    {t : Hoisted}
    (h : us.foldlM (hoistUpdate ⟨.symbol nest.outer, .int (.int 0), .int (.int nest.rows),
      .symbol nest.inner, body⟩) {} = .ok t) : ∃ top, t.Keeps I nest env top := by
  refine (foldlM_induction (fun done => done.Ready nest.inner ∧ ∃ top, done.Keeps I nest env top)
    ⟨fun slot fs hfs => by simp at hfs, fun _ => none, ⟨fun _ _ => rfl, fun _ _ => rfl,
      fun x => by simp [Stmt.declaresAll], rfl, rfl, by simp, by simp, by simp⟩⟩ ?_ h).2
  rintro done u t hu ⟨hready, top, hkeeps⟩ hstep
  obtain ⟨p, hp, rfl⟩ := mem_map.1 (hus.mem_iff.1 hu)
  have hdecided : ∀ f ∈ (Term.update nest.array p).factors, f.Decided nest.inner :=
    nest.decided hnest (fst_mem_of_mem_zipIdx hp)
  obtain ⟨t', ht', hready'⟩ := hready.hoistUpdate (j := nest.outer) (n := nest.rows) hdecided
  obtain rfl := Except.ok.inj (ht'.symm.trans hstep)
  obtain ⟨type, htype⟩ := exists_hoistUpdate nest.outer nest.rows body (hready.factors hdecided)
  obtain rfl := Except.ok.inj (htype.symm.trans hstep)
  refine ⟨hready', ?_⟩
  split
  · next hfew => exact ⟨top, hkeeps.stay hnest hp hfew⟩
  · next hmany => exact ⟨_, hkeeps.move hnest hreads hp (Nat.lt_of_not_le hmany) type⟩

end Hoisting

/-! ## Sections -/

namespace ProductNest

variable {nest : ProductNest} {env env' : Env R}

lemma changes_innerLoop (nest : ProductNest) : Changes I nest.array.name [nest.innerLoop] :=
  (changes_bodies nest.array nest.groups).loop (declaresAll_bodies _ _)

omit [CommRing R] in
lemma Inside.of_steps {k : Nat} {l : Int} {σ τ : Env R}
    (hσ : (env.set nest.outer.name (.index k)).SameBut [nest.array.name] σ)
    (hτ : (σ.set nest.inner.name (.index l)).SameBut [nest.array.name] τ) :
    nest.Inside env k τ := by
  intro x hx
  obtain ⟨harray, hinner⟩ : x ≠ nest.array.name ∧ x ≠ nest.inner.name := by simpa using hx
  rw [hτ x (by simpa using harray), Env.set_of_ne hinner, hσ x (by simpa using harray)]

/-- A nest that runs reads the fixed factors at each step of the outer loop. -/
lemma reads_of_exec (hnest : nest.WellFormed) (hcolumns : 0 < nest.columns)
    (h : nest.stmt.exec I env = some env') : nest.Reads I env := by
  intro k hk t ht f hf
  obtain ⟨σ, σ', hσ, hrow⟩ := nest.changes_innerLoop.reaches rfl h hk
  rw [execAll_singleton] at hrow
  obtain ⟨τ, τ', hτ, hterms⟩ :=
    (changes_bodies nest.array nest.groups).reaches (declaresAll_bodies _ _) hrow hcolumns
  rw [execAll_bodies] at hterms
  obtain ⟨x, hx⟩ :=
    multiplies_of_execAll (fun t ht f hf => (hnest.factors t ht f hf).2.2) hterms t ht
  have hsome := hx.1 f (mem_of_mem_filter hf)
  rwa [Expr.number, nest.eval_fixed hnest ht (Inside.of_steps hσ hτ) f hf] at hsome

/-- A nest with the factors that are left does the same over the temporary arrays. -/
lemma exec_overlay (hnest : nest.WellFormed) {t : Hoisted} {top : Env R}
    (hkeeps : t.Keeps I nest env top)
    {groups : List (List Term)}
    (hgroups : groups.flatten = nest.terms.zipIdx.map (Term.rest t.left))
    (h : nest.stmt.exec I env = some env') :
    { nest with groups }.stmt.exec I (top.overlay env) = some (top.overlay env') := by
  have htop : ∀ x ∈ [nest.outer.name, nest.inner.name, nest.array.name], top x = none :=
    fun x hx => hkeeps.names x (hnest.loops x hx)
  refine nest.changes_innerLoop.exec_overlay rfl rfl (htop _ (by simp))
    (fun k hk σ σ' hσ hrow => ?_) h
  rw [execAll_singleton] at hrow ⊢
  refine (changes_bodies nest.array nest.groups).exec_overlay (declaresAll_bodies _ _)
    (declaresAll_bodies _ _) (htop _ (by simp)) (fun l _ τ τ' hτ hterms => ?_) hrow
  rw [execAll_bodies] at hterms ⊢
  have hfst : nest.groups.flatten = nest.terms.zipIdx.map (·.1) := (zipIdx_map_fst ..).symm
  rw [hfst, map_map] at hterms
  rw [hgroups, map_map]
  refine execAll_overlay (P := nest.Inside env k) (htop _ (by simp))
    (fun hσ o => hσ.trans (Env.sameBut_set mem_cons_self _ o)) ?_ ?_ (Inside.of_steps hσ hτ) hterms
  · exact fun p hp e he u hu =>
      hkeeps.names _ (nest.isTemporary_of_index hnest (fst_mem_of_mem_zipIdx hp) e he u hu)
  · intro p hp ρ hρ x hx
    cases hlookup : t.left.lookup (Term.slot p) with
    | none =>
      rw [Term.rest, hlookup]
      exact hkeeps.overlay hnest (fst_mem_of_mem_zipIdx hp) (fun f hf => hf) hx
    | some fs =>
      rw [Term.rest, hlookup]
      exact hkeeps.left p hp fs hlookup k hk ρ hρ x hx

end ProductNest

lemma exec_part (tag : Tag) (name : String) (body : List Stmt) (input output : List Symbol)
    (annotations : List Annotation) (env : Env R) :
    (Stmt.part tag name body [] input output annotations).exec I env =
      (Stmt.execAll I body env).map fun after => after.leave (Stmt.declaresAll body) env := by
  simp only [Stmt.exec, execAll_nil, Option.bind_eq_bind, Option.bind_some, Option.pure_def,
    Option.map_eq_bind, Function.comp_def]

lemma declaresAll_map_bare (body : List Stmt) :
    Stmt.declaresAll (body.map Stmt.bare) = Stmt.declaresAll body := by
  induction body with
  | nil => rfl
  | cons s ss ih => cases s <;> simp [Stmt.bare, Stmt.declaresAll, Stmt.declares, ih]

/-- After the section the temporary arrays are gone. -/
lemma Hoisted.Keeps.leave {nest : ProductNest} {t : Hoisted} {env env' top : Env R}
    (hnest : nest.WellFormed) (h : t.Keeps I nest env top)
    (hsame : env.SameBut [nest.array.name] env') :
    (top.overlay env').leave (Stmt.declaresAll t.code) env = env' := by
  funext x
  by_cases hx : (top x).isSome
  · have harray : x ≠ nest.array.name := by
      rintro rfl
      rw [h.names _ (hnest.loops _ (by simp))] at hx
      cases hx
    rw [Env.leave, if_pos ((h.declares x).2 hx), hsame x (by simpa using harray)]
  · rw [Env.leave, if_neg fun hmem => hx ((h.declares x).1 hmem),
      Env.overlay_of_none (by simpa using hx)]

/-- A section with a nest of two loops around additions of products does the same after hoisting,
    also if the hoisted arrays start without values; and a section with another nest is left as it
    is. -/
theorem exec_hoist (I : Interpretation R) (tag : Tag) (name : String) (input output : List Symbol)
    (annotations : List Annotation) (hlicm : annotations.contains .licm = true) :
    (∀ nest : ProductNest, nest.WellFormed → ∃ body,
      hoist (.part tag name [nest.stmt] [] input output annotations) =
        .ok (.part tag name body [] input output annotations) ∧
      ∀ env env' : Env R, 0 < nest.columns ∨ nest.Reads I env →
        (Stmt.part tag name [nest.stmt] [] input output annotations).exec I env = some env' →
          (Stmt.part tag name body [] input output annotations).exec I env = some env' ∧
          (Stmt.part tag name (body.map Stmt.bare) [] input output annotations).exec I env =
            some env') ∧
    ∀ (first : Stmt) (rest declarations : List Stmt) (d : Nat), first.depth = .ok d → d ≠ 2 →
      hoist (.part tag name (first :: rest) declarations input output annotations) =
        .ok (.part tag name (first :: rest) declarations input output annotations) := by
  constructor
  · intro nest hnest
    obtain ⟨us, t, groups, body, hus, hfold, hgroups, hhoist⟩ :=
      exists_hoist hnest tag name input output hlicm
    refine ⟨_, hhoist, fun env env' hreads h => ?_⟩
    rw [exec_part, execAll_singleton] at h
    obtain ⟨after, hafter, hleave⟩ := Option.map_eq_some_iff.1 h
    obtain rfl : after = env' := (Env.leave_nil after env).symm.trans hleave
    have hreads : nest.Reads I env :=
      hreads.elim (fun hpos => nest.reads_of_exec hnest hpos hafter) id
    obtain ⟨top, hkeeps⟩ := exists_keeps hnest hreads hus hfold
    have hover := nest.exec_overlay hnest hkeeps hgroups hafter
    have hsame : env.SameBut [nest.array.name] after :=
      nest.changes_innerLoop.loop rfl env after (by rw [execAll_singleton]; exact hafter)
    have hdeclares : Stmt.declaresAll (t.code ++ [{ nest with groups }.stmt]) =
        Stmt.declaresAll t.code := by
      rw [declaresAll_append]
      exact List.append_nil _
    constructor
    · rw [exec_part, execAll_append, hkeeps.run, Option.bind_some, execAll_singleton, hover,
        Option.map_some, hdeclares, hkeeps.leave hnest hsame]
    · rw [exec_part, declaresAll_map_bare, List.map_append, execAll_append, hkeeps.bare,
        Option.bind_some, List.map_singleton]
      refine (congrArg (Option.map _) ((execAll_singleton I _ _).trans hover)).trans ?_
      rw [Option.map_some, hdeclares, hkeeps.leave hnest hsame]
  · intro first rest declarations d hdepth hd
    refine bind_eq_ok.2 ⟨(_, []), bind_eq_ok.2 ⟨(), require_eq_ok.2 hlicm,
      bind_eq_ok.2 ⟨d, hdepth, if_pos (by simpa using hd)⟩⟩, rfl⟩

/-- A section with the given body. -/
def tensorPart (body : List Stmt) : Stmt := .part 0 "Tensor Computation" body [] [] [] [.licm]

/-- Additions of a product with repeated factors, and of one that is shared and fixed as a whole. -/
def sampleNest : ProductNest where
  outer := ⟨"j", some .int⟩
  inner := ⟨"i", some .int⟩
  array := ⟨"A", some .scalar⟩
  rows := 2
  columns := 2
  groups :=
    let i : Expr := .symbol ⟨"i", some .int⟩
    let j : Expr := .symbol ⟨"j", some .int⟩
    let w : Expr := .symbol ⟨"w", some .scalar⟩
    let table (k : Expr) : Expr := .access ⟨"FE", some .real⟩ [k]
    [[⟨[.nary .sum 0 .int [.nary .product 0 .int [.int (.int 2), j], i]], 0, .scalar,
      [w, table i, w, table j]⟩],
      [⟨[i], 1, .scalar, [w, table j, .int (.int 2)]⟩,
        ⟨[j], 1, .scalar, [w, table j, .int (.int 2)]⟩]]

/-- Zeros to add to, a factor of three and a table of ones and twos. -/
def sampleEnv : Env ℚ := fun
  | "A" =>
    some (.numbers (isWithin [4]) fun is => if isWithin [4] is then some (.number 0) else none)
  | "FE" => some (.numbers (isWithin [2]) fun
    | [0] => some (.number 1)
    | [1] => some (.number 2)
    | _ => none)
  | "w" => some (.scalar (.number 3))
  | _ => none

lemma wellFormed_sampleNest : sampleNest.WellFormed where
  nonempty := ⟨by simp [sampleNest], by simp [sampleNest]⟩
  names := by decide
  loops := by decide
  uses := by decide +kernel
  factors := by decide +kernel
  shared := by
    simp [ProductNest.terms, sampleNest]

theorem exec_hoist_sampleNest : sampleNest.WellFormed ∧ ∃ body env',
    hoist (tensorPart [sampleNest.stmt]) = .ok (tensorPart body) ∧
    (tensorPart [sampleNest.stmt]).exec Form.rational.toInterpretation sampleEnv = some env' ∧
    (tensorPart body).exec Form.rational.toInterpretation sampleEnv = some env' ∧
    (tensorPart (body.map Stmt.bare)).exec Form.rational.toInterpretation sampleEnv = some env' ∧
    (env'.number? "A" [3]).bind Datum.number? = some 36 := by
  have hvalue : ((tensorPart [sampleNest.stmt]).exec Form.rational.toInterpretation sampleEnv).bind
      (fun env' => (env'.number? "A" [3]).bind Datum.number?) = some 36 := by decide +kernel
  obtain ⟨env', hrun, hentry⟩ := Option.bind_eq_some_iff.1 hvalue
  obtain ⟨body, hbody, hexec⟩ :=
    (exec_hoist Form.rational.toInterpretation 0 "Tensor Computation" [] []
    [.licm] rfl).1 sampleNest wellFormed_sampleNest
  obtain ⟨hsame, hbare⟩ := hexec sampleEnv env' (.inl (by decide)) hrun
  exact ⟨wellFormed_sampleNest, body, env', hbody, hrun, hsame, hbare, hentry⟩

/-- An addition of the inner index times a factor. -/
def indexNest : ProductNest where
  outer := ⟨"j", some .int⟩
  inner := ⟨"i", some .int⟩
  array := ⟨"A", some .scalar⟩
  rows := 2
  columns := 2
  groups :=
  [[⟨[.symbol ⟨"i", some .int⟩], 0, .scalar,
    [.symbol ⟨"i", some .int⟩, .symbol ⟨"w", some .scalar⟩]⟩]]

/-- The inner index itself is taken for a fixed factor: what is hoisted reads it where it is not
    declared. -/
theorem hoist_misses_index : ∃ body, hoist (tensorPart [indexNest.stmt]) = .ok (tensorPart body) ∧
    ((tensorPart [indexNest.stmt]).exec Form.rational.toInterpretation sampleEnv).isSome ∧
    (tensorPart body).exec Form.rational.toInterpretation sampleEnv = none := by
  refine ⟨_, rfl, by decide +kernel, ?_⟩
  rw [← Option.isNone_iff_eq_none]
  decide +kernel

/-! ## Dependence on an index -/

lemma Expr.same_of_avoids {e : Expr} {i : Symbol}
    (h : e.Avoids i.name) : e.same (.symbol i) = false := by
  cases e with
  | symbol s => simpa [same, equal, Symbol.same] using fits_symbol.1 h
  | _ => rfl

lemma moves_of_avoids {f : Expr} {i : Symbol} (h : f.isFactor i.name = true)
    (havoids : f.Avoids i.name) : f.moves i = false := by
  cases f with
  | access s indices =>
    refine any_eq_false.2 fun e he => Bool.eq_false_iff.1 (Bool.or_eq_false_iff.2 ?_)
    have he := (Expr.fits_access.1 havoids).2 e he
    refine ⟨Expr.same_of_avoids he, ?_⟩
    split
    · exact any_eq_false.2 fun a ha => by simp [Expr.same_of_avoids (Expr.fits_nary.1 he a ha)]
    · rfl
  | _ => first | rfl | simp [Expr.isFactor, Expr.isLiteral] at h

/-- For an expression that mentions an index as a whole index of an access or as an operand of a sum
    or product there, if at all, it is found out whether it depends on the index: if not, its value
    is the same for all values of the index. -/
theorem dependsOn_exact (I : Interpretation R) {e : Expr} {i : Symbol}
    (h : e.isFactor i.name = true) :
    ∃ depends, e.dependsOn (·.same (.symbol i)) = .ok depends ∧
      (depends = false ↔ e.Avoids i.name) ∧
      (depends = false → ∀ env env' : Env R, env.SameBut [i.name] env' →
        e.eval I env' = e.eval I env) := by
  refine ⟨e.moves i, dependsOn_eq h, ⟨avoids_of_moves h, moves_of_avoids h⟩,
    fun hmoves env env' hsame => ?_⟩
  exact Expr.eval_congr I fun u hu => hsame u.1 (by simpa using avoids_of_moves h hmoves u hu)

def tableAt (index : Expr) : Expr := .access ⟨"FE", some .real⟩ [index]

/-- A table that is read at twice an outer index, in a loop over an inner one. -/
theorem dependsOn_exact_table :
    let e := tableAt (.binary .mul (.int (.int 2)) (.symbol ⟨"j", some .int⟩))
    e.isFactor "i" = true ∧ e.dependsOn (·.same (.symbol ⟨"i", some .int⟩)) = .ok false ∧
      ∀ env env' : Env ℚ, env.SameBut ["i"] env' →
        e.eval Form.rational.toInterpretation env' = e.eval Form.rational.toInterpretation env := by
  intro e
  obtain ⟨_, hdepends, -, hsame⟩ :=
    dependsOn_exact Form.rational.toInterpretation (e := e) (i := ⟨"i", some .int⟩) (by decide)
  obtain rfl : false = _ := Except.ok.inj hdepends
  exact ⟨by decide, rfl, hsame rfl⟩

/-- Neither the index itself nor twice the index in an access is found to depend on the index. -/
theorem dependsOn_misses_index :
    let i : Expr := .symbol ⟨"i", some .int⟩
    ∀ e ∈ [i, tableAt (.binary .mul (.int (.int 2)) i)], e.dependsOn (·.same i) = .ok false ∧
      ∃ env env' : Env ℚ, env.SameBut ["i"] env' ∧
        e.eval Form.rational.toInterpretation env' ≠ e.eval Form.rational.toInterpretation env := by
  have hsame := Env.sameBut_set (mem_singleton_self "i") (sampleEnv.set "i" (.index 0)) (.index 1)
  refine forall_mem_cons.2
    ⟨⟨rfl, _, _, hsame, ?_⟩, forall_mem_singleton.2 ⟨rfl, _, _, hsame, ?_⟩⟩ <;>
    exact mt (congrArg (·.bind Datum.number?)) (by decide +kernel)

end FormKernel.Kernel
