import FormKernel.Proofs.Form.Value
import FormKernel.Proofs.Kernel.Index
import FormKernel.Proofs.Kernel.Scopes
import FormKernel.Proofs.Kernel.Uses

/-!
# Execution of kernels

A kernel runs over a commutative ring.  Every visible name stands for a loop index, an array of
whole numbers or an array of values; a variable is an array without indices.  Reading a name that is
not declared, an entry that an array does not have or one that is not set gets stuck, and so does
everything that kernels do not do, such as a statement that is no assignment.

The body of a loop and of a section is a scope: at its end every name that was declared in it stands
for what it stood for before.
-/

namespace FormKernel.Kernel

open Form (Datum Interpretation)

variable {R : Type}

/-! ## Environments -/

/-- What a name stands for. -/
inductive Object (R : Type) where
  /-- The index of a loop. -/
  | index (n : Int)
  /-- An array of whole numbers. -/
  | wholes (item : List Int → Option Int)
  /-- A variable or an array of values: the entries it has, and what is in those that are set. -/
  | numbers (has : List Int → Bool) (item : List Int → Option (Datum R))

/-- What the visible names stand for. -/
abbrev Env (R : Type) := String → Option (Object R)

namespace Env

/-- The whole numbers among what names stand for. -/
def wholes (env : Env R) : Wholes where
  symbol x := match env x with
    | some (.index n) => some n
    | _ => none
  item x is := match env x with
    | some (.wholes f) => f is
    | _ => none

/-- Lets a name stand for an object. -/
def set (env : Env R) (x : String) (o : Object R) : Env R := Function.update env x (some o)

/-- Sets an entry of an array of values. -/
def put (env : Env R) (x : String) (is : List Int) (d : Datum R) : Option (Env R) :=
  match env x with
  | some (.numbers has item) =>
    if has is then some (env.set x (.numbers has (Function.update item is (some d)))) else none
  | _ => none

/-- The end of a scope in which names were declared, which started with `before`. -/
def leave (after : Env R) (names : List String) (before : Env R) : Env R :=
  fun x => if x ∈ names then before x else after x

@[simp] lemma set_self (env : Env R) (x : String) (o : Object R) : env.set x o x = some o :=
  Function.update_self ..

lemma set_of_ne {x y : String} (h : y ≠ x) (env : Env R) (o : Object R) : env.set x o y = env y :=
  Function.update_of_ne h ..

lemma leave_nil (after before : Env R) : after.leave [] before = after := by
  funext x
  simp [leave]

/-- Environments that agree on all names but some. -/
def SameBut (names : List String) (env env' : Env R) : Prop := ∀ x ∉ names, env' x = env x

lemma SameBut.refl (names : List String) (env : Env R) : env.SameBut names env := fun _ _ => rfl

lemma SameBut.trans {names : List String} {env₁ env₂ env₃ : Env R} (h : env₁.SameBut names env₂)
    (h' : env₂.SameBut names env₃) : env₁.SameBut names env₃ :=
  fun x hx => (h' x hx).trans (h x hx)

lemma SameBut.set {names : List String} {env env' : Env R} (h : env.SameBut names env') (x : String)
    (o : Object R) : (env.set x o).SameBut names (env'.set x o) := by
  intro y hy
  by_cases hyx : y = x
  · rw [hyx, set_self, set_self]
  · rw [set_of_ne hyx, set_of_ne hyx, h y hy]

lemma sameBut_set {names : List String} {x : String} (hx : x ∈ names) (env : Env R) (o : Object R) :
    env.SameBut names (env.set x o) :=
  fun y hy => set_of_ne (fun h : y = x => hy (h ▸ hx)) env o

end Env

/-! ## Expressions -/

def BinaryOp.comparison : BinaryOp → Form.Operator
  | .ne => .ne
  | .lt => .lt
  | .gt => .gt
  | .le => .le
  | .ge => .ge
  | _ => .eq

section Evaluation

variable [CommRing R] (I : Interpretation R)

/-- The entry of an array of values, or the number of a loop index. -/
def Env.number? (env : Env R) (x : String) (is : List Int) : Option (Datum R) :=
  match env x with
  | some (.numbers _ item) => item is
  | some (.index n) => if is = [] then some (.number n) else none
  | _ => none

def BinaryOp.apply : BinaryOp → Datum R → Datum R → Option (Datum R)
  | .add, .number x, .number y => some (.number (x + y))
  | .sub, .number x, .number y => some (.number (x - y))
  | .mul, .number x, .number y => some (.number (x * y))
  | .div, .number x, .number y => some (.number (I.divide x y))
  | .and, .truth a, .truth b => some (.truth (a && b))
  | .or, .truth a, .truth b => some (.truth (a || b))
  | op, .number x, .number y => some (.truth (I.compare op.comparison x y))
  | _, _, _ => none

mutual

def Expr.eval (env : Env R) : Expr → Option (Datum R)
  | .float x => some (.number (I.float x))
  | .complex re im => some (.number (I.complex re im))
  | .int (.int n) => some (.number n)
  | .symbol s => env.number? s.name []
  | .neg a => do return .number (-(← (← a.eval env).number?))
  | .not a => do return .truth (!(← (← a.eval env).truth?))
  | .binary op a b => do op.apply I (← a.eval env) (← b.eval env)
  | .nary .sum _ _ args => do return .number (← Expr.numbers env args).sum
  | .nary .product _ _ args => do return .number (← Expr.numbers env args).prod
  | .call f args => do return .number (I.call f (← Expr.numbers env args))
  | .access s indices => do env.number? s.name (← Expr.wholes env.wholes indices)
  | .conditional c a b => do
    let c ← (← c.eval env).truth?
    let a ← a.eval env
    let b ← b.eval env
    return if c then a else b
  | _ => none

def Expr.numbers (env : Env R) : List Expr → Option (List R)
  | [] => some []
  | e :: es => do return (← (← e.eval env).number?) :: (← Expr.numbers env es)

end

/-- What an assignment makes of an old and a given value. -/
def AssignOp.apply : AssignOp → Option (Datum R) → Datum R → Option (Datum R)
  | .set, _, new => some new
  | .add, some (.number x), .number y => some (.number (x + y))
  | .sub, some (.number x), .number y => some (.number (x - y))
  | .mul, some (.number x), .number y => some (.number (x * y))
  | .div, some (.number x), .number y => some (.number (I.divide x y))
  | _, _, _ => none

/-- The name and indices that an assignment sets. -/
def Expr.place (env : Env R) : Expr → Option (String × List Int)
  | .symbol s => some (s.name, [])
  | .access s indices => do return (s.name, ← Expr.wholes env.wholes indices)
  | _ => none

/-- Sets a declared variable or an entry of a declared array. -/
def Env.assign (env : Env R) (op : AssignOp) (target value : Expr) : Option (Env R) := do
  let (x, is) ← target.place env
  env.put x is (← op.apply I (env.number? x is) (← value.eval I env))

end Evaluation

/-! ## Names in expressions -/

section Congruence

variable {env env' : Env R}

/-- Environments in which the names of an expression stand for the same. -/
abbrev Expr.Agree (env env' : Env R) (e : Expr) : Prop := e.Fits fun x _ => env x = env' x

mutual

/-- An index has the same value where the names in it stand for the same. -/
theorem Expr.whole_congr : ∀ {e : Expr}, e.Agree env env' → e.whole env.wholes = e.whole env'.wholes
  | .symbol s, h => by simp only [whole, Env.wholes, fits_symbol.1 h]
  | .multiIndex _ _ _ flat, h => Expr.whole_congr (e := flat) h
  | .neg a, h => by rw [whole, whole, Expr.whole_congr (fits_neg.1 h)]
  | .binary op a b, h => by
    obtain ⟨ha, hb⟩ := fits_binary.1 h
    cases op <;> simp only [whole, Expr.whole_congr ha, Expr.whole_congr hb]
  | .nary op _ _ args, h => by
    cases op <;> rw [whole, whole, Expr.wholes_congr (fits_nary.1 h)]
  | .access s indices, h => by
    obtain ⟨hs, hindices⟩ := fits_access.1 h
    rw [whole, whole, Expr.wholes_congr hindices]
    simp only [Env.wholes, hs]
  | .int _, _ | .float _, _ | .nan _, _ | .complex .., _ | .not _, _ | .call .., _
  | .conditional .., _ | .assign .., _ => rfl

theorem Expr.wholes_congr : ∀ {l : List Expr}, (∀ e ∈ l, e.Agree env env') →
    Expr.wholes env.wholes l = Expr.wholes env'.wholes l
  | [], _ => rfl
  | e :: es, h => by
    rw [List.forall_mem_cons] at h
    rw [wholes, wholes, Expr.whole_congr h.1, Expr.wholes_congr h.2]

end

variable [CommRing R] (I : Interpretation R)

lemma Env.number?_congr {x : String} (h : env x = env' x) (is : List Int) :
    env.number? x is = env'.number? x is := by
  simp only [number?, h]

mutual

/-- An expression has the same value where the names in it stand for the same. -/
theorem Expr.eval_congr : ∀ {e : Expr}, e.Agree env env' → e.eval I env = e.eval I env'
  | .symbol s, h => Env.number?_congr (fits_symbol.1 h) []
  | .neg a, h | .not a, h => by rw [eval, eval, Expr.eval_congr (e := a) h]
  | .binary op a b, h => by
    obtain ⟨ha, hb⟩ := fits_binary.1 h
    rw [eval, eval, Expr.eval_congr ha, Expr.eval_congr hb]
  | .nary op _ _ args, h => by
    cases op <;> rw [eval, eval, Expr.numbers_congr (fits_nary.1 h)]
  | .call _ args, h => by rw [eval, eval, Expr.numbers_congr (l := args) (forall_usesAll.1 h)]
  | .access s indices, h => by
    obtain ⟨hs, hindices⟩ := fits_access.1 h
    simp only [eval, Expr.wholes_congr hindices, Env.number?_congr hs]
  | .conditional c a b, h => by
    obtain ⟨⟨hc, ha⟩, hb⟩ : (c.Agree env env' ∧ a.Agree env env') ∧ b.Agree env env' := by
      simpa only [Expr.Agree, Fits, uses, List.forall_mem_append] using h
    rw [eval, eval, Expr.eval_congr hc, Expr.eval_congr ha, Expr.eval_congr hb]
  | .int n, _ => by cases n <;> rfl
  | .float _, _ | .nan _, _ | .complex .., _ | .multiIndex .., _ | .assign .., _ => rfl

theorem Expr.numbers_congr : ∀ {l : List Expr}, (∀ e ∈ l, e.Agree env env') →
    Expr.numbers I env l = Expr.numbers I env' l
  | [], _ => rfl
  | e :: es, h => by
    rw [List.forall_mem_cons] at h
    rw [numbers, numbers, Expr.eval_congr h.1, Expr.numbers_congr h.2]

end

/-- An assignment to an entry sets its array and nothing else.  What it makes of the array depends
    on the array, on the place and on the value. -/
lemma assign_access {op : AssignOp} {s : Symbol} {indices : List Expr} {value : Expr}
    {after : Env R}
    (h : env.assign I op (.access s indices) value = some after) : (value.eval I env).isSome ∧
      ∃ o, after = env.set s.name o ∧ ∀ {env' : Env R} {value' : Expr},
        Expr.wholes env'.wholes indices = Expr.wholes env.wholes indices →
          env' s.name = env s.name → value'.eval I env' = value.eval I env →
            env'.assign I op (.access s indices) value' = some (env'.set s.name o) := by
  obtain ⟨⟨x, is⟩, hplace, h⟩ := Option.bind_eq_some_iff.1 h
  obtain ⟨ks, hks, hplace⟩ := Option.bind_eq_some_iff.1 hplace
  obtain ⟨rfl, rfl⟩ := Prod.mk.inj (Option.some.inj hplace)
  obtain ⟨d, hd, h⟩ := Option.bind_eq_some_iff.1 h
  obtain ⟨new, hnew, h⟩ := Option.bind_eq_some_iff.1 h
  unfold Env.put at h
  split at h
  · next has item harray =>
    split at h
    · next hhas =>
      refine ⟨by rw [hd]; rfl, _, (Option.some.inj h).symm,
        fun {env' value'} hindices hsame hvalue => ?_⟩
      have hold : env'.number? s.name ks = env.number? s.name ks := Env.number?_congr hsame ks
      simp only [Env.assign, Expr.place, hindices, hks, hvalue, hd, hold, hnew, Option.bind_eq_bind,
        Option.bind_some, Option.pure_def, Env.put, hsame, harray, if_pos hhas]
    · exact absurd h (by simp)
  · exact absurd h (by simp)

end Congruence

/-! ## Statements -/

/-- Repeats a step for `n` successive indices. -/
def runLoop {σ : Type} (step : Int → σ → Option σ) : Nat → Int → σ → Option σ
  | 0, _, s => some s
  | n + 1, k, s => do runLoop step n (k + 1) (← step k s)

/-- The states that a loop goes through. -/
lemma runLoop_eq_some {σ : Type} {step : Int → σ → Option σ} {n : Nat} {start : Int} {s t : σ} :
    runLoop step n start s = some t ↔ ∃ state : Nat → σ, state 0 = s ∧ state n = t ∧
      ∀ k < n, step (start + k) (state k) = some (state (k + 1)) := by
  induction n generalizing start s with
  | zero => exact ⟨fun h =>
    ⟨fun _ => s, rfl, Option.some.inj h, by simp⟩, by rintro ⟨state, rfl, rfl, -⟩; rfl⟩
  | succ n ih =>
    have hnext : ∀ k : Nat, start + 1 + k = start + (k + 1 : Nat) := fun k => by push_cast; omega
    constructor
    · intro h
      obtain ⟨u, hu, h⟩ := Option.bind_eq_some_iff.1 h
      obtain ⟨state, rfl, rfl, hstep⟩ := ih.1 h
      refine ⟨fun k => k.casesOn s state, rfl, rfl, fun k hk => ?_⟩
      cases k with
      | zero => simpa using hu
      | succ k => exact hnext k ▸ hstep k (Nat.lt_of_succ_lt_succ hk)
    · rintro ⟨state, rfl, rfl, hstep⟩
      refine Option.bind_eq_some_iff.2 ⟨state 1, by simpa using hstep 0 (Nat.succ_pos n), ih.2
        ⟨fun k => state (k + 1), rfl, rfl, fun k hk => ?_⟩⟩
      exact hnext k ▸ hstep (k + 1) (Nat.succ_lt_succ hk)

section Execution

variable [CommRing R] (I : Interpretation R)

/-- The number that an entry of initial values stands for. -/
def Entry.value : Entry → Option R
  | .double x => some (I.float x)
  | .int n => some n
  | _ => none

def Object.scalar (d : Datum R) : Object R :=
  .numbers (fun is => is = []) fun is => if is = [] then some d else none

/-- Whether an index lies within sizes. -/
def isWithin (sizes is : List Int) : Bool :=
  is.length = sizes.length ∧ ∀ p ∈ is.zip sizes, 0 ≤ p.1 ∧ p.1 < p.2

/-- The first entries of an array with the given sizes.  Where there are initial values, the other
    entries are zero; else no entry is set. -/
def firstEntry (sizes : List Int) (values : Option Values) (is : List Int) : Option (Datum R) :=
  if isWithin sizes is then values.bind fun v =>
    match v.at? is with
    | some x => (Entry.value I x).map .number
    | none => some (.number 0)
  else none

def Object.array (sizes : List Int) (values : Option Values) : Object R :=
  .numbers (isWithin sizes) (firstEntry I sizes values)

mutual

/-- What a statement makes of an environment. -/
def Stmt.exec : Stmt → Env R → Option (Env R)
  | .expr (.assign op target value), env => env.assign I op target value
  | .list body, env => Stmt.execAll body env
  | .comment _, env => some env
  | .variableDecl _ s (some e), env => do return env.set s.name (.scalar (← e.eval I env))
  | .arrayDecl _ s sizes values _, env => some (env.set s.name (.array I sizes values))
  | .loop (.symbol i) lower upper body, env => do
    let lower ← lower.whole env.wholes
    let upper ← upper.whole env.wholes
    runLoop (fun k env => do
      let after ← Stmt.execAll body (env.set i.name (.index k))
      return after.leave (i.name :: Stmt.declaresAll body) env) (upper - lower).toNat lower env
  | .part _ _ body declarations _ _ _, env => do
    let env ← Stmt.execAll declarations env
    let after ← Stmt.execAll body env
    return after.leave (Stmt.declaresAll body) env
  | _, _ => none

/-- What statements make of an environment, one after the other. -/
def Stmt.execAll : List Stmt → Env R → Option (Env R)
  | [], env => some env
  | s :: ss, env => do Stmt.execAll ss (← Stmt.exec s env)

end

@[simp] lemma execAll_nil (env : Env R) : Stmt.execAll I [] env = some env := rfl

lemma execAll_cons (s : Stmt) (ss : List Stmt) (env : Env R) :
    Stmt.execAll I (s :: ss) env = (s.exec I env).bind (Stmt.execAll I ss) := rfl

@[simp] lemma execAll_singleton (s : Stmt)
    (env : Env R) : Stmt.execAll I [s] env = s.exec I env := by
  rw [execAll_cons]
  exact Option.bind_fun_some _

lemma execAll_append (xs ys : List Stmt) (env : Env R) :
    Stmt.execAll I (xs ++ ys) env = (Stmt.execAll I xs env).bind (Stmt.execAll I ys) := by
  induction xs generalizing env with
  | nil => rfl
  | cons s ss ih =>
    rw [List.cons_append, execAll_cons, execAll_cons, Option.bind_assoc]
    exact congrArg _ (funext ih)

/-- The states that a loop goes through whose body declares nothing. -/
lemma exec_loop {i : Symbol} {n : Nat} {body : List Stmt} {env env' : Env R}
    (hbody : Stmt.declaresAll body = []) :
    (Stmt.loop (.symbol i) (.int (.int 0)) (.int (.int n)) body).exec I env = some env' ↔
      ∃ state : Nat → Env R, state 0 = env ∧ state n = env' ∧ ∀ k < n, ∃ after,
        Stmt.execAll I body ((state k).set i.name (.index k)) = some after ∧
          after.leave [i.name] (state k) = state (k + 1) := by
  rw [Stmt.exec, Expr.whole_int, Expr.whole_int]
  simp only [Option.bind_eq_bind, Option.bind_some, sub_zero, Int.toNat_natCast, hbody,
    runLoop_eq_some, zero_add, Option.bind_eq_some_iff, Option.pure_def, Option.some.injEq]

end Execution

end FormKernel.Kernel
