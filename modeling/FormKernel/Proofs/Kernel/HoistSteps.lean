import FormKernel.Proofs.Kernel.Scopes
import FormKernel.Proofs.Kernel.Uses

/-!
# Steps of hoisting

Hoisting reads the updates in a nest of two loops, takes them in groups of one target and moves, for
one after the other, the factors that do not depend on the inner index in front of the nest.  This
file says which nests have that form, what a step does and that all steps succeed.
-/

namespace FormKernel.Kernel

open List

/-! ## Temporaries and groups -/

def temporary (c : Nat) : Symbol := ⟨s!"temp_{c}", some .scalar⟩

lemma temporary_injective {c d : Nat} (h : (temporary c).name = (temporary d).name) : c = d :=
  numbered_injective "temp_" h

/-- Whether a name starts as those of temporary arrays do. -/
def isTemporary (name : String) : Bool := "temp_".toList.isPrefixOf name.toList

lemma isTemporary_temporary (c : Nat) : isTemporary (temporary c).name = true := by
  rw [isTemporary, isPrefixOf_iff_prefix]
  exact ⟨(toString c).toList, (String.toList_append ..).symm⟩

lemma ne_temporary {x : String} (h : isTemporary x = false) (c : Nat) : x ≠ (temporary c).name := by
  rintro rfl
  rw [isTemporary_temporary] at h
  cases h

lemma groupUpdates_perm (us : List Update) (groups : List (List Update)) :
    (groupUpdates us groups).flatten.Perm (groups.flatten ++ us) := by
  have hplace : ∀ (u : Update) (groups : List (List Update)),
      (groupUpdates.place u groups).flatten.Perm (groups.flatten ++ [u]) := by
    intro u groups
    induction groups with
    | nil => exact .refl _
    | cons g groups ih =>
      match g with
      | [] => exact ih
      | v :: vs =>
        rw [groupUpdates.place]
        split
        · rw [flatten_cons, flatten_cons, append_assoc, append_assoc]
          exact perm_append_comm.append_left _
        · rw [flatten_cons, flatten_cons, append_assoc]
          exact ih.append_left _
  induction us generalizing groups with
  | nil => simp [groupUpdates]
  | cons u us ih =>
    rw [groupUpdates]
    refine (ih _).trans (((hplace u groups).append_right us).trans ?_)
    rw [append_assoc, singleton_append]

/-! ## Terms -/

/-- An addition of a product to an entry of an array. -/
structure Term where
  indices : List Expr
  tag : Tag
  type : DType
  factors : List Expr

namespace Term

def expr (array : Symbol) (t : Term) : Expr :=
  .assign .add (.access array t.indices) (.nary .product t.tag t.type t.factors)

/-- The slot of a term, by its place among all terms.  Terms that share their product share a
    slot. -/
def slot (p : Term × Nat) : Nat := if p.1.tag == 0 then 2 * p.2 else 2 * p.1.tag + 1

def update (array : Symbol) (p : Term × Nat) : Update :=
  ⟨.access array p.1.indices, slot p, p.1.factors⟩

def rest (left : List (Nat × List Expr)) (p : Term × Nat) : Term :=
  { p.1 with factors := (left.lookup (slot p)).getD p.1.factors }

lemma slot_inj {p q : Term × Nat} (h : slot p = slot q) :
    p.1.tag = 0 ∧ p.2 = q.2 ∨ p.1.tag ≠ 0 ∧ p.1.tag = q.1.tag := by
  -- the slots of terms that share nothing are even and the others odd
  have heven : ∀ p : Term × Nat, p.1.tag = 0 → slot p = 2 * p.2 :=
    fun p hp => if_pos (beq_iff_eq.2 hp)
  have hodd : ∀ p : Term × Nat, p.1.tag ≠ 0 → slot p = 2 * p.1.tag + 1 := fun p hp =>
    if_neg fun heq => hp (beq_iff_eq.1 heq)
  by_cases hp : p.1.tag = 0
  · by_cases hq : q.1.tag = 0
    · rw [heven p hp, heven q hq] at h
      exact .inl ⟨hp, Nat.eq_of_mul_eq_mul_left Nat.two_pos h⟩
    · rw [heven p hp, hodd q hq] at h
      omega
  · by_cases hq : q.1.tag = 0
    · rw [hodd p hp, heven q hq] at h
      omega
    · rw [hodd p hp, hodd q hq] at h
      exact .inr ⟨hp, Nat.eq_of_mul_eq_mul_left Nat.two_pos (Nat.succ_injective h)⟩

end Term

/-- The statement that terms make up. -/
def bodyOf (array : Symbol) : List Term → Stmt
  | [t] => .expr (t.expr array)
  | ts => .list (ts.map fun t => .expr (t.expr array))

lemma declares_bodyOf (array : Symbol) (ts : List Term) : (bodyOf array ts).declares = [] := by
  have hall : ∀ ts : List Term, Stmt.declaresAll (ts.map fun t => .expr (t.expr array)) = [] := by
    intro ts
    induction ts with
    | nil => rfl
    | cons t ts ih => exact ih
  match ts with
  | [] => rfl
  | [_] => rfl
  | t :: t' :: ts => exact hall (t :: t' :: ts)

lemma declaresAll_bodies (array : Symbol) (groups : List (List Term)) :
    Stmt.declaresAll (groups.map (bodyOf array)) = [] := by
  induction groups with
  | nil => rfl
  | cons g gs ih => rw [map_cons, Stmt.declaresAll, declares_bodyOf, ih]; rfl

lemma exprs_bodyOf (array : Symbol) (ts : List Term) :
    (bodyOf array ts).exprs = .ok (ts.map (Term.expr array)) := by
  match ts with
  | [] => rfl
  | [_] => rfl
  | t :: t' :: ts =>
    rw [bodyOf, Stmt.exprs, mapM_eq_ok, forall₂_map_left_iff, forall₂_map_right_iff]
    · exact forall₂_same.2 fun _ _ => rfl
    · simp

lemma foldl_max_replicate (n : Nat) : (replicate n 0).foldl max 0 = 0 := by
  induction n with
  | zero => rfl
  | succ n ih => exact ih

lemma depth_bodyOf (array : Symbol) {ts : List Term}
    (h : ts ≠ []) : (bodyOf array ts).depth = .ok 0 := by
  have hdepths : ∀ ts : List Term, Stmt.depths (ts.map fun t => .expr (t.expr array)) =
      .ok (replicate ts.length 0) := by
    intro ts
    induction ts with
    | nil => rfl
    | cons t ts ih => rw [map_cons, Stmt.depths, ih]; rfl
  match ts, h with
  | [_], _ => rfl
  | t :: t' :: ts, _ =>
    rw [bodyOf, Stmt.depth, hdepths]
    · exact congrArg Except.ok (foldl_max_replicate _)
    · simp

/-- The updates of a body are its terms in order. -/
lemma updatesOf_bodies (array : Symbol) (groups : List (List Term)) :
    updatesOf (groups.map (bodyOf array)) = .ok (groups.flatten.zipIdx.map (Term.update array)) :=
  by
  have hgroup : ∀ (ts : List Term) (us : List Update), (ts.map (Term.expr array)).foldlM
      (fun us e => do return us ++ [← Update.ofExpr us.length e]) us =
        (.ok (us ++ (ts.zipIdx us.length).map (Term.update array)) : Outcome _) := by
    intro ts
    induction ts with
    | nil => exact fun us => by simp [pure, Except.pure]
    | cons t ts ih =>
      intro us
      have hstep : Update.ofExpr us.length (t.expr array) =
          .ok (Term.update array (t, us.length)) := rfl
      rw [map_cons, foldlM_cons, hstep]
      refine (ih _).trans ?_
      simp
  have hall : ∀ (groups : List (List Term)) (us : List Update), (groups.map (bodyOf array)).foldlM
      (fun us s =>
        do (← s.exprs).foldlM (fun us e => do return us ++ [← Update.ofExpr us.length e]) us)
        us = (.ok (us ++ (groups.flatten.zipIdx us.length).map (Term.update array)) : Outcome _) :=
        by
    intro groups
    induction groups with
    | nil => exact fun us => by simp [pure, Except.pure]
    | cons g gs ih =>
      intro us
      rw [map_cons, foldlM_cons, exprs_bodyOf]
      refine (congrArg (· >>= _) (hgroup g us)).trans ((ih _).trans ?_)
      simp [zipIdx_append]
  exact hall groups []

/-- What is written back are the terms with the factors that are left. -/
lemma withFactors_bodies (array : Symbol) (left : List (Nat × List Expr))
    (groups : List (List Term)) (k : Nat) : ∃ groups' : List (List Term),
      Stmt.withFactors left k (groups.map (bodyOf array)) = groups'.map (bodyOf array) ∧
        groups'.flatten = (groups.flatten.zipIdx k).map (Term.rest left) := by
  have hexpr : ∀ (t : Term) (k : Nat), (t.expr array).withFactors left k =
      (Term.rest left (t, k)).expr array :=
    fun _ _ => rfl
  induction groups generalizing k with
  | nil => exact ⟨[], rfl, rfl⟩
  | cons g gs ih =>
    obtain ⟨gs', hgs, hflat⟩ := ih (k + g.length)
    refine ⟨(g.zipIdx k).map (Term.rest left) :: gs', ?_, ?_⟩
    · match g with
      | [] => simpa [bodyOf, Stmt.withFactors] using hgs
      | [t] => simpa [bodyOf, Stmt.withFactors, hexpr] using hgs
      | t :: t' :: ts =>
        rw [map_cons, map_cons, ← hgs, bodyOf, Stmt.withFactors, length_map]
        · congr 1
          rw [zipIdx_cons, zipIdx_cons, map_cons, map_cons, bodyOf]
          · have hshift : ts.zipIdx k = ts.zipIdx.map fun p => (p.1, k + p.2) := zipIdx_eq_map_add
            simp [hexpr, zipIdx_map, Function.comp_def, Nat.add_assoc, zipIdx_succ, hshift]
          · simp
        · simp
    · simp [zipIdx_append, hflat]

/-! ## Factors -/

/-- An expression that is a symbol or does not mention a name. -/
def Expr.isDirect (x : String) : Expr → Bool
  | .symbol _ => true
  | e => e.uses.all (·.1 != x)

/-- A factor of which hoisting finds out whether it depends on the index of the given name: a
    literal, another symbol, or an access with indices in which the name stands alone or is an
    operand of a sum or product. -/
def Expr.isFactor (x : String) : Expr → Bool
  | .symbol s => s.name != x
  | .access s indices => s.name != x && indices.all fun
    | .nary _ _ _ args => args.all (Expr.isDirect x)
    | e => e.isDirect x
  | e => e.isLiteral

def Expr.isTyped (e : Expr) : Bool := e.dtype.any (· ≠ .none)

/-- Whether a factor depends on the inner index. -/
def Expr.moves (i : Symbol) (f : Expr) : Bool :=
  (f.dependsOn (·.same (.symbol i))).toOption.getD false

/-- The factors that do not depend on the inner index. -/
def fixedOf (i : Symbol) (fs : List Expr) : List Expr := fs.filter fun f => !f.moves i

/-- An expression in which a name does not occur. -/
abbrev Expr.Avoids (x : String) (e : Expr) : Prop := e.Fits fun y _ => y ≠ x

variable {e f : Expr} {i : Symbol}

lemma Expr.same_symbol (h : e.same (.symbol i) = false) : ∀ s, e = .symbol s → s.name ≠ i.name := by
  rintro s rfl
  simpa [same, equal, Symbol.same] using h

lemma Expr.avoids_of_isDirect (hdirect : e.isDirect i.name = true)
    (hsame : e.same (.symbol i) = false) : e.Avoids i.name := by
  unfold isDirect at hdirect
  split at hdirect
  · next s => exact fits_symbol.2 (same_symbol hsame s rfl)
  · exact fun u hu => by simpa using all_eq_true.1 hdirect u hu

/-- Of every factor it is found out whether it depends on the inner index. -/
lemma dependsOn_eq (h : f.isFactor i.name = true) :
    f.dependsOn (·.same (.symbol i)) = .ok (f.moves i) := by
  cases f <;> first | rfl | simp [Expr.isFactor, Expr.isLiteral] at h

/-- Factors that do not move do not mention the inner index. -/
lemma avoids_of_moves (h : f.isFactor i.name = true)
    (hmoves : f.moves i = false) : f.Avoids i.name := by
  cases f with
  | symbol s => exact Expr.fits_symbol.2 (by simpa [Expr.isFactor] using h)
  | access s indices =>
    obtain ⟨hs, hindices⟩ : s.name ≠ i.name ∧ _ := by simpa [Expr.isFactor] using h
    refine Expr.fits_access.2 ⟨hs, fun e he => ?_⟩
    have hany : indices.any _ = false := hmoves
    obtain ⟨hsame, hargs⟩ := Bool.or_eq_false_iff.1 (Bool.eq_false_iff.2 (any_eq_false.1 hany e he))
    have hindex := hindices e he
    split at hindex
    · next args =>
      exact Expr.fits_nary.2 fun a ha => Expr.avoids_of_isDirect (all_eq_true.1 hindex a ha)
        (by simpa using any_eq_false.1 hargs a ha)
    · exact Expr.avoids_of_isDirect hindex hsame
  | float | nan | complex | int => exact Expr.fits_of_uses_eq_nil rfl
  | _ => simp [Expr.isFactor, Expr.isLiteral] at h

lemma exists_merge (t : DType) (f : Expr) (ht : t ≠ .none) (hf : f.isTyped = true) :
    ∃ r, DType.merge [some t, f.dtype] = .ok r ∧ r ≠ .none := by
  obtain ⟨r, hr, hne⟩ : ∃ r, f.dtype = some r ∧ r ≠ .none := by
    simpa [Expr.isTyped, Option.any_eq_true] using hf
  rw [hr]
  cases t <;> cases r <;>
    first | exact ⟨_, rfl, by decide⟩ | exact absurd rfl ht | exact absurd rfl hne

/-- Values have a common type. -/
lemma exists_ofNary (op : NaryOp) {fs : List Expr} {tag : Tag} (hfs : fs ≠ [])
    (h : ∀ f ∈ fs, f.isTyped = true) : ∃ t, Expr.ofNary op fs tag = .ok (.nary op tag t fs) := by
  match fs, hfs with
  | f :: rest, _ =>
    rw [forall_mem_cons] at h
    obtain ⟨t, ht, hne⟩ : ∃ t, f.dtype = some t ∧ t ≠ .none := by
      simpa [Expr.isTyped, Option.any_eq_true] using h.1
    obtain ⟨first, hfirst, hfirst'⟩ := exists_merge t f hne h.1
    obtain ⟨type, htype⟩ := exists_foldlM_of_step (s := first)
      (f := fun t b => DType.merge [some t, b.dtype]) hfirst'
      fun g hg t ht => exists_merge t g ht (h.2 g hg)
    refine ⟨type, bind_eq_ok.2 ⟨type, bind_eq_ok.2 ⟨first, ?_, htype⟩, rfl⟩⟩
    rwa [ht] at hfirst ⊢

/-! ## Steps -/

/-- The code that fills a temporary array with a product for each step of the outer loop. -/
def fillCode (c : Nat) (j : Symbol) (n : Nat) (product : Expr) : List Stmt :=
  [.arrayDecl 0 (temporary c) [n] (some ⟨[1], #[.int 0]⟩) false,
    .loop (.symbol j) (.int (.int 0)) (.int (.int n))
      [.expr (.assign .set (.access (temporary c) [.symbol j]) product)]]

section Steps

variable {j : Symbol} {n : Nat} {body : List Stmt} {done t : Hoisted} {u : Update}

abbrev Hoisted.factors (done : Hoisted) (u : Update) : List Expr :=
  (done.left.lookup u.slot).getD u.factors

/-- The state after the fixed factors of an update have moved to a temporary array. -/
def Hoisted.moved (done : Hoisted) (j i : Symbol) (n : Nat) (u : Update) (type : DType) : Hoisted :=
  ⟨done.counter + 1,
    done.code ++ fillCode done.counter j n (.nary .product 0 type (fixedOf i (done.factors u))),
    (u.slot, (done.factors u).filter (Expr.moves i) ++
      [.access (temporary done.counter) [.symbol j]]) :: done.left⟩

/-- A step leaves the factors as they are or moves the fixed ones. -/
lemma hoistUpdate_eq {type : DType}
    (hdepends : ∀ f ∈ done.factors u, f.dependsOn (·.same (.symbol i)) = .ok (f.moves i))
    (htype : 1 < (fixedOf i (done.factors u)).length →
      Expr.ofNary .product (fixedOf i (done.factors u)) =
        .ok (.nary .product 0 type (fixedOf i (done.factors u)))) :
    hoistUpdate ⟨.symbol j, .int (.int 0), .int (.int n), .symbol i, body⟩ done u =
      .ok (if (fixedOf i (done.factors u)).length ≤ 1 then
        { done with left := (u.slot, done.factors u) :: done.left } else done.moved j i n u type) :=
          by
  have hmarked : (done.factors u).mapM
      (fun f => do return (f, ← f.dependsOn (·.same (.symbol i)))) =
      (.ok ((done.factors u).map fun f => (f, f.moves i)) : Outcome _) := by
    rw [mapM_eq_ok, forall₂_map_right_iff]
    refine forall₂_same.2 fun f hf => ?_
    rw [hdepends f hf]
    rfl
  have hfilter : ∀ p : Bool → Bool, (((done.factors u).map fun f => (f, f.moves i)).filter
      fun q => p q.2).map (·.1) = (done.factors u).filter fun f => p (f.moves i) := by
    intro p
    rw [filter_map, map_map]
    exact map_id _
  have hfixed : (((done.factors u).map fun f => (f, f.moves i)).filter fun q => !q.2).map (·.1) =
    fixedOf i (done.factors u) := hfilter not
  have hmoving : (((done.factors u).map fun f => (f, f.moves i)).filter fun q => q.2).map (·.1) =
    (done.factors u).filter (Expr.moves i) := hfilter id
  rw [hoistUpdate, hmarked]
  simp only [bind, Except.bind, hfixed, hmoving]
  split
  · rfl
  · next hmany =>
    have hsteps : LoopNest.steps ⟨.symbol j, .int (.int 0), .int (.int n), .symbol i, body⟩ =
        .ok (n : Int) := congrArg Except.ok (Int.sub_zero _)
    rw [htype (Nat.lt_of_not_le hmany), hsteps]
    rfl

/-- Factors that a step can be made with. -/
def Expr.Decided (i : Symbol) (f : Expr) : Prop :=
  f.dependsOn (·.same (.symbol i)) = .ok (f.moves i) ∧ f.isTyped = true

/-- A step with decided factors. -/
lemma exists_hoistUpdate (j : Symbol) (n : Nat) (body : List Stmt)
    (h : ∀ f ∈ done.factors u, f.Decided i) : ∃ type,
    hoistUpdate ⟨.symbol j, .int (.int 0), .int (.int n), .symbol i, body⟩ done u =
      .ok (if (fixedOf i (done.factors u)).length ≤ 1 then
        { done with left := (u.slot, done.factors u) :: done.left } else done.moved j i n u type) :=
          by
  by_cases hfew : fixedOf i (done.factors u) = []
  · exact ⟨.scalar, hoistUpdate_eq (fun f hf => (h f hf).1) fun hmany => by simp [hfew] at hmany⟩
  · obtain ⟨type, htype⟩ := exists_ofNary .product hfew fun f hf =>
      (h f (mem_of_mem_filter hf)).2
    exact ⟨type, hoistUpdate_eq (fun f hf => (h f hf).1) fun _ => htype⟩

/-- All that is left is decided. -/
def Hoisted.Ready (i : Symbol) (done : Hoisted) : Prop :=
  ∀ slot fs, done.left.lookup slot = some fs → ∀ f ∈ fs, f.Decided i

lemma Hoisted.Ready.factors (hdone : done.Ready i) (hu : ∀ f ∈ u.factors, f.Decided i) :
    ∀ f ∈ done.factors u, f.Decided i := by
  cases hlookup : done.left.lookup u.slot with
  | none => simpa [Hoisted.factors, hlookup] using hu
  | some fs => simpa [Hoisted.factors, hlookup] using hdone _ _ hlookup

/-- A step succeeds, and so does the next one. -/
lemma Hoisted.Ready.hoistUpdate (hdone : done.Ready i) (hu : ∀ f ∈ u.factors, f.Decided i) : ∃ t,
    hoistUpdate ⟨.symbol j, .int (.int 0), .int (.int n), .symbol i, body⟩ done u = .ok t ∧
      t.Ready i := by
  have hfactors := hdone.factors hu
  have hready : ∀ (t : Hoisted) (fs : List Expr), t.left = (u.slot, fs) :: done.left →
      (∀ f ∈ fs, f.Decided i) → t.Ready i := by
    intro t fs ht hfs slot gs hgs
    rw [ht, lookup_cons] at hgs
    split at hgs
    · exact Option.some.inj hgs ▸ hfs
    · exact hdone slot gs hgs
  obtain ⟨type, hstep⟩ := exists_hoistUpdate j n body hfactors
  refine ⟨_, hstep, ?_⟩
  split
  · exact hready _ _ rfl hfactors
  · refine hready _ _ rfl (forall_mem_append.2 ⟨fun f hf => hfactors f (mem_of_mem_filter hf),
      forall_mem_singleton.2 ⟨rfl, rfl⟩⟩)

end Steps

/-! ## Nests -/

/-- Two loops around additions of products to one array.  The additions stand in groups. -/
structure ProductNest where
  outer : Symbol
  inner : Symbol
  array : Symbol
  rows : Nat
  columns : Nat
  groups : List (List Term)

namespace ProductNest

/-- All additions in order. -/
def terms (nest : ProductNest) : List Term := nest.groups.flatten

def innerLoop (nest : ProductNest) : Stmt :=
  .loop (.symbol nest.inner) (.int (.int 0)) (.int (.int nest.columns))
    (nest.groups.map (bodyOf nest.array))

def stmt (nest : ProductNest) : Stmt :=
  .loop (.symbol nest.outer) (.int (.int 0)) (.int (.int nest.rows)) [nest.innerLoop]

def uses (nest : ProductNest) : List (String × Nat) :=
  nest.terms.flatMap fun t => Expr.usesAll t.indices ++ Expr.usesAll t.factors

/-- A nest that hoisting understands: there are additions, the indices and the array have different
    names, no name is that of a temporary array, the array is not read, each factor is a typed value
    that is plainly fixed or not, and shared products have the same factors. -/
structure WellFormed (nest : ProductNest) : Prop where
  nonempty : nest.groups ≠ [] ∧ ∀ g ∈ nest.groups, g ≠ []
  names : [nest.outer.name, nest.inner.name, nest.array.name].Nodup
  loops : ∀ x ∈ [nest.outer.name, nest.inner.name, nest.array.name], isTemporary x = false
  uses : ∀ u ∈ nest.uses, isTemporary u.1 = false
  factors : ∀ t ∈ nest.terms, ∀ f ∈ t.factors, f.isFactor nest.inner.name = true ∧
    f.isTyped = true ∧ f.Avoids nest.array.name
  shared : ∀ t ∈ nest.terms, ∀ t' ∈ nest.terms, t.tag ≠ 0 → t.tag = t'.tag → t.factors = t'.factors

variable {nest : ProductNest}

lemma depth_stmt (h : nest.WellFormed) : nest.stmt.depth = .ok 2 := by
  have hgroups : ∀ groups : List (List Term), (∀ g ∈ groups, g ≠ []) →
      Stmt.depths (groups.map (bodyOf nest.array)) = .ok (replicate groups.length 0) := by
    intro groups hgroups
    induction groups with
    | nil => rfl
    | cons g gs ih =>
      rw [forall_mem_cons] at hgroups
      rw [map_cons, Stmt.depths, depth_bodyOf _ hgroups.1, ih hgroups.2]
      rfl
  have hinner : nest.innerLoop.depth = .ok 1 := by
    obtain ⟨hsome, hall⟩ := h.nonempty
    rw [innerLoop, Stmt.depth, hgroups _ hall]
    match nest.groups, hsome with
    | g :: gs, _ => exact congrArg (fun k => Except.ok (1 + k)) (foldl_max_replicate gs.length)
  rw [stmt, Stmt.depth, Stmt.depths, hinner]
  rfl

lemma decided (h : nest.WellFormed) {t : Term} (ht : t ∈ nest.terms) :
    ∀ f ∈ t.factors, f.Decided nest.inner := fun f hf =>
  ⟨dependsOn_eq (h.factors t ht f hf).1, (h.factors t ht f hf).2.1⟩

end ProductNest

lemma exists_hoist {nest : ProductNest} (h : nest.WellFormed) (tag : Tag) (name : String)
    (input output : List Symbol) {annotations : List Annotation}
    (hlicm : annotations.contains .licm = true) : ∃ (us : List Update) (t : Hoisted)
      (groups : List (List Term)) (body : List Stmt),
      us.Perm (nest.terms.zipIdx.map (Term.update nest.array)) ∧
      us.foldlM (hoistUpdate ⟨.symbol nest.outer, .int (.int 0), .int (.int nest.rows),
        .symbol nest.inner, body⟩) {} = .ok t ∧
      groups.flatten = nest.terms.zipIdx.map (Term.rest t.left) ∧
      hoist (.part tag name [nest.stmt] [] input output annotations) = .ok (.part tag name
        (t.code ++ [{ nest with groups }.stmt]) [] input output annotations) := by
  let us := (groupUpdates (nest.terms.zipIdx.map (Term.update nest.array)) []).flatten
  have hperm : us.Perm (nest.terms.zipIdx.map (Term.update nest.array)) := groupUpdates_perm _ []
  have hdecided : ∀ u ∈ us, ∀ f ∈ u.factors, f.Decided nest.inner := by
    intro u hu
    obtain ⟨p, hp, rfl⟩ := mem_map.1 (hperm.mem_iff.1 hu)
    exact nest.decided h (fst_mem_of_mem_zipIdx hp)
  obtain ⟨t, ht⟩ := exists_foldlM_of_step
    (f := hoistUpdate ⟨.symbol nest.outer, .int (.int 0), .int (.int nest.rows), .symbol nest.inner,
      nest.groups.map (bodyOf nest.array)⟩) (s := {}) (P := Hoisted.Ready nest.inner)
    (fun slot fs hfs => by simp at hfs) fun u hu done hdone => hdone.hoistUpdate (hdecided u hu)
  obtain ⟨groups, hgroups, hflat⟩ := withFactors_bodies nest.array t.left nest.groups 0
  refine ⟨us, t, groups, _, hperm, ht, hflat, bind_eq_ok.2 ⟨(_, t.left), ?_, rfl⟩⟩
  refine bind_eq_ok.2 ⟨(), require_eq_ok.2 hlicm, bind_eq_ok.2 ⟨2, nest.depth_stmt h,
    bind_eq_ok.2 ⟨_, updatesOf_bodies nest.array nest.groups, bind_eq_ok.2 ⟨t, ht, ?_⟩⟩⟩⟩
  rw [hgroups]
  rfl

end FormKernel.Kernel
