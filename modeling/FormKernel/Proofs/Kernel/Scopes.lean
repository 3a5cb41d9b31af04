import FormKernel.Kernel.MultiIndex
import FormKernel.Proofs.Kernel.Fusion
import FormKernel.Proofs.List

/-!
# Scopes

The body of a loop and the body of a section stand in braces and are scopes of their own; a section
makes its declarations in the scope that it stands in.  For statements, and for operands that are
taken as statements, this file lists the names that are declared in each scope, and follows them
through the construction and the optimisation of a kernel.
-/

namespace FormKernel.Kernel

open List

mutual

/-- The names that a statement declares in the scope it stands in. -/
def Stmt.declares : Stmt → List String
  | .list body => Stmt.declaresAll body
  | .declaration s | .variableDecl _ s _ | .arrayDecl _ s .. => [s.name]
  | .part _ _ _ declarations .. => Stmt.declaresAll declarations
  | _ => []

/-- The names that statements declare in the scope they stand in. -/
def Stmt.declaresAll : List Stmt → List String
  | [] => []
  | s :: ss => s.declares ++ Stmt.declaresAll ss

end

lemma declaresAll_append (xs ys : List Stmt) :
    Stmt.declaresAll (xs ++ ys) = Stmt.declaresAll xs ++ Stmt.declaresAll ys := by
  induction xs with
  | nil => rfl
  | cons s ss ih => rw [cons_append, Stmt.declaresAll, Stmt.declaresAll, ih, append_assoc]

mutual

/-- The names that are declared in each scope inside of a statement. -/
def Stmt.inner : Stmt → List (List String)
  | .list body => Stmt.innerAll body
  | .loop _ _ _ body => Stmt.declaresAll body :: Stmt.innerAll body
  | .part _ _ body declarations .. =>
    Stmt.innerAll declarations ++ Stmt.declaresAll body :: Stmt.innerAll body
  | _ => []

/-- The names that are declared in each scope inside of statements. -/
def Stmt.innerAll : List Stmt → List (List String)
  | [] => []
  | s :: ss => s.inner ++ Stmt.innerAll ss

end

/-- The names that are declared in each scope of code, first in the scope that it stands in. -/
def scopes (code : List Stmt) : List (List String) := Stmt.declaresAll code :: Stmt.innerAll code

lemma Stmt.declaresAll_eq_flatMap (ss : List Stmt) :
    Stmt.declaresAll ss = ss.flatMap Stmt.declares := by
  induction ss with
  | nil => rfl
  | cons s ss ih => rw [declaresAll, ih, flatMap_cons]

lemma Stmt.innerAll_eq_flatMap (ss : List Stmt) : Stmt.innerAll ss = ss.flatMap Stmt.inner := by
  induction ss with
  | nil => rfl
  | cons s ss ih => rw [innerAll, ih, flatMap_cons]

@[simp] lemma Stmt.innerAll_append (xs ys : List Stmt) :
    Stmt.innerAll (xs ++ ys) = Stmt.innerAll xs ++ Stmt.innerAll ys := by
  simp [Stmt.innerAll_eq_flatMap]

/-! ## Statements that declare nothing -/

/-- A statement that declares nothing, in no scope. -/
structure Stmt.Silent (s : Stmt) : Prop where
  declares : s.declares = []
  inner : ∀ scope ∈ s.inner, scope = []

lemma silent_expr (e : Expr) : (Stmt.expr e).Silent := ⟨rfl, by simp [Stmt.inner]⟩

variable {code body : List Stmt} {index : Expr} {t s : Stmt} {tag : Tag} {name : String}

/-- Code declares nothing if no statement does. -/
lemma forall_silent_iff :
    (∀ s ∈ code, s.Silent) ↔ Stmt.declaresAll code = [] ∧
      ∀ scope ∈ Stmt.innerAll code, scope = [] := by
  rw [Stmt.declaresAll_eq_flatMap, Stmt.innerAll_eq_flatMap, flatMap_eq_nil_iff, forall_mem_flatMap]
  exact ⟨fun h => ⟨fun s hs => (h s hs).declares, fun s hs => (h s hs).inner⟩,
    fun h s hs => ⟨h.1 s hs, h.2 s hs⟩⟩

lemma silent_list : (Stmt.list body).Silent ↔ ∀ s ∈ body, s.Silent :=
  ⟨fun h => forall_silent_iff.2 ⟨h.declares, h.inner⟩,
    fun h => ⟨(forall_silent_iff.1 h).1, (forall_silent_iff.1 h).2⟩⟩

lemma silent_loop {lower upper : Expr} :
    (Stmt.loop index lower upper body).Silent ↔ ∀ s ∈ body, s.Silent := by
  rw [forall_silent_iff]
  exact ⟨fun h => forall_mem_cons.1 h.inner, fun h => ⟨rfl, forall_mem_cons.2 h⟩⟩

/-! ## Offered statements -/

mutual

/-- The names that an operand declares where it stands. -/
def Operand.declares : Operand → List String
  | .stmt s => s.declares
  | .list items => Operand.declaresAll items
  | _ => []

/-- The names that operands declare where they stand. -/
def Operand.declaresAll : List Operand → List String
  | [] => []
  | o :: os => o.declares ++ Operand.declaresAll os

end

mutual

/-- The names that are declared in each scope inside of an operand. -/
def Operand.inner : Operand → List (List String)
  | .stmt s => s.inner
  | .list items => Operand.innerAll items
  | _ => []

/-- The names that are declared in each scope inside of operands. -/
def Operand.innerAll : List Operand → List (List String)
  | [] => []
  | o :: os => o.inner ++ Operand.innerAll os

end

lemma Operand.declaresAll_eq_flatMap (os : List Operand) :
    Operand.declaresAll os = os.flatMap Operand.declares := by
  induction os with
  | nil => rfl
  | cons o os ih => rw [declaresAll, ih, flatMap_cons]

lemma Operand.innerAll_eq_flatMap (os : List Operand) :
    Operand.innerAll os = os.flatMap Operand.inner := by
  induction os with
  | nil => rfl
  | cons o os ih => rw [innerAll, ih, flatMap_cons]

@[simp] lemma Operand.declaresAll_append (xs ys : List Operand) :
    Operand.declaresAll (xs ++ ys) = Operand.declaresAll xs ++ Operand.declaresAll ys := by
  simp [Operand.declaresAll_eq_flatMap]

@[simp] lemma Operand.innerAll_append (xs ys : List Operand) :
    Operand.innerAll (xs ++ ys) = Operand.innerAll xs ++ Operand.innerAll ys := by
  simp [Operand.innerAll_eq_flatMap]

@[simp] lemma Operand.declaresAll_stmts (ss : List Stmt) :
    Operand.declaresAll (ss.map .stmt) = Stmt.declaresAll ss := by
  rw [Operand.declaresAll_eq_flatMap, Stmt.declaresAll_eq_flatMap, flatMap_map]
  rfl

@[simp] lemma Operand.innerAll_stmts (ss : List Stmt) :
    Operand.innerAll (ss.map .stmt) = Stmt.innerAll ss := by
  rw [Operand.innerAll_eq_flatMap, Stmt.innerAll_eq_flatMap, flatMap_map]
  rfl

/-- Operands that declare one name each. -/
lemma Operand.scopes_of_forall₂ {os : List Operand} {names : List String}
    (h : Forall₂ (fun o x => o.declares = [x] ∧ o.inner = []) os names) :
    Operand.declaresAll os = names ∧ Operand.innerAll os = [] := by
  induction h with
  | nil => exact ⟨rfl, rfl⟩
  | cons ho _ ih => simp [Operand.declaresAll, Operand.innerAll, ho, ih]

/-- Statements declare what the operands declare that they are taken from. -/
lemma scopes_toStmts {os : List Operand} {ss : List Stmt} (h : Operand.toStmts os = .ok ss) :
    Stmt.declaresAll ss = Operand.declaresAll os ∧ Stmt.innerAll ss = Operand.innerAll os := by
  have hdeclares : Listing Stmt.declares Operand.declares :=
    ⟨fun _ => rfl, fun _ => rfl, Stmt.declaresAll_eq_flatMap, Operand.declaresAll_eq_flatMap⟩
  have hinner : Listing Stmt.inner Operand.inner :=
    ⟨fun _ => rfl, fun _ => rfl, Stmt.innerAll_eq_flatMap, Operand.innerAll_eq_flatMap⟩
  rw [Stmt.declaresAll_eq_flatMap, Operand.declaresAll_eq_flatMap, Stmt.innerAll_eq_flatMap,
    Operand.innerAll_eq_flatMap]
  exact ⟨hdeclares.toStmts h, hinner.toStmts h⟩

/-! ## Constructed statements -/

lemma declares_ofVariable {s : Symbol} {value : Option Operand}
    (h : Stmt.ofVariable s value tag = .ok t) : t.declares = [s.name] ∧ t.inner = [] := by
  obtain ⟨_, rfl, -⟩ := ofVariable_eq_ok h
  exact ⟨rfl, rfl⟩

lemma declares_ofArray {s : Symbol} {sizes : Option (List Int)} {values : Initial} {const : Bool}
    (h : Stmt.ofArray s sizes values const tag = .ok t) : t.declares = [s.name] ∧ t.inner = [] := by
  obtain ⟨_, _, rfl⟩ := ofArray_eq_ok h
  exact ⟨rfl, rfl⟩

lemma scopes_ofLoop {lower upper : Operand} {body : List Operand}
    (h : Stmt.ofLoop index lower upper body = .ok s) :
    s.declares = [] ∧ s.inner = Operand.declaresAll body :: Operand.innerAll body := by
  obtain ⟨_, -, _, -, _, -, ss, hss, h⟩ := bind₄_eq_ok.1 h
  cases h
  obtain ⟨hdeclares, hinner⟩ := scopes_toStmts hss
  exact ⟨rfl, by rw [Stmt.inner, hdeclares, hinner]⟩

/-- What stands in a nest of loops is declared inside of the innermost. -/
lemma scopes_wrapLoops {ranges : List (Expr × Int)} {body o : Operand}
    (h : wrapLoops ranges body = .ok o) : o.declares = (if ranges = [] then body.declares else []) ∧
      ∀ scope ∈ o.inner, scope = [] ∨ scope = body.declares ∨ scope ∈ body.inner := by
  induction ranges generalizing o with
  | nil =>
    cases h
    exact ⟨rfl, fun scope hscope => .inr (.inr hscope)⟩
  | cons range ranges ih =>
    obtain ⟨inside, hinside, s, hs, h⟩ := bind₂_eq_ok.1 h
    cases h
    obtain ⟨hdeclares, hinner⟩ := ih hinside
    obtain ⟨hnone, hloop⟩ := scopes_ofLoop hs
    refine ⟨hnone, fun scope hscope => ?_⟩
    rw [Operand.inner, hloop, Operand.declaresAll, Operand.innerAll, Operand.declaresAll,
      Operand.innerAll, append_nil, append_nil] at hscope
    rcases mem_cons.1 hscope with rfl | hscope
    · rw [hdeclares]
      split
      · exact .inr (.inl rfl)
      · exact .inl rfl
    · exact hinner scope hscope

lemma scopes_declarations {os : List Operand} {ds : List Stmt} (h : (os.mapM fun
      | .stmt s => if s.isDeclaration then pure s else misfit .unmet
      | _ => misfit .unmet) = (.ok ds : Outcome _)) :
    Stmt.declaresAll ds = Operand.declaresAll os ∧ Stmt.innerAll ds = [] := by
  rw [mapM_eq_ok] at h
  induction h with
  | nil => exact ⟨rfl, rfl⟩
  | @cons o d os ds hd _ ih =>
    obtain ⟨hrest, hnone⟩ := ih
    split at hd
    · split at hd
      · next t hdeclaration =>
        obtain rfl := pure_eq_ok.1 hd
        refine ⟨by rw [Stmt.declaresAll, Operand.declaresAll, hrest]; rfl, ?_⟩
        rw [Stmt.innerAll, hnone, append_nil]
        cases t <;> first | rfl | simp [Stmt.isDeclaration] at hdeclaration
      · cases hd
    · cases hd

/-- A section declares where it stands what is given as its declarations, and in its braces what is
    given as its body. -/
lemma scopes_ofPart {body declarations : List Operand} {input output : List Symbol}
    {annotations : List Annotation}
    (h : Stmt.ofPart name body declarations input output annotations tag = .ok s) :
    s.declares = Operand.declaresAll declarations ∧
      s.inner = Operand.declaresAll body :: Operand.innerAll body ∧
      s.annotations = annotations ∧ ∀ n, s.isNamed n = (name == n) := by
  obtain ⟨ss, hss, ds, hds, h⟩ := bind₂_eq_ok.1 h
  cases h
  rw [← toStmts_eq_mapM] at hss
  obtain ⟨hdeclares, hinner⟩ := scopes_toStmts hss
  obtain ⟨hmade, hinside⟩ := scopes_declarations hds
  refine ⟨hmade, ?_, rfl, fun n => rfl⟩
  rw [Stmt.inner, hinside, nil_append, hdeclares, hinner]

lemma silent_body (h : ∀ scope ∈ s.inner, scope = []) : ∀ t ∈ s.body, t.Silent := by
  cases s with
  | part =>
    refine forall_silent_iff.2 ⟨h _ ?_, fun scope hscope => h _ ?_⟩
    · simp [Stmt.inner, Stmt.body]
    · simp only [Stmt.body] at hscope
      simp [Stmt.inner, hscope]
  | _ => simp [Stmt.body]

/-! ## Joined sections -/

/-- A statement that declares nothing but in the scope that it stands in, and that nothing is
    hoisted from. -/
structure Stmt.Shallow (s : Stmt) : Prop where
  inner : ∀ scope ∈ s.inner, scope = []
  plain : s.annotations.contains .licm = false

lemma shallow_empty : (Stmt.list []).Shallow := ⟨by simp [Stmt.inner, Stmt.innerAll], rfl⟩

lemma declares_of_isNamed (h : s.isNamed name = true) :
    s.declares = Stmt.declaresAll s.declarations := by
  cases s with
  | part => rfl
  | _ => simp [Stmt.isNamed] at h

/-- Sections of one name that are joined declare what they did before. -/
lemma shallow_fuseSections {code' : List Stmt} (hcode : ∀ s ∈ code, s.Shallow)
    (h : fuseSections code name = .ok code') :
    (∀ s ∈ code', s.Shallow) ∧ (Stmt.declaresAll code').Perm (Stmt.declaresAll code) := by
  obtain ⟨fused, hfused, h⟩ := bind_eq_ok.1 h
  obtain ⟨hdeclares, hinner, hannotations, -⟩ := scopes_ofPart hfused
  set parts := code.filter (·.isNamed name) with hparts
  have hmem : ∀ p ∈ parts, p.Shallow := fun p hp => hcode p (mem_of_mem_filter hp)
  have hshallow : fused.Shallow := by
    constructor
    · have hsilent : ∀ s ∈ parts.flatMap Stmt.body, s.Silent := fun s hs =>
        let ⟨p, hp, hs⟩ := mem_flatMap.1 hs
        silent_body (hmem p hp).inner s hs
      rw [hinner, Operand.declaresAll_stmts, Operand.innerAll_stmts]
      exact forall_mem_cons.2 (forall_silent_iff.1 hsilent)
    · rw [hannotations]
      cases hlast : parts.getLast? with
      | none => rfl
      | some p => exact (hmem p (mem_of_getLast? hlast)).plain
  have hfusedNames : fused.declares = parts.flatMap Stmt.declares := by
    rw [hdeclares, Operand.declaresAll_stmts, Stmt.declaresAll_eq_flatMap, flatMap_assoc]
    refine flatMap_congr fun p hp => ?_
    rw [declares_of_isNamed (of_mem_filter hp), Stmt.declaresAll_eq_flatMap]
  refine ⟨forall_fuseSections hcode hshallow h, ?_⟩
  split at h
  · exact pure_eq_ok.1 h ▸ .refl _
  · next hdrop =>
    rw [← pure_eq_ok.1 h, Stmt.declaresAll_eq_flatMap, Stmt.declaresAll_eq_flatMap]
    exact flatMap_perm_of_moved hdrop hfusedNames

/-! ## Joined loops -/

lemma silent_groupLoops {groups groups' : List LoopGroup} (hbody : ∀ s ∈ body, s.Silent)
    (hgroups : ∀ g ∈ groups, ∀ b ∈ g.bodies, ∀ s ∈ b, s.Silent)
    (h : groupLoops body groups = .ok groups') :
    ∀ g ∈ groups', ∀ b ∈ g.bodies, ∀ s ∈ b, s.Silent := by
  refine forall_groupLoops (fun hs => ?_) hgroups h
  have hinside := silent_loop.1 (hbody _ hs)
  exact ⟨forall_mem_singleton.2 hinside, fun g hg =>
    forall_mem_append.2 ⟨hg, forall_mem_singleton.2 hinside⟩⟩

lemma silent_loopsLast {body' : List Stmt} (hbody : ∀ s ∈ body, s.Silent)
    (h : loopsLast body = .ok body') : ∀ s ∈ body', s.Silent := by
  obtain ⟨groups, hgroups, loops, hloops, h⟩ := bind₂_eq_ok.1 h
  cases h
  have hsilent := silent_groupLoops hbody (by simp) hgroups
  intro s hs
  rcases mem_append.1 hs with hs | hs
  · exact hbody s (mem_of_mem_filter hs)
  · obtain ⟨g, hg, hs⟩ := exists_of_mapM hloops hs
    obtain ⟨hdeclares, hinner⟩ := scopes_ofLoop hs
    have hbodies : ∀ t ∈ g.bodies.map Stmt.list, t.Silent := fun t ht =>
      let ⟨b, hb, ht⟩ := mem_map.1 ht
      ht ▸ silent_list.2 (hsilent g hg b hb)
    refine ⟨hdeclares, ?_⟩
    rw [hinner, show (g.bodies.map fun b => Operand.stmt (.list b)) =
      (g.bodies.map Stmt.list).map .stmt by rw [map_map]; rfl, Operand.declaresAll_stmts,
      Operand.innerAll_stmts]
    exact forall_mem_cons.2 (forall_silent_iff.1 hbodies)

lemma shallow_fuseLoops (hs : s.Shallow) (h : fuseLoops s = .ok t) :
    t.Shallow ∧ t.declares = s.declares := by
  cases s with
  | part tag name body declarations input output annotations =>
    obtain ⟨loops, hloops, h⟩ := bind_eq_ok.1 h
    obtain ⟨hdeclares, hinner, hannotations, -⟩ := scopes_ofPart h
    refine ⟨⟨?_, by rw [hannotations]; rfl⟩, by rw [hdeclares, Operand.declaresAll_stmts]; rfl⟩
    rw [hinner, Operand.declaresAll_stmts, Operand.innerAll_stmts]
    exact forall_mem_cons.2 (forall_silent_iff.1 (silent_loopsLast (silent_body hs.inner) hloops))
  | list body =>
    obtain ⟨_, -, h⟩ := bind_eq_ok.1 h
    cases h
  | _ => cases h

lemma shallow_optimizeSection (hs : s.Shallow) (h : optimizeSection s = .ok t) :
    t.Shallow ∧ t.declares = s.declares := by
  obtain ⟨u, hu, h⟩ := optimizeSection_eq_ok h
  obtain ⟨hshallow, hdeclares⟩ : u.Shallow ∧ u.declares = s.declares := by
    split at hu
    · exact shallow_fuseLoops hs hu
    · cases hu
      exact ⟨hs, rfl⟩
  rw [if_neg (by rw [hshallow.plain]; simp)] at h
  cases h
  exact ⟨hshallow, hdeclares⟩

/-- Definitions that are optimised declare what they did before; the sections behind them stay
    apart. -/
lemma shallow_optimize {definitions rest : List Stmt} (hdefinitions : ∀ s ∈ definitions, s.Shallow)
    (hrest : ∀ s ∈ rest, s.isNamed "Coefficient" = false ∧ s.isNamed "Jacobian" = false)
    (h : optimize (definitions ++ rest) = .ok code) :
    ∃ definitions' rest', code = definitions' ++ rest' ∧ (∀ s ∈ definitions', s.Shallow) ∧
      (Stmt.declaresAll definitions').Perm (Stmt.declaresAll definitions) ∧
      rest.mapM optimizeSection = .ok rest' := by
  obtain ⟨_, hfirst, _, hsecond, h⟩ := bind₂_eq_ok.1 h
  obtain ⟨first, hjoinFirst, rfl⟩ := fuseSections_append (fun s hs => (hrest s hs).1) hfirst
  obtain ⟨second, hjoinSecond, rfl⟩ := fuseSections_append (fun s hs => (hrest s hs).2) hsecond
  obtain ⟨hfirst, hfirstNames⟩ := shallow_fuseSections hdefinitions hjoinFirst
  obtain ⟨hsecond, hsecondNames⟩ := shallow_fuseSections hfirst hjoinSecond
  rw [mapM_append] at h
  obtain ⟨third, hthird, rest', hrest', h⟩ := bind₂_eq_ok.1 h
  cases h
  have hsections : Forall₂ (fun s t => t.Shallow ∧ t.declares = s.declares) second third :=
    forall₂_imp_of_mem (mapM_eq_ok.1 hthird) fun s hs t hst =>
      shallow_optimizeSection (hsecond s hs) hst
  refine ⟨third, rest', rfl, fun t ht => ?_, ?_, hrest'⟩
  · obtain ⟨_, -, ht, -⟩ := exists_of_forall₂_right hsections ht
    exact ht
  · have hnames : Stmt.declaresAll third = Stmt.declaresAll second := by
      clear * - hsections
      induction hsections with
      | nil => rfl
      | cons hst _ ih => rw [Stmt.declaresAll, Stmt.declaresAll, ih, hst.2]
    rw [hnames]
    exact hsecondNames.trans hfirstNames

/-! ## Hoisted temporaries -/

def numbered (base : String) (k : Nat) : String := base ++ toString k

lemma numbered_injective (base : String) : Function.Injective (numbered base) := by
  intro k k' h
  have hdigits := congrArg String.toList h
  simp only [numbered, String.toList_append] at hdigits
  have hvalue := congrArg (Nat.ofDigitChars 10 · 0) (append_cancel_left hdigits)
  simpa [Nat.toString_eq_ofList_toDigits] using hvalue

lemma nodup_numbered (base : String) (n : Nat) : ((range n).map (numbered base)).Nodup :=
  nodup_range.map (numbered_injective base)

/-- What is hoisted so far declares one temporary for each count. -/
structure Hoisted.Counted (done : Hoisted) : Prop where
  declares : Stmt.declaresAll done.code = (range done.counter).map (numbered "temp_")
  inner : ∀ scope ∈ Stmt.innerAll done.code, scope = []

lemma Hoisted.Counted.hoistUpdate {nest : LoopNest} {done done' : Hoisted} {u : Update}
    (hdone : done.Counted) (h : hoistUpdate nest done u = .ok done') : done'.Counted := by
  obtain ⟨marked, -, h⟩ := bind_eq_ok.1 h
  dsimp only at h
  split at h
  · cases h
    exact ⟨hdone.declares, hdone.inner⟩
  · obtain ⟨n, -, decl, hdecl, product, -, loop, hloop, h⟩ := bind₄_eq_ok.1 h
    cases h
    obtain ⟨hname, hnone⟩ := declares_ofArray hdecl
    obtain ⟨hsilent, hbody⟩ := scopes_ofLoop hloop
    constructor
    · rw [declaresAll_append, hdone.declares, range_succ, map_append]
      simp [Stmt.declaresAll, hname, hsilent, numbered]
      rfl
    · intro scope hscope
      rw [Stmt.innerAll_append, mem_append] at hscope
      rcases hscope with hscope | hscope
      · exact hdone.inner scope hscope
      · simpa [Stmt.innerAll, hnone, hbody, Operand.declaresAll, Operand.innerAll,
          Operand.declares, Operand.inner] using hscope

/-- Factors that are written back change no declarations. -/
lemma silent_withFactors {left : List (Nat × List Expr)} {slot : Nat} {ss : List Stmt}
    (h : ∀ s ∈ ss, s.Silent) : ∀ s ∈ Stmt.withFactors left slot ss, s.Silent := by
  induction ss generalizing slot with
  | nil => simp [Stmt.withFactors]
  | cons s ss ih =>
    rw [forall_mem_cons] at h
    cases s with
    | expr e => exact forall_mem_cons.2 ⟨silent_expr _, ih h.2⟩
    | list body =>
      refine forall_mem_cons.2 ⟨silent_list.2 fun t ht => ?_, ih h.2⟩
      obtain ⟨⟨u, i⟩, hu, rfl⟩ := mem_map.1 ht
      have hu := silent_list.1 h.1 u (fst_mem_of_mem_zipIdx hu)
      cases u with
      | expr e => exact silent_expr _
      | _ => exact hu
    | _ => exact forall_mem_cons.2 ⟨h.1, ih h.2⟩

/-- In a section that declares nothing in its braces, hoisting declares temporaries there. -/
lemma scopes_hoist (hs : ∀ scope ∈ s.inner, scope = []) (h : hoist s = .ok t) :
    t.declares = s.declares ∧ ∀ scope ∈ t.inner, scope.Nodup := by
  obtain ⟨⟨t, left⟩, ht, h⟩ := bind_eq_ok.1 h
  cases h
  cases s with
  | part tag name body declarations input output annotations =>
    obtain ⟨_, -, ht⟩ := bind_eq_ok.1 ht
    cases body with
    | nil => cases ht
    | cons first rest =>
      obtain ⟨depth, -, ht⟩ := bind_eq_ok.1 ht
      dsimp only at ht
      split at ht
      · obtain ⟨rfl, -⟩ := Prod.mk.inj (pure_eq_ok.1 ht)
        exact ⟨rfl, fun scope hscope => hs scope hscope ▸ nodup_nil⟩
      · split at ht
        · next outer lower upper inner innerLower innerUpper inside others =>
          obtain ⟨updates, -, done, hdone, ht⟩ := bind₂_eq_ok.1 ht
          obtain ⟨rfl, -⟩ := Prod.mk.inj (pure_eq_ok.1 ht)
          refine ⟨rfl, fun scope hscope => ?_⟩
          have hcounted : done.Counted :=
            foldlM_induction (Hoisted.Counted ·) ⟨rfl, by simp [Stmt.innerAll]⟩
              (fun _ _ _ _ hdone h => hdone.hoistUpdate h) hdone
          have hbody := silent_body hs
          simp only [Stmt.body, forall_mem_cons, silent_loop] at hbody
          obtain ⟨⟨hinside, hothers⟩, hrest⟩ := hbody
          -- behind the temporaries stands what has been there before
          obtain ⟨hnone, hsilent⟩ := forall_silent_iff.1 (forall_mem_cons.2
            ⟨silent_loop.2 (forall_mem_cons.2
              ⟨silent_loop.2 (silent_withFactors hinside), hothers⟩), hrest⟩)
          rw [Stmt.inner, mem_append, mem_cons, declaresAll_append, hnone,
            append_nil, hcounted.declares, Stmt.innerAll_append, mem_append] at hscope
          rcases hscope with hscope | rfl | hscope | hscope
          · rw [hs scope (by simp [Stmt.inner, hscope])]
            exact nodup_nil
          · exact nodup_numbered "temp_" done.counter
          · rw [hcounted.inner scope hscope]
            exact nodup_nil
          · rw [hsilent scope hscope]
            exact nodup_nil
        · cases ht
  | _ => cases ht

/-- Optimising a section that declares nothing in its braces. -/
lemma scopes_optimizeSection (hs : ∀ scope ∈ s.inner, scope = [])
    (hfuse : s.annotations.contains .fuse = false) (h : optimizeSection s = .ok t) :
    t.declares = s.declares ∧ ∀ scope ∈ t.inner, scope.Nodup := by
  obtain ⟨u, hu, h⟩ := optimizeSection_eq_ok h
  rw [if_neg (by rw [hfuse]; simp)] at hu
  cases hu
  split at h
  · exact scopes_hoist hs h
  · cases h
    exact ⟨rfl, fun scope hscope => hs scope hscope ▸ nodup_nil⟩

end FormKernel.Kernel
