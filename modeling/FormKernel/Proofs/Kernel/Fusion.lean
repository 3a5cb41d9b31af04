import FormKernel.Kernel.Hoist
import FormKernel.Proofs.Outcome
import Mathlib.Data.List.TakeWhile

/-!
# Fusion of sections

What optimisation does to a list of sections: those of one name are joined where the first of them
stands, and then each section is fused and hoisted from, as its annotations ask.
-/

namespace FormKernel.Kernel

open List

/-! ## Offered statements -/

/-- A statement that is no list of statements. -/
def Stmt.isSingle : Stmt → Bool
  | .list _ => false
  | _ => true

lemma toStmt_of_isSingle {s : Stmt} (h : s.isSingle = true) : Operand.toStmt (.stmt s) = .ok s := by
  cases s <;> first | rfl | simp [Stmt.isSingle] at h

lemma toStmts_eq_mapM (os : List Operand) : Operand.toStmts os = os.mapM Operand.toStmt := by
  induction os with
  | nil => rfl
  | cons o os ih => rw [Operand.toStmts, ih, mapM_cons]

/-- Something that is listed of statements, and of the operands that are taken as statements. -/
structure Listing {α : Type} (f : Stmt → List α) (g : Operand → List α) : Prop where
  stmt : ∀ s, f s = g (.stmt s)
  expr : ∀ e, f (.expr e) = g (.expr e)
  body : ∀ ss, f (.list ss) = ss.flatMap f
  items : ∀ os, g (.list os) = os.flatMap g

section Listing

variable {α : Type} {f : Stmt → List α} {g : Operand → List α}

mutual

/-- A statement lists what the operand lists that it is taken from. -/
theorem Listing.toStmt (hfg : Listing f g) : ∀ {o : Operand}
    {s : Stmt}, o.toStmt = .ok s → f s = g o
  | .stmt s, t, h => by
    by_cases hs : s.isSingle = true
    · rw [toStmt_of_isSingle hs] at h
      rw [← Except.ok.inj h, hfg.stmt]
    · -- a list is taken as the statement it consists of
      match s, hs with
      | .list [u], _ =>
        cases h
        rw [← hfg.stmt, hfg.body, flatMap_singleton]
      | .list [], _ | .list (_ :: _ :: _), _ => simp [Operand.toStmt] at h
  | .expr e, t, h => by
    rw [Operand.toStmt] at h
    split at h
    · rw [← pure_eq_ok.1 h, hfg.expr]
    · obtain ⟨_, -, h⟩ := bind_eq_ok.1 h
      split at h <;> exact absurd h throw_ne_ok
  | .list [o], t, h => by rw [hfg.items, flatMap_singleton, hfg.toStmt (o := o) h]
  | .list [], t, h | .list (_ :: _ :: _), t, h => by
    obtain ⟨ss, hss, h⟩ := bind_eq_ok.1 h
    rw [← pure_eq_ok.1 h, hfg.body, hfg.items, hfg.toStmts hss]
  | .map _, _, h | .none, _, h | .number _, _, h | .text _, _, h => by
    obtain ⟨_, -, h⟩ := bind_eq_ok.1 h
    cases h

/-- Statements list what the operands list that they are taken from. -/
theorem Listing.toStmts (hfg : Listing f g) : ∀ {os : List Operand} {ss : List Stmt},
    Operand.toStmts os = .ok ss → ss.flatMap f = os.flatMap g
  | [], _, h => by
    cases h
    rfl
  | o :: os, _, h => by
    obtain ⟨s, hs, ss, hss, h⟩ := bind₂_eq_ok.1 h
    rw [← pure_eq_ok.1 h, flatMap_cons, flatMap_cons, hfg.toStmt hs, hfg.toStmts hss]

end

end Listing

/-! ## Constructed declarations -/

section Declarations

variable {s : Symbol} {tag : Tag} {t : Stmt}

lemma ofVariable_eq_ok {value : Option Operand} (h : Stmt.ofVariable s value tag = .ok t) :
    ∃ e, t = .variableDecl tag s e ∧ ∀ x, e = some x → ∃ o, value = some o ∧ o.toExpr = .ok x := by
  obtain ⟨_, -, h⟩ := bind_eq_ok.1 h
  cases value with
  | none => exact ⟨none, (pure_eq_ok.1 h).symm, nofun⟩
  | some v =>
    obtain ⟨x, hx, h⟩ := bind_eq_ok.1 h
    exact ⟨some x, (pure_eq_ok.1 h).symm, fun _ heq => ⟨v, rfl, Option.some.inj heq ▸ hx⟩⟩

/-- Sizes and values decide whether there is an array at all, but not what it is called. -/
lemma ofArray_eq_ok {sizes : Option (List Int)} {values : Initial} {const : Bool}
    (h : Stmt.ofArray s sizes values const tag = .ok t) :
    ∃ sizes' values', t = .arrayDecl tag s sizes' values' const := by
  obtain ⟨_, -, h⟩ := bind_eq_ok.1 h
  match sizes, values with
  | some _, .none | some _, .values _ | none, .values _ => exact ⟨_, _, (pure_eq_ok.1 h).symm⟩
  | some _, .nested items =>
    obtain ⟨_, -, _, -, h⟩ := bind₂_eq_ok.1 h
    exact ⟨_, _, (pure_eq_ok.1 h).symm⟩
  | none, .none | none, .nested _ => cases h

end Declarations

/-! ## Sections of one name -/

/-- A list with its first item that has a property. -/
lemma split_of_dropWhile {α : Type} {p : α → Bool} {xs after : List α} {x : α}
    (hxs : xs.dropWhile (fun a => !p a) = x :: after) :
    p x = true ∧ xs.takeWhile (fun a => !p a) ++ x :: after = xs ∧
      xs.filter p = (x :: after).filter p ∧
      ((x :: after).filter fun a => !p a) = after.filter fun a => !p a := by
  have hx : p x = true := by
    have hhead := head?_dropWhile_not (fun a => !p a) xs
    rw [hxs] at hhead
    simpa using hhead
  have hsplit : xs.takeWhile (fun a => !p a) ++ x :: after = xs := by
    rw [← hxs, takeWhile_append_dropWhile]
  refine ⟨hx, hsplit, ?_, filter_cons_of_neg (by simp [hx])⟩
  conv_lhs => rw [← hsplit, filter_append]
  rw [filter_eq_nil_iff.2 fun a ha => by simpa using mem_takeWhile_imp ha, nil_append]

/-- Items that are moved to the first of them. -/
lemma flatMap_perm_of_moved {α β : Type} {p : α → Bool} {xs after : List α} {x y : α}
    (hxs : xs.dropWhile (fun a => !p a) = x :: after) {g : α → List β}
    (hy : g y = (xs.filter p).flatMap g) :
    ((xs.takeWhile (fun a => !p a) ++ y :: after.filter (fun a => !p a)).flatMap g).Perm
      (xs.flatMap g) := by
  obtain ⟨-, hsplit, hfilter, hrest⟩ := split_of_dropWhile hxs
  conv_rhs => rw [← hsplit]
  rw [flatMap_append, flatMap_append, flatMap_cons, hy, hfilter, ← hrest, ← flatMap_append]
  exact ((filter_append_perm p (x :: after)).flatMap_right g).append_left _

/-- Sections of other names stay behind. -/
lemma fuseSections_append {xs ys code : List Stmt} {name : String}
    (hys : ∀ s ∈ ys, s.isNamed name = false) (h : fuseSections (xs ++ ys) name = .ok code) :
    ∃ code', fuseSections xs name = .ok code' ∧ code = code' ++ ys := by
  have hnone : ys.filter (fun s => s.isNamed name) = [] :=
    filter_eq_nil_iff.2 fun s hs => by simp [hys s hs]
  have hall : ys.filter (fun s => !s.isNamed name) = ys :=
    filter_eq_self.2 fun s hs => by simp [hys s hs]
  obtain ⟨fused, hfused, h⟩ := bind_eq_ok.1 h
  rw [filter_append, hnone, append_nil] at hfused
  rw [dropWhile_append] at h
  cases hdrop : xs.dropWhile (fun s => !s.isNamed name) with
  | nil =>
    have hrest : ys.dropWhile (fun s => !s.isNamed name) = [] :=
      dropWhile_eq_nil_iff.2 fun s hs => by simp [hys s hs]
    rw [hdrop, isEmpty_nil, if_pos rfl, hrest] at h
    refine ⟨xs, bind_eq_ok.2 ⟨fused, hfused, ?_⟩, (pure_eq_ok.1 h).symm⟩
    rw [hdrop]
    rfl
  | cons x after =>
    have htake : (xs ++ ys).takeWhile (fun s => !s.isNamed name) =
        xs.takeWhile fun s => !s.isNamed name := by
      rw [takeWhile_append, if_neg]
      intro hlength
      have hsplit := congrArg length
        (takeWhile_append_dropWhile (p := fun s : Stmt => !s.isNamed name) (l := xs))
      rw [length_append, hlength, hdrop, length_cons] at hsplit
      omega
    rw [hdrop, isEmpty_cons, if_neg Bool.false_ne_true, cons_append] at h
    cases h
    refine ⟨xs.takeWhile (fun s => !s.isNamed name) ++
      fused :: after.filter (fun s => !s.isNamed name), bind_eq_ok.2 ⟨fused, hfused, ?_⟩, ?_⟩
    · rw [hdrop]
      rfl
    · rw [htake, filter_append, hall, append_assoc, cons_append]

/-- What holds of all sections and of the joined one holds of the sections after joining. -/
lemma forall_fuseSections {Q : Stmt → Prop} {code code' : List Stmt} {fused : Stmt} {name : String}
    (hcode : ∀ s ∈ code, Q s) (hfused : Q fused)
    (h : (match code.dropWhile (fun s => !s.isNamed name) with
      | [] => pure code
      | _ :: after => pure (code.takeWhile (fun s => !s.isNamed name) ++
        fused :: after.filter (fun s => !s.isNamed name))) = (.ok code' : Outcome _)) : ∀ s ∈ code',
          Q s := by
  split at h
  · exact pure_eq_ok.1 h ▸ hcode
  · next hdrop =>
    rw [← pure_eq_ok.1 h]
    refine forall_mem_append.2 ⟨fun s hs => hcode s ((takeWhile_sublist _).subset hs),
      forall_mem_cons.2 ⟨hfused, fun s hs => ?_⟩⟩
    refine hcode s ((dropWhile_sublist fun s => !s.isNamed name).subset ?_)
    rw [hdrop]
    exact mem_cons_of_mem _ (mem_of_mem_filter hs)

/-! ## Loops that are joined -/

lemma forall_addToGroup {Q : LoopGroup → Prop} {index lower upper : Expr} {body : List Stmt}
    {groups : List LoopGroup} (hnew : Q ⟨index, lower, upper, [body]⟩)
    (hadd : ∀ g, Q g → Q { g with bodies := g.bodies ++ [body] }) (hgroups : ∀ g ∈ groups, Q g) :
    ∀ g ∈ addToGroup index lower upper body groups, Q g := by
  induction groups with
  | nil => exact forall_mem_singleton.2 hnew
  | cons g groups ih =>
    rw [forall_mem_cons] at hgroups
    rw [addToGroup]
    split
    · exact forall_mem_cons.2 ⟨hadd g hgroups.1, hgroups.2⟩
    · exact forall_mem_cons.2 ⟨hgroups.1, ih hgroups.2⟩

/-- What holds of a group of one loop and is kept when the body of another is added. -/
lemma forall_groupLoops {Q : LoopGroup → Prop} {body : List Stmt} {groups groups' : List LoopGroup}
    (hbody : ∀ {index lower upper inside}, Stmt.loop index lower upper inside ∈ body →
      Q ⟨index, lower, upper, [inside]⟩ ∧ ∀ g, Q g → Q { g with bodies := g.bodies ++ [inside] })
    (hgroups : ∀ g ∈ groups, Q g) (h : groupLoops body groups = .ok groups') :
    ∀ g ∈ groups', Q g := by
  induction body generalizing groups with
  | nil =>
    cases h
    exact hgroups
  | cons s body ih =>
    have hrest := fun {i l u b} hs => @hbody i l u b (mem_cons_of_mem s hs)
    cases s with
    | loop index lower upper inside =>
      obtain ⟨hnew, hadd⟩ := hbody mem_cons_self
      rw [groupLoops] at h
      split at h
      · exact ih hrest (forall_addToGroup hnew hadd hgroups) h
      · cases h
    | _ => exact ih hrest hgroups h

/-- Fuses the loops of a section that is annotated so. -/
def Stmt.fuse (s : Stmt) : Outcome Stmt :=
  if s.annotations.contains .fuse then fuseLoops s else .ok s

/-- Hoists from a section that is annotated so. -/
def Stmt.hoisted (s : Stmt) : Outcome Stmt :=
  if s.annotations.contains .licm then hoist s else .ok s

/-- A section is fused first and hoisted from after that. -/
lemma optimizeSection_eq_bind (s : Stmt) : optimizeSection s = s.fuse >>= Stmt.hoisted := by
  unfold optimizeSection Stmt.fuse
  dsimp only
  split <;> rfl

lemma optimizeSection_eq_ok {s t : Stmt} (h : optimizeSection s = .ok t) :
    ∃ u, (if s.annotations.contains .fuse then fuseLoops s else .ok s) = .ok u ∧
      (if u.annotations.contains .licm then hoist u else .ok u) = .ok t :=
  bind_eq_ok.1 ((optimizeSection_eq_bind s).symm.trans h)

end FormKernel.Kernel
