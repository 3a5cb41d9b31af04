import FormKernel.Graph.Vertices
import FormKernel.Proofs.Form.Equality
import Mathlib.Data.List.ReduceOption

/-!
# Subexpressions in post-order

The traversal with a stack numbers subexpressions in the order in which recursion meets them, from
left to right and operands first, passing over those that have a number.
-/

namespace FormKernel.Graph

open Form (Expr)
open List

/-! ## Recursion -/

mutual

/-- Appends the subexpressions of an expression that have not been seen, operands first. -/
def collect (whole : Bool) (seen : List Expr) : Expr → List Expr
  | .terminal t =>
    let e := Expr.terminal t
    if seen.contains e || e.isMark then seen else seen ++ [e]
  | .operator op ops shape fi dims =>
    let e := Expr.operator op ops shape fi dims
    if seen.contains e then seen
    else if whole && e.isModified then seen ++ [e]
    else collectAll whole seen ops ++ [e]

/-- Appends the subexpressions of expressions that have not been seen. -/
def collectAll (whole : Bool) (seen : List Expr) : List Expr → List Expr
  | [] => seen
  | e :: es => collectAll whole (collect whole seen e) es

end

mutual

theorem length_nodes_operand : ∀ {e o : Expr}, o ∈ e.operands → o.nodes.length < e.nodes.length
  | .terminal _, _, h => absurd h not_mem_nil
  | .operator _ ops .., _, h => by
    rw [Expr.nodes, length_cons]
    exact Nat.lt_succ_of_le (length_nodes_le h)

theorem length_nodes_le : ∀ {es : List Expr} {o : Expr}, o ∈ es →
    o.nodes.length ≤ (Expr.nodesOf es).length
  | [], _, h => absurd h not_mem_nil
  | e :: es, o, h => by
    rw [Expr.nodesOf, length_append]
    rcases mem_cons.1 h with rfl | h
    · exact Nat.le_add_right _ _
    · exact Nat.le_trans (length_nodes_le h) (Nat.le_add_left _ _)

end

/-- No expression is equal to one before it. -/
def Apart (es : List Expr) : Prop := es.Pairwise fun a b => (b == a) = false

variable {es seen : List Expr} {e : Expr} {i n : Nat}

lemma Apart.concat (h : Apart es) (he : ∀ x ∈ es, (e == x) = false) : Apart (es ++ [e]) :=
  pairwise_append.2 ⟨h, pairwise_singleton _ _, fun x hx _ hy =>
    mem_singleton.1 hy ▸ he x hx⟩

/-- What collecting the subexpressions of something with `n` nodes adds. -/
structure Collected (n : Nat) (seen out : List Expr) : Prop where
  kept : seen <+: out
  apart : Apart out
  small : ∀ x ∈ out, x ∈ seen ∨ x.nodes.length ≤ n

lemma collected_concat {out : List Expr} (h : Collected n seen out) (hn : n < e.nodes.length)
    (hseen : seen.contains e = false) :
    Collected e.nodes.length seen (out ++ [e]) where
  kept := h.kept.trans (prefix_append _ _)
  apart := h.apart.concat fun x hx => by
    rw [← Bool.not_eq_true]
    intro hex
    rcases h.small x hx with hx | hx
    · have hmem := contains_iff_exists_mem_beq.2 ⟨x, hx, hex⟩
      rw [hseen] at hmem
      exact Bool.false_ne_true hmem
    · have hlen := Expr.length_nodes_congr hex
      omega
  small x hx := by
    rcases mem_append.1 hx with hx | hx
    · exact (h.small x hx).imp_right fun hle => by omega
    · exact .inr (mem_singleton.1 hx ▸ Nat.le_refl _)

lemma Collected.refl (h : Apart seen) : Collected n seen seen :=
  ⟨prefix_refl _, h, fun _ hx => .inl hx⟩

mutual

theorem collected_collect (whole : Bool) : ∀ (e : Expr) {seen : List Expr}, Apart seen →
    Collected e.nodes.length seen (collect whole seen e)
  | .terminal t, seen, h => by
    rw [collect]
    split
    · exact .refl h
    · next hnew =>
      rw [Bool.or_eq_true, not_or] at hnew
      exact collected_concat (.refl (n := 0) h) (by simp [Expr.nodes]) (by simpa using hnew.1)
  | .operator op ops shape fi dims, seen, h => by
    have hlen : (Expr.nodesOf ops).length <
        (Expr.operator op ops shape fi dims).nodes.length := by
      rw [Expr.nodes, length_cons]
      omega
    rw [collect]
    split
    · exact .refl h
    · next hnew =>
      have hnew' := Bool.eq_false_iff.2 hnew
      split
      · exact collected_concat (.refl (n := 0) h) (by omega) hnew'
      · exact collected_concat (collected_collectAll whole ops h) hlen hnew'

theorem collected_collectAll (whole : Bool) : ∀ (es : List Expr) {seen : List Expr}, Apart seen →
    Collected (Expr.nodesOf es).length seen (collectAll whole seen es)
  | [], _, h => .refl h
  | e :: es, seen, h => by
    rw [collectAll, Expr.nodesOf, length_append]
    have hfirst := collected_collect whole e h
    have hrest := collected_collectAll whole es hfirst.apart
    refine ⟨hfirst.kept.trans hrest.kept, hrest.apart, fun x hx => ?_⟩
    rcases hrest.small x hx with hx | hx
    · exact (hfirst.small x hx).imp_right fun hle => by omega
    · exact .inr (by omega)

end

lemma apart_collectAll (whole : Bool) (es : List Expr) : Apart (collectAll whole [] es) :=
  (collected_collectAll whole es .nil).apart

lemma Apart.eq_of_beq (h : Apart es) {j : Nat} {a b : Expr} (hi : es[i]? = some a)
    (hj : es[j]? = some b) (hab : (a == b) = true) : i = j := by
  obtain ⟨hi', rfl⟩ := List.getElem?_eq_some_iff.1 hi
  obtain ⟨hj', rfl⟩ := List.getElem?_eq_some_iff.1 hj
  rcases Nat.lt_trichotomy i j with hlt | heq | hlt
  · have hne := pairwise_iff_getElem.1 h i j hi' hj' hlt
    simp [BEq.symm hab] at hne
  · exact heq
  · have hne := pairwise_iff_getElem.1 h j i hj' hi' hlt
    simp [hab] at hne

/-! ## The traversal with a stack -/

variable {whole : Bool} {ops ops' : List (Option Expr)} {o : Expr}

lemma collect_of_contains (h : seen.contains e = true) : collect whole seen e = seen := by
  cases e <;> simp [collect, h]

lemma collectAll_of_contains (h : ∀ e ∈ es, seen.contains e = true) :
    collectAll whole seen es = seen := by
  induction es with
  | nil => rfl
  | cons e es ih =>
    rw [forall_mem_cons] at h
    rw [collectAll, collect_of_contains h.1, ih h.2]

lemma collectAll_append (whole : Bool) (seen es es' : List Expr) :
    collectAll whole seen (es ++ es') = collectAll whole (collectAll whole seen es) es' := by
  induction es generalizing seen with
  | nil => rfl
  | cons e es ih => exact ih _

lemma collectAll_eq_foldl (whole : Bool) (seen es : List Expr) :
    collectAll whole seen es = es.foldl (collect whole) seen := by
  induction es generalizing seen with
  | nil => rfl
  | cons e es ih => exact ih _

/-- The operand that is taken out is the first without a number. -/
lemma takeNext_eq_some (h : takeNext seen ops = some (o, ops')) :
    ∃ before after, ops.reduceOption = before ++ o :: after ∧ ops'.reduceOption = before ++ after ∧
      ∀ x ∈ before, seen.contains x = true := by
  fun_induction takeNext seen ops generalizing ops' with
  | case1 => cases h
  | case2 x ops hx ih =>
    obtain ⟨⟨_, rest⟩, hrest, h⟩ := Option.map_eq_some_iff.1 h
    cases h
    obtain ⟨before, after, hops, hrest, hbefore⟩ := ih hrest
    refine ⟨x :: before, after, ?_, ?_, forall_mem_cons.2 ⟨hx, hbefore⟩⟩
    · rw [reduceOption_cons_of_some, hops, cons_append]
    · rw [reduceOption_cons_of_some, hrest, cons_append]
  | case3 x ops hx =>
    cases h
    exact ⟨[], ops.reduceOption, rfl, rfl, forall_mem_nil _⟩
  | case4 ops ih =>
    obtain ⟨⟨_, rest⟩, hrest, h⟩ := Option.map_eq_some_iff.1 h
    cases h
    rw [reduceOption_cons_of_none, reduceOption_cons_of_none]
    exact ih hrest

lemma takeNext_eq_none (h : takeNext seen ops = none) :
    ∀ x ∈ ops.reduceOption, seen.contains x = true := by
  fun_induction takeNext seen ops with
  | case1 => exact forall_mem_nil _
  | case2 x ops hx ih =>
    rw [reduceOption_cons_of_some]
    exact forall_mem_cons.2 ⟨hx, ih (Option.map_eq_none_iff.1 h)⟩
  | case3 => cases h
  | case4 ops ih => exact ih (Option.map_eq_none_iff.1 h)

/-- What is left to do for a frame: its operands are collected, then its expression is. -/
def finish (whole : Bool) (seen : List Expr) (f : Frame) : List Expr :=
  if seen.contains f.expr then seen
  else collectAll whole seen f.operands.reduceOption ++ if f.expr.isMark then [] else [f.expr]

lemma reduceOption_of (whole : Bool) (e : Expr) :
    (Frame.of whole e).operands.reduceOption = visited whole e := by
  simp [Frame.of, reduceOption]

/-- An expression that has just been put on the stack is collected. -/
lemma finish_of (whole : Bool) (seen : List Expr) (e : Expr) :
    finish whole seen (.of whole e) = collect whole seen e := by
  rw [finish, reduceOption_of, visited]
  cases e with
  | terminal t =>
    rw [collect]
    cases hseen : seen.contains (Expr.terminal t) <;> cases hmark : (Expr.terminal t).isMark <;>
      simp [Frame.of, Expr.operands, collectAll, hseen, hmark]
  | operator op ops shape fi dims =>
    rw [collect]
    cases hseen : seen.contains (Expr.operator op ops shape fi dims) <;>
      cases whole && (Expr.operator op ops shape fi dims).isModified <;>
      simp [Frame.of, Expr.operands, Expr.isMark, collectAll, hseen]

/-- The operands of a frame are smaller than its expression. -/
def Frame.Fits (f : Frame) : Prop :=
  ∀ o ∈ f.operands.reduceOption, o.nodes.length < f.expr.nodes.length

lemma fits_of (whole : Bool) (e : Expr) : (Frame.of whole e).Fits := by
  rw [Frame.Fits, reduceOption_of, visited]
  intro o ho
  split at ho
  · cases ho
  · exact length_nodes_operand ho

/-- Collecting smaller expressions does not collect an expression. -/
lemma contains_collect (hseen : Apart seen) (ho : o.nodes.length < e.nodes.length)
    (he : seen.contains e = false) : (collect whole seen o).contains e = false := by
  rw [Bool.eq_false_iff] at he ⊢
  intro hmem
  obtain ⟨x, hx, hex⟩ := contains_iff_exists_mem_beq.1 hmem
  rcases (collected_collect whole o hseen).small x hx with hx | hx
  · exact he (contains_iff_exists_mem_beq.2 ⟨x, hx, hex⟩)
  · have hlength := Expr.length_nodes_congr hex
    omega

/-- A step of the traversal: taking out an operand and collecting it first changes nothing. -/
lemma finish_takeNext (hseen : Apart seen) (hfits : Frame.Fits ⟨e, ops⟩)
    (he : seen.contains e = false) (h : takeNext seen ops = some (o, ops')) :
    finish whole (collect whole seen o) ⟨e, ops'⟩ = finish whole seen ⟨e, ops⟩ := by
  obtain ⟨before, after, hops, hops', hbefore⟩ := takeNext_eq_some h
  have ho : o.nodes.length < e.nodes.length := hfits o (by simp [hops])
  have hkept := (collected_collect whole o hseen).kept
  have hbefore' : ∀ x ∈ before, (collect whole seen o).contains x = true := by
    intro x hx
    obtain ⟨w, hw, hxw⟩ := contains_iff_exists_mem_beq.1 (hbefore x hx)
    exact contains_iff_exists_mem_beq.2 ⟨w, hkept.subset hw, hxw⟩
  have hcollect : collectAll whole (collect whole seen o) (before ++ after) =
      collectAll whole seen (before ++ o :: after) := by
    rw [collectAll_append, collectAll_append, collectAll_of_contains hbefore',
      collectAll_of_contains hbefore, collectAll]
  rw [finish, finish, he, contains_collect hseen ho he, hops, hops', hcollect,
    if_neg Bool.false_ne_true, if_neg Bool.false_ne_true]

/-- The stack is worked off from the top. -/
lemma traverseFrom_eq_foldl {stack : List Frame} (hseen : Apart seen)
    (hstack : ∀ f ∈ stack, f.Fits) :
    traverseFrom whole seen stack = stack.foldl (finish whole) seen := by
  fun_induction traverseFrom whole seen stack with
  | case1 => rfl
  | case2 seen e ops stack he ih =>
    rw [ih hseen (forall_mem_cons.1 hstack).2, foldl_cons, finish, if_pos he]
  | case3 seen e ops stack he o ops' h ih =>
    have hfits := forall_mem_cons.1 hstack
    have hleft : Frame.Fits ⟨e, ops'⟩ := by
      obtain ⟨before, after, hops, hops', -⟩ := takeNext_eq_some h
      intro x hx
      refine hfits.1 x ?_
      rw [hops'] at hx
      rw [hops]
      exact mem_append.2 ((mem_append.1 hx).imp_right (mem_cons_of_mem _))
    rw [ih hseen (forall_mem_cons.2 ⟨fits_of whole o, forall_mem_cons.2 ⟨hleft, hfits.2⟩⟩),
      foldl_cons,
      foldl_cons, foldl_cons, finish_of, finish_takeNext hseen hfits.1 (Bool.eq_false_iff.2 he) h]
  | case4 seen e ops stack he h ih =>
    have hfinish : finish whole seen ⟨e, ops⟩ = if e.isMark then seen else seen ++ [e] := by
      rw [finish, if_neg he, collectAll_of_contains (takeNext_eq_none h)]
      split <;> simp
    have hnew : Apart (if e.isMark then seen else seen ++ [e]) := by
      split
      · exact hseen
      · refine hseen.concat fun x hx => Bool.eq_false_iff.2 fun hex => he ?_
        exact contains_iff_exists_mem_beq.2 ⟨x, hx, hex⟩
    rw [dite_eq_ite] at ih
    rw [ih hnew (forall_mem_cons.1 hstack).2, foldl_cons, hfinish]

/-- The traversal with a stack meets subexpressions as recursion does. -/
lemma traverse_eq_collectAll (whole : Bool) (es : List Expr) :
    traverse whole es = collectAll whole [] es := by
  have hfits : ∀ f ∈ es.map (Frame.of whole), f.Fits := forall_mem_map.2 fun e _ => fits_of whole e
  rw [traverse, traverseFrom_eq_foldl .nil hfits, foldl_map, collectAll_eq_foldl]
  simp only [finish_of]

end FormKernel.Graph
