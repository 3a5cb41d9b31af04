import FormKernel.Factor.Dependencies
import FormKernel.Proofs.Graph.Scalar
import Mathlib.Logic.Relation

/-!
# Dependencies of factors

The search along edges ends with exactly the nodes that can be reached from a target, and the search
against edges with exactly the active nodes that lead to a varying table.  Neither search keeps
track of the nodes that wait, so their steps are counted by edges: an edge lets a node wait only
when the node at its start is marked for the first time.  For the search along edges this rests on
the order in which nodes wait: when a marked node is taken again, everything that its edges lead to
was taken before.
-/

namespace FormKernel

open List

/-- The edges that come into nodes are those that go out of nodes. -/
def Graph.Mutual {α : Type} (g : Graph Nat α) : Prop := ∀ i j : Nat, i ∈ g.into j ↔ j ∈ g.out i

/-- Adding edges between nodes keeps both lists of edges in step. -/
lemma Graph.mutual_addEdges {α : Type} (vs : List α) (es : List (Nat × Nat)) {g : Graph Nat α}
    (h : es.foldlM (fun g e => g.addEdge e.1 e.2) (Graph.ofVertices vs) = .ok g) : g.Mutual := by
  have hout := (Graph.out_addEdges (Graph.listed_ofVertices vs) h).2.2
  have hturned : Graph.Listed (Graph.turned (Graph.ofVertices vs)) := Graph.listed_ofVertices vs
  have hinto := Graph.into_addEdges hturned h
  have hnone : ∀ c, (Graph.ofVertices vs).into c = [] := Graph.out_ofVertices vs
  intro i j
  rw [hout, hinto, Graph.out_ofVertices, hnone]
  simp

/-- A node can be reached from another along edges. -/
def Graph.Reaches {α : Type} (g : Graph Nat α) : Nat → Nat → Prop :=
  Relation.ReflTransGen fun i j => j ∈ g.out i

namespace Factor

/-! ## Searches -/

/-- A search that has something to lose at every step comes to its end, and keeps what every step
    keeps. -/
lemma Search.run_ends {step : Search → Option Search} (Inv : Search → Prop) (size : Search → Nat)
    (hstep : ∀ {s t}, Inv s → step s = some t → Inv t ∧ size t < size s) {n : Nat} {s : Search}
    (hs : Inv s) (hn : size s ≤ n) : Inv (Search.run step n s) ∧
      step (Search.run step n s) = none := by
  induction n generalizing s with
  | zero =>
    refine ⟨hs, ?_⟩
    cases ht : step s with
    | none => exact ht
    | some t =>
      have hlt := (hstep hs ht).2
      omega
  | succ n ih =>
    rw [Search.run]
    cases ht : step s with
    | none => exact ⟨hs, ht⟩
    | some t =>
      obtain ⟨hinv, hlt⟩ := hstep hs ht
      exact ih hinv (by omega)

/-- The edges of the nodes that are not marked. -/
def pending (edges : List (Nat × List Nat)) (marked : List Nat) : Nat :=
  edgeCount (edges.filter fun e => !marked.contains e.1)

lemma pending_nil (edges : List (Nat × List Nat)) : pending edges [] = edgeCount edges := by
  simp [pending]

lemma pending_cons (k : Nat) (js : List Nat) (edges : List (Nat × List Nat)) (marked : List Nat) :
    pending ((k, js) :: edges) marked = (if k ∈ marked then 0 else js.length) +
      pending edges marked := by
  unfold pending edgeCount
  by_cases hk : k ∈ marked <;> simp [hk]

/-- The edges of a node are no longer pending once it is marked. -/
lemma pending_mark_le {s : Nat} {marked : List Nat} (hs : s ∉ marked)
    (edges : List (Nat × List Nat)) :
    pending edges (s :: marked) + ((edges.lookup s).getD []).length ≤ pending edges marked := by
  induction edges with
  | nil => simp [pending]
  | cons e edges ih =>
    obtain ⟨k, js⟩ := e
    rw [pending_cons, pending_cons, lookup_cons]
    by_cases hk : s = k
    · subst hk
      simp only [beq_self_eq_true, Option.getD_some, mem_cons_self, if_true, hs, if_false]
      omega
    · have hsame : k ∈ s :: marked ↔ k ∈ marked := by simp [Ne.symm hk]
      rw [beq_false_of_ne hk]
      simp only [hsame]
      omega

section Along

variable {α : Type} {g : Graph Nat α} {start : List Nat} {j s : Nat} {marked : List Nat}

lemma Search.mem_mark : j ∈ Search.mark s marked ↔ j = s ∨ j ∈ marked := by
  unfold Search.mark
  split
  · next h =>
    rw [contains_iff_mem] at h
    exact ⟨.inr, fun hj => hj.elim (fun he => he ▸ h) id⟩
  · exact mem_cons

/-- What a search along edges keeps. -/
structure Activating (g : Graph Nat α) (start : List Nat) (s : Search) : Prop where
  begun : ∀ i ∈ start, i ∈ s.marked ∨ i ∈ s.waiting
  reached : ∀ i, i ∈ s.marked ∨ i ∈ s.waiting → ∃ t ∈ start, g.Reaches t i
  followed : ∀ i ∈ s.marked, ∀ j ∈ g.out i, j ∈ s.marked ∨ j ∈ s.waiting
  /-- Whatever a marked node leads to is marked or waits before it. -/
  ahead : ∀ {before : List Nat} {i : Nat} {after : List Nat}, s.waiting = before ++ i :: after →
    i ∈ s.marked → ∀ j ∈ g.out i, j ∈ s.marked ∨ j ∈ before

lemma activating_start (g : Graph Nat α) (start : List Nat) :
    Activating g start { waiting := start.reverse } where
  begun i hi := .inr (mem_reverse.2 hi)
  reached i hi := ⟨i, by simpa using hi, .refl⟩
  followed i hi := absurd hi not_mem_nil
  ahead _ hi := absurd hi not_mem_nil

/-- The ends of edges that a step lets wait. -/
def released (g : Graph Nat α) (s : Nat) (marked : List Nat) : List Nat :=
  ((g.out s).filter fun j => !(Search.mark s marked).contains j).reverse

lemma mem_released : j ∈ released g s marked ↔ j ∈ g.out s ∧ j ∉ Search.mark s marked := by
  simp [released]

lemma activateStep_cons (s : Nat) (waiting marked : List Nat) :
    activateStep g ⟨s :: waiting, marked⟩ =
      some ⟨released g s marked ++ waiting, Search.mark s marked⟩ := rfl

lemma mem_mark_or_released (h : j ∈ g.out s) : j ∈ Search.mark s marked ∨
    j ∈ released g s marked := by
  by_cases hj : j ∈ Search.mark s marked
  · exact .inl hj
  · exact .inr (mem_released.2 ⟨h, hj⟩)

lemma mem_mark_or_waiting {waiting : List Nat} (h : j ∈ marked ∨ j ∈ s :: waiting) :
    j ∈ Search.mark s marked ∨ j ∈ released g s marked ++ waiting := by
  rcases h with hmem | hmem
  · exact .inl (Search.mem_mark.2 (.inr hmem))
  · rcases mem_cons.1 hmem with rfl | hmem
    · exact .inl (Search.mem_mark.2 (.inl rfl))
    · exact .inr (mem_append_right _ hmem)

lemma Activating.step {s : Nat} {waiting marked : List Nat}
    (h : Activating g start ⟨s :: waiting, marked⟩) :
    Activating g start ⟨released g s marked ++ waiting, Search.mark s marked⟩ where
  begun i hi := mem_mark_or_waiting (h.begun i hi)
  reached i hi := by
    obtain ⟨t, ht, hts⟩ := h.reached s (.inr mem_cons_self)
    rcases hi with hi | hi
    · rcases Search.mem_mark.1 hi with rfl | hi
      · exact ⟨t, ht, hts⟩
      · exact h.reached i (.inl hi)
    · rcases mem_append.1 hi with hi | hi
      · exact ⟨t, ht, hts.tail (mem_released.1 hi).1⟩
      · exact h.reached i (.inr (mem_cons_of_mem s hi))
  followed i hi j hj := by
    rcases Search.mem_mark.1 hi with rfl | hi
    · exact (mem_mark_or_released hj).imp_right (mem_append_left _)
    · exact mem_mark_or_waiting (h.followed i hi j hj)
  ahead {before i after} hsplit hi j hj := by
    dsimp only at hsplit hi
    rcases append_eq_append_iff.1 hsplit with ⟨mid, rfl, hmid⟩ | ⟨mid, hmid, -⟩
    · -- the node waited before this step
      rcases Search.mem_mark.1 hi with rfl | hi
      · exact (mem_mark_or_released hj).imp_right (mem_append_left _)
      · have hold : s :: waiting = (s :: mid) ++ i :: after := by rw [hmid]; rfl
        exact mem_mark_or_waiting (h.ahead hold hi j hj)
    · -- only nodes that are not marked are released
      cases mid with
      | nil =>
        rw [append_nil] at hmid
        subst hmid
        rw [append_cancel_left_eq] at hsplit
        rcases Search.mem_mark.1 hi with rfl | hi
        · exact mem_mark_or_released hj
        · have hold : s :: waiting = [s] ++ i :: after := by rw [hsplit]; rfl
          rcases h.ahead hold hi j hj with hmem | hmem
          · exact .inl (Search.mem_mark.2 (.inr hmem))
          · exact .inl (Search.mem_mark.2 (.inl (mem_singleton.1 hmem)))
      | cons k mid =>
        rw [hmid, append_assoc, append_cancel_left_eq, cons_append, cons.injEq] at hsplit
        have hmem : i ∈ released g s marked := by
          rw [hmid, ← hsplit.1]
          simp
        exact absurd hi (mem_released.1 hmem).2

/-- A step along edges loses a waiting node or an edge that is pending. -/
lemma Activating.size_lt {waiting : List Nat} (h : Activating g start ⟨s :: waiting, marked⟩) :
    pending g.outEdges (Search.mark s marked) + (released g s marked ++ waiting).length <
      pending g.outEdges marked + (s :: waiting).length := by
  rw [length_append, length_cons]
  by_cases hs : s ∈ marked
  · -- nothing is ahead of the node, so its edges lead to marked nodes only
    have hmark : Search.mark s marked = marked := by simp [Search.mark, hs]
    have hnone : released g s marked = [] := by
      rw [eq_nil_iff_forall_not_mem]
      intro j hj
      obtain ⟨hout, hnew⟩ := mem_released.1 hj
      rw [hmark] at hnew
      have hfirst : s :: waiting = [] ++ s :: waiting := rfl
      rcases h.ahead hfirst hs j hout with hmem | hmem
      · exact hnew hmem
      · exact absurd hmem not_mem_nil
    rw [hmark, hnone, length_nil]
    omega
  · have hmark : Search.mark s marked = s :: marked := by simp [Search.mark, hs]
    have hle : (released g s marked).length ≤ (g.out s).length := by
      rw [released, length_reverse]
      exact length_filter_le ..
    have hpending := pending_mark_le hs g.outEdges
    rw [hmark]
    unfold Graph.out at hle
    omega

lemma waiting_of_activateStep {s : Search} (h : activateStep g s = none) : s.waiting = [] := by
  obtain ⟨_ | ⟨i, waiting⟩, marked⟩ := s
  · rfl
  · cases h

variable {n : Nat}

lemma activate_ends (g : Graph Nat α) (start : List Nat)
    (hn : start.length + edgeCount g.outEdges ≤ n) :
    Activating g start (Search.run (activateStep g) n { waiting := start.reverse }) ∧
      activateStep g (Search.run (activateStep g) n { waiting := start.reverse }) = none := by
  refine Search.run_ends (Activating g start)
    (fun s => pending g.outEdges s.marked + s.waiting.length) ?_ (activating_start g start) ?_
  · intro s t hs ht
    obtain ⟨_ | ⟨i, waiting⟩, marked⟩ := s
    · cases ht
    · rw [activateStep_cons] at ht
      cases ht
      exact ⟨hs.step, hs.size_lt⟩
  · rw [pending_nil, length_reverse]
    omega

/-- The search along edges comes to its end with the nodes that can be reached. -/
lemma mem_marked_activate (hn : start.length + edgeCount g.outEdges ≤ n) (i : Nat) :
    i ∈ (Search.run (activateStep g) n { waiting := start.reverse }).marked ↔
      ∃ t ∈ start, g.Reaches t i := by
  obtain ⟨hinv, hend⟩ := activate_ends g start hn
  generalize Search.run (activateStep g) n { waiting := start.reverse } = s at hinv hend ⊢
  have hnone := waiting_of_activateStep hend
  constructor
  · exact fun hi => hinv.reached i (.inl hi)
  · rintro ⟨t, ht, hti⟩
    induction hti with
    | refl => simpa [hnone] using hinv.begun t ht
    | tail _ hstep ih => simpa [hnone] using hinv.followed _ ih _ hstep

end Along

section Against

variable {α : Type} {g : Graph Nat α} {active start : List Nat}

/-- What a search against edges among active nodes keeps. -/
structure Spreading (g : Graph Nat α) (active start : List Nat) (s : Search) : Prop where
  begun : ∀ i ∈ start, i ∈ active → i ∈ s.marked ∨ i ∈ s.waiting
  among : ∀ i ∈ s.marked, i ∈ active
  leads : ∀ i, i ∈ s.marked ∨ i ∈ s.waiting → ∃ t ∈ start, g.Reaches i t
  followed : ∀ j ∈ s.marked, ∀ i ∈ g.into j, i ∈ active → i ∈ s.marked ∨ i ∈ s.waiting

lemma spreading_start (g : Graph Nat α) (active start : List Nat) :
    Spreading g active start { waiting := start.reverse } where
  begun i hi _ := .inr (mem_reverse.2 hi)
  among i hi := absurd hi not_mem_nil
  leads i hi := ⟨i, by simpa using hi, .refl⟩
  followed j hj := absurd hj not_mem_nil

variable {s : Search} {i n : Nat} {marked waiting : List Nat}

lemma spreadStep_cases {t : Search} (h : spreadStep g active s = some t) :
    ∃ i waiting, s.waiting = i :: waiting ∧
      ((i ∈ active ∧ i ∉ s.marked ∧ t = ⟨(g.into i).reverse ++ waiting, i :: s.marked⟩) ∨
        ((i ∈ active → i ∈ s.marked) ∧ t = ⟨waiting, s.marked⟩)) := by
  obtain ⟨_ | ⟨i, waiting⟩, marked⟩ := s
  · cases h
  · refine ⟨i, waiting, rfl, ?_⟩
    rw [spreadStep] at h
    split at h
    · next hnew =>
      obtain ⟨hact, hfresh⟩ : i ∈ active ∧ i ∉ marked := by simpa using hnew
      exact .inl ⟨hact, hfresh, (Option.some.inj h).symm⟩
    · next hold =>
      refine .inr ⟨fun hi => ?_, (Option.some.inj h).symm⟩
      simpa [hi] using hold

lemma waiting_of_spreadStep (h : spreadStep g active s = none) : s.waiting = [] := by
  obtain ⟨_ | ⟨i, waiting⟩, marked⟩ := s
  · rfl
  · rw [spreadStep] at h
    split at h <;> cases h

/-- A node that need not be marked is no longer waited for. -/
lemma Spreading.skip (h : Spreading g active start ⟨i :: waiting, marked⟩)
    (hi : i ∈ active → i ∈ marked) : Spreading g active start ⟨waiting, marked⟩ := by
  have hdrop : ∀ k, k ∈ active → k ∈ marked ∨ k ∈ i :: waiting → k ∈ marked ∨ k ∈ waiting := by
    intro k hk hmem
    rcases hmem with hmem | hmem
    · exact .inl hmem
    · rcases mem_cons.1 hmem with rfl | hmem
      · exact .inl (hi hk)
      · exact .inr hmem
  exact {
    begun := fun k hk hact => hdrop k hact (h.begun k hk hact)
    among := h.among
    leads := fun k hk => h.leads k (hk.imp_right (mem_cons_of_mem i))
    followed := fun j hj k hk hact => hdrop k hact (h.followed j hj k hk hact) }

lemma Spreading.spread (hg : g.Mutual) (h : Spreading g active start ⟨i :: waiting, marked⟩)
    (hi : i ∈ active) : Spreading g active start ⟨(g.into i).reverse ++ waiting, i :: marked⟩ := by
  have hmove : ∀ k, k ∈ marked ∨ k ∈ i :: waiting →
      k ∈ i :: marked ∨ k ∈ (g.into i).reverse ++ waiting := by
    intro k hmem
    rw [mem_cons] at hmem ⊢
    rw [mem_append]
    rcases hmem with hmem | hmem | hmem
    · exact .inl (.inr hmem)
    · exact .inl (.inl hmem)
    · exact .inr (.inr hmem)
  exact {
    begun := fun k hk hact => hmove k (h.begun k hk hact)
    among := fun k hk => (mem_cons.1 hk).elim (fun he => he ▸ hi) (h.among k)
    leads := by
      obtain ⟨t, ht, hit⟩ := h.leads i (.inr mem_cons_self)
      intro k hk
      rw [mem_cons, mem_append, mem_reverse] at hk
      rcases hk with (rfl | hk) | hk | hk
      · exact ⟨t, ht, hit⟩
      · exact h.leads k (.inl hk)
      · exact ⟨t, ht, hit.head ((hg k i).1 hk)⟩
      · exact h.leads k (.inr (mem_cons_of_mem i hk))
    followed := by
      intro j hj k hk hact
      rcases mem_cons.1 hj with rfl | hj
      · exact .inr (mem_append_left _ (mem_reverse.2 hk))
      · exact hmove k (h.followed j hj k hk hact) }

lemma spread_ends (hg : g.Mutual) (active start : List Nat)
    (hn : start.length + edgeCount g.inEdges ≤ n) :
    Spreading g active start (Search.run (spreadStep g active) n { waiting := start.reverse }) ∧
      spreadStep g active (Search.run (spreadStep g active) n { waiting := start.reverse }) =
        none := by
  refine Search.run_ends (Spreading g active start)
    (fun s => pending g.inEdges s.marked + s.waiting.length) ?_ (spreading_start g active start) ?_
  · intro s t hs ht
    obtain ⟨waiting, marked⟩ := s
    obtain ⟨i, rest, rfl, ⟨hact, hnew, rfl⟩ | ⟨hold, rfl⟩⟩ := spreadStep_cases ht
    · refine ⟨hs.spread hg hact, ?_⟩
      have hpending : pending g.inEdges (i :: marked) + ((g.inEdges.lookup i).getD []).length ≤
          pending g.inEdges marked := pending_mark_le hnew g.inEdges
      simp only [Graph.into, length_append, length_reverse, length_cons]
      omega
    · refine ⟨hs.skip hold, ?_⟩
      simp only [length_cons]
      omega
  · rw [pending_nil, length_reverse]
    omega

/-- The search against edges comes to its end with the active nodes that lead to a node to start
    from, provided that active nodes lead to active nodes only. -/
lemma mem_marked_spread (hg : g.Mutual) (hclosed : ∀ i ∈ active, ∀ j ∈ g.out i, j ∈ active)
    (hn : start.length + edgeCount g.inEdges ≤ n) (i : Nat) :
    i ∈ (Search.run (spreadStep g active) n { waiting := start.reverse }).marked ↔
      i ∈ active ∧ ∃ t ∈ start, g.Reaches i t := by
  obtain ⟨hinv, hend⟩ := spread_ends hg active start hn
  generalize Search.run (spreadStep g active) n { waiting := start.reverse } = s at hinv hend ⊢
  have hnone := waiting_of_spreadStep hend
  constructor
  · exact fun hi => ⟨hinv.among i hi, hinv.leads i (.inl hi)⟩
  · rintro ⟨hi, t, ht, hit⟩
    -- backwards along the path, which stays among active nodes
    induction hit using Relation.ReflTransGen.head_induction_on with
    | refl => simpa [hnone] using hinv.begun t ht hi
    | head hstep _ ih =>
      have hnext := ih (hclosed _ hi _ hstep)
      simpa [hnone] using hinv.followed _ hnext _ ((hg _ _).2 hstep) hi

end Against

/-! ## Statuses -/

/-- A factor carries a table that varies over the points. -/
def FactorVertex.Varies (v : FactorVertex) : Prop :=
  v.terminal.isSome ∧ ∃ t, v.table = some t ∧
    (t.kind = .varying ∨ t.kind = .quadrature ∨ t.kind = .uniform)

/-- A terminal without a table is the same at all points. -/
def FactorVertex.IsKnown (v : FactorVertex) : Prop :=
  v.terminal.isSome → v.table = none → v.expr.isCellwiseConstant

lemma variesOverPoints_iff (k : Table.TableKind) :
    variesOverPoints k = true ↔ k = .varying ∨ k = .quadrature ∨ k = .uniform := by
  cases k <;> simp [variesOverPoints]

lemma exists_addVarying {n : Nat × FactorVertex} (hn : n.2.IsKnown) (out : List Nat) :
    ∃ out', addVarying out n = .ok out' ∧ ∀ i, i ∈ out' ↔ i ∈ out ∨ i = n.1 ∧ n.2.Varies := by
  unfold addVarying FactorVertex.Varies
  split
  · next h => exact ⟨out, rfl, by simp [h]⟩
  · next t h ht =>
    refine ⟨_, rfl, fun i => ?_⟩
    simp only [h, ht, Option.isSome_some, Option.some.injEq, exists_eq_left', true_and,
      ← variesOverPoints_iff]
    split <;> simp_all
  · next h ht =>
    rw [if_pos (hn (by simp [h]) ht)]
    exact ⟨out, rfl, by simp [ht]⟩

section Status

variable {active varying : List Nat} {i : Nat}

lemma statusOf_eq_varying : statusOf active varying i = .varying ↔ i ∈ varying := by
  unfold statusOf
  by_cases hvar : i ∈ varying <;> by_cases hact : i ∈ active <;> simp [hvar, hact]

lemma statusOf_eq_piecewise : statusOf active varying i = .piecewise ↔ i ∈ active ∧
    i ∉ varying := by
  unfold statusOf
  by_cases hvar : i ∈ varying <;> by_cases hact : i ∈ active <;> simp [hvar, hact]

lemma statusOf_eq_inactive : statusOf active varying i = .inactive ↔ i ∉ active ∧ i ∉ varying := by
  unfold statusOf
  by_cases hvar : i ∈ varying <;> by_cases hact : i ∈ active <;> simp [hvar, hact]

end Status

section Analysis

variable {g : Graph Nat FactorVertex}

/-- The node is the factor of a product of arguments. -/
def IsTarget (g : Graph Nat FactorVertex) (i : Nat) : Prop := ∃ v, (i, v) ∈ g.nodes ∧ v.targets ≠ []

/-- The node carries a table that varies over the points. -/
def IsVarying (g : Graph Nat FactorVertex) (i : Nat) : Prop := ∃ v, (i, v) ∈ g.nodes ∧ v.Varies

/-- A target leads to the node. -/
def IsActive (g : Graph Nat FactorVertex) (i : Nat) : Prop := ∃ t, IsTarget g t ∧ g.Reaches t i

/-- The node leads to a table that varies over the points. -/
def LeadsToVarying (g : Graph Nat FactorVertex) (i : Nat) : Prop :=
  ∃ t, IsVarying g t ∧ g.Reaches i t

variable {i j : Nat}

lemma IsActive.out (h : IsActive g i) (hj : j ∈ g.out i) : IsActive g j := by
  obtain ⟨t, ht, hti⟩ := h
  exact ⟨t, ht, hti.tail hj⟩

lemma LeadsToVarying.of_out (h : LeadsToVarying g j) (hj : j ∈ g.out i) : LeadsToVarying g i := by
  obtain ⟨t, ht, hjt⟩ := h
  exact ⟨t, ht, hjt.head hj⟩

lemma mem_activeSearch (i : Nat) : i ∈ (activeSearch g).marked ↔ IsActive g i := by
  have hmem : ∀ t, t ∈ targetNodes g ↔ IsTarget g t := by simp [targetNodes, IsTarget]
  rw [activeSearch, mem_marked_activate (Nat.le_refl _)]
  simp only [hmem, IsActive]

/-- The nodes whose own tables vary are found. -/
lemma exists_varyingTerminals (h : ∀ n ∈ g.nodes, n.2.IsKnown) :
    ∃ start, varyingTerminals g = .ok start ∧ ∀ i, i ∈ start ↔ IsVarying g i := by
  obtain ⟨start, hstart⟩ : ∃ start, varyingTerminals g = .ok start :=
    exists_foldlM fun n hn out => (exists_addVarying (h n hn) out).imp fun _ hout => hout.1
  refine ⟨start, hstart, ?_⟩
  refine foldlM_prefix (fun done out => ∀ i, i ∈ out ↔ ∃ v, (i, v) ∈ done ∧ v.Varies) (by simp) ?_
    hstart
  intro done n rest out out' hnodes hdone hstep
  obtain ⟨out'', hout, hmem⟩ := exists_addVarying (h n (by simp [hnodes])) out
  obtain rfl : out' = out'' := Except.ok.inj (hstep.symm.trans hout)
  intro i
  rw [hmem i, hdone i]
  simp only [mem_append, mem_singleton, or_and_right, exists_or]
  refine or_congr_right ⟨?_, ?_⟩
  · rintro ⟨rfl, hv⟩
    exact ⟨n.2, rfl, hv⟩
  · rintro ⟨v, rfl, hv⟩
    exact ⟨rfl, hv⟩

lemma mem_varyingSearch (hg : g.Mutual) {start : List Nat} (hstart : ∀ i, i ∈ start ↔ IsVarying g i)
    (i : Nat) : i ∈ (varyingSearch g (activeSearch g).marked start).marked ↔
      IsActive g i ∧ LeadsToVarying g i := by
  have hclosed : ∀ i ∈ (activeSearch g).marked, ∀ j ∈ g.out i, j ∈ (activeSearch g).marked := by
    simp only [mem_activeSearch]
    exact fun i hi j hj => hi.out hj
  rw [varyingSearch, mem_marked_spread hg hclosed (Nat.le_refl _), mem_activeSearch]
  simp only [hstart, LeadsToVarying]

/-- Both searches come to their ends, and every factor has exactly the status that it should have:
    it is active if a target leads to it, and an active factor varies if it leads to a table that
    varies.  So piecewise factors have piecewise operands only, and operands of active factors are
    active. -/
theorem analyse_status (hg : g.Mutual) (hknown : ∀ n ∈ g.nodes, n.2.IsKnown) :
    (activateStep g (activeSearch g) = none ∧
      ∃ start, varyingTerminals g = .ok start ∧
        spreadStep g (activeSearch g).marked
          (varyingSearch g (activeSearch g).marked start) = none) ∧
    ∃ status : Nat → Status,
      analyse g = .ok (g.mapData fun i v => { v with status := some (status i) }) ∧
      (∀ i, (status i = .inactive ↔ ¬ IsActive g i) ∧
        (status i = .varying ↔ IsActive g i ∧ LeadsToVarying g i) ∧
        (status i = .piecewise ↔ IsActive g i ∧ ¬ LeadsToVarying g i)) ∧
      (∀ i, status i = .piecewise → ∀ j ∈ g.out i, status j = .piecewise) ∧
      ∀ i, status i = .varying → ∀ j ∈ g.out i, status j = .piecewise ∨ status j = .varying := by
  obtain ⟨start, hstart, hmem⟩ := exists_varyingTerminals hknown
  refine ⟨⟨(activate_ends g (targetNodes g) (Nat.le_refl _)).2, start, hstart,
    (spread_ends hg (activeSearch g).marked start (Nat.le_refl _)).2⟩, ?_⟩
  have hact := mem_activeSearch (g := g)
  have hvar := mem_varyingSearch hg hmem
  refine ⟨statusOf (activeSearch g).marked (varyingSearch g (activeSearch g).marked start).marked,
    ?_, fun i => ?_, fun i hi j hj => ?_, fun i hi j hj => ?_⟩
  · unfold analyse
    rw [hstart]
    rfl
  · simp only [statusOf_eq_inactive, statusOf_eq_varying, statusOf_eq_piecewise, hact, hvar]
    tauto
  · simp only [statusOf_eq_piecewise, hact, hvar] at hi ⊢
    exact ⟨hi.1.out hj, fun hj' => hi.2 ⟨hi.1, hj'.2.of_out hj⟩⟩
  · simp only [statusOf_eq_varying, statusOf_eq_piecewise, hact, hvar] at hi ⊢
    have hactive := hi.1.out hj
    tauto

end Analysis

def constantFactor (count : Int) : FactorVertex where
  expr := .terminal (.constant false count none [])
  terminal := some { terminal := .constant false count none [] }

def variedFactor (count : Int) : FactorVertex :=
  { constantFactor count with table := some { name := "FE", values := ⟨[1, 1, 2, 1], #[0, 1]⟩ } }

/-- Factors among which targets (4 and 5) share operands, an edge is doubled, one factor has an edge
    to itself, and the last is not needed though it varies and leads to all others. -/
def sharedFactors : Graph Nat FactorVertex where
  nodes := [(0, variedFactor 0), (1, constantFactor 1), (2, { expr := .terminal .zero }),
    (3, { expr := .terminal .zero }), (4, { expr := .terminal .zero, targets := [[0]] }),
    (5, { expr := .terminal .zero, targets := [[0], [1]] }), (6, variedFactor 2)]
  outEdges := [(0, []), (1, []), (2, [0, 1]), (3, [1, 1, 3]), (4, [2, 3]), (5, [3]), (6, [4, 5])]
  inEdges := [(0, [2]), (1, [2, 3, 3]), (2, [4]), (3, [3, 4, 5]), (4, [6]), (5, [6]), (6, [])]

theorem analyse_status_sharedFactors :
    (sharedFactors.Mutual ∧ ∀ n ∈ sharedFactors.nodes, n.2.IsKnown) ∧
    (IsActive sharedFactors 4 ∧ LeadsToVarying sharedFactors 4) ∧
    (IsActive sharedFactors 5 ∧ ¬ LeadsToVarying sharedFactors 5) ∧
    ¬ IsActive sharedFactors 6 := by
  have hmutual : sharedFactors.Mutual :=
    Graph.mutual_addEdges (sharedFactors.nodes.map (·.2))
      (sharedFactors.outEdges.flatMap fun e => e.2.map fun j => (e.1, j)) rfl
  have hknown : ∀ n ∈ sharedFactors.nodes, n.2.IsKnown := by
    simp [sharedFactors, FactorVertex.IsKnown, constantFactor, variedFactor,
      Form.Expr.isCellwiseConstant, Form.Expr.terminals, Form.Terminal.isCellwiseConstant]
  have hrun : (analyse sharedFactors).toOption.map (fun g => g.nodes.map (·.2.status)) =
      some [some .varying, some .piecewise, some .varying, some .piecewise, some .varying,
        some .piecewise, some .inactive] := by decide +kernel
  obtain ⟨-, status, hanalyse, hstatus, -⟩ := analyse_status hmutual hknown
  rw [hanalyse] at hrun
  obtain ⟨-, -, -, -, h4, h5, h6⟩ : status 0 = .varying ∧ status 1 = .piecewise ∧
      status 2 = .varying ∧ status 3 = .piecewise ∧ status 4 = .varying ∧ status 5 = .piecewise ∧
      status 6 = .inactive := by
    simpa [Except.toOption, Graph.mapData, sharedFactors] using hrun
  exact ⟨⟨hmutual, hknown⟩, (hstatus 4).2.1.1 h4, (hstatus 5).2.2.1 h5, (hstatus 6).1.1 h6⟩

end Factor

end FormKernel
