import FormKernel.Proofs.Factor.Nodes

/-!
# Factors of the targets

The factors of a target are kept by component, and each is then marked at its own node with the
product of arguments and the component that it belongs to.  Here places among the arguments stand
for arguments.
-/

namespace FormKernel.Factor

open Form (Expr FieldInterpretation Valuation)
open FormKernel.Graph (Vertex)
open List

/-! ## Places among the arguments -/

variable {arguments k p : List Nat}

lemma argumentPlace_eq_ok {i k : Nat} :
    argumentPlace arguments i = .ok k ↔ arguments.findIdx? (· == i) = some k :=
  orMisfit_eq_ok

lemma getElem?_argumentPlace {i k : Nat} (h : argumentPlace arguments i = .ok k) :
    arguments[k]? = some i := by
  rw [argumentPlace_eq_ok] at h
  obtain ⟨hlt, heq, -⟩ := findIdx?_eq_some_iff_getElem.1 h
  rw [getElem?_eq_getElem hlt, eq_of_beq heq]

def Placed (arguments : List Nat) (k p : List Nat) : Prop :=
  ∃ q, Forall₂ (fun s t => arguments[t]? = some s) k q ∧ p = q.mergeSort

lemma placed_of_mapM {q : List Nat} (h : k.mapM (argumentPlace arguments) = .ok q) :
    Placed arguments k q.mergeSort :=
  ⟨q, (mapM_eq_ok.1 h).imp fun _ _ h => getElem?_argumentPlace h, rfl⟩

lemma Placed.perm (h : Placed arguments k p) : (p.map (arguments[·]?)).Perm (k.map some) := by
  obtain ⟨q, hq, rfl⟩ := h
  have hmap : q.map (arguments[·]?) = k.map some := by
    induction hq with
    | nil => rfl
    | cons hst _ ih => rw [map_cons, map_cons, ih, hst]
  rw [← hmap]
  exact (mergeSort_perm _ _).map _

lemma Placed.sorted (h : Placed arguments k p) : p.Pairwise (· ≤ ·) := by
  obtain ⟨q, -, rfl⟩ := h
  exact pairwise_mergeSort_nat q

lemma Placed.length_eq {arguments k p : List Nat}
    (h : Placed arguments k p) : p.length = k.length := by
  simpa using h.perm.length_eq

/-- Different sorted keys have different places. -/
lemma Placed.injective {l : List Nat} (hk : Placed arguments k p) (hl : Placed arguments l p)
    (hksorted : k.Pairwise (· ≤ ·)) (hlsorted : l.Pairwise (· ≤ ·)) : k = l := by
  have hperm : (k.map some).Perm (l.map some) := hk.perm.symm.trans hl.perm
  have hkl : k.Perm l := by
    have h := hperm.filterMap id
    simpa [filterMap_map] using h
  exact hkl.eq_of_pairwise' hksorted hlsorted

/-! ## Factors by component -/

section ByComponent

variable {β : Type}

/-- One component after another gets a new value made from its old one. -/
lemma lookup_foldl_alter (upd : Option β → β) {cs : List Nat} (hcs : cs.Nodup)
    (out : List (Nat × β)) (c : Nat) :
    (cs.foldl (fun out c => assign c (upd (out.lookup c)) out) out).lookup c =
      if c ∈ cs then some (upd (out.lookup c)) else out.lookup c := by
  induction cs generalizing out with
  | nil => rfl
  | cons d cs ih =>
    rw [nodup_cons] at hcs
    rw [foldl_cons, ih hcs.2, lookup_assign]
    by_cases hcd : c = d
    · subst hcd
      simp [hcs.1]
    · have hne : (c == d) = false := beq_false_of_ne hcd
      simp [hne, hcd]

lemma nodup_keys_foldl_alter (upd : Option β → β) (cs : List Nat) {out : List (Nat × β)}
    (hout : (out.map (·.1)).Nodup) :
    ((cs.foldl (fun out c => assign c (upd (out.lookup c)) out) out).map (·.1)).Nodup := by
  induction cs generalizing out with
  | nil => exact hout
  | cons d cs ih =>
    rw [foldl_cons]
    exact ih (nodup_keys_assign hout)

end ByComponent

def assignAll (g acc : Factors) : Factors := g.foldl (fun acc p => assign p.1 p.2 acc) acc

lemma assignAll_of_nodup {g acc : Factors}
    (h : (keys (acc ++ g)).Nodup) : assignAll g acc = acc ++ g := by
  induction g generalizing acc with
  | nil => simp [assignAll]
  | cons p g ih =>
    have hnew : p.1 ∉ acc.map (·.1) := by
      rw [keys, map_append, nodup_append] at h
      exact fun hmem => h.2.2 _ hmem _ (by simp) rfl
    rw [assignAll, foldl_cons, assign_of_notMem hnew, ← assignAll, ih (by simpa using h)]
    simp

/-- All components of a target get all its factors. -/
lemma lookup_foldl_factors (g : Factors) {cs : List Nat} (hcs : cs.Nodup)
    (out : List (Nat × Factors)) (c : Nat) :
    (g.foldl (fun out (k, i) => cs.foldl (fun out c =>
      assign c (assign k i ((out.lookup c).getD [])) out) out) out).lookup c =
      if c ∈ cs ∧ g ≠ [] then some (assignAll g ((out.lookup c).getD [])) else out.lookup c := by
  induction g generalizing out with
  | nil => simp
  | cons p g ih =>
    obtain ⟨k, i⟩ := p
    have hstep := lookup_foldl_alter (fun o => assign k i (o.getD [])) hcs out c
    rw [foldl_cons, ih, hstep]
    by_cases hc : c ∈ cs
    · by_cases hg : g = []
      · simp [hc, hg, assignAll]
      · simp [hc, hg, assignAll]
    · simp [hc]

lemma nodup_keys_foldl_factors (g : Factors) (cs : List Nat) {out : List (Nat × Factors)}
    (hout : (out.map (·.1)).Nodup) :
    ((g.foldl (fun out (k, i) => cs.foldl (fun out c =>
      assign c (assign k i ((out.lookup c).getD [])) out) out) out).map (·.1)).Nodup := by
  induction g generalizing out with
  | nil => exact hout
  | cons p g ih =>
    rw [foldl_cons]
    exact ih (nodup_keys_foldl_alter (fun o => assign p.1 p.2 (o.getD [])) cs hout)

/-- The factors of a target in places: the target itself if there are no arguments at all, and
    otherwise its factors with places for arguments. -/
inductive InPlaces (arguments : List Nat) (rank : Nat) (factors : List Expr) (e : Expr) :
    Factors → Factors → Prop where
  | whole {i : Nat} {x : Expr} (hrank : rank = 0) (hi : factors[i]? = some x)
      (hx : (x == e) = true) : InPlaces arguments rank factors e [] [([], i)]
  | placed {f g : Factors} (hne : f ≠ [])
      (h : Forall₂ (fun p q => Placed arguments p.1 q.1 ∧ p.2 = q.2) f g) :
      InPlaces arguments rank factors e f g

/-- What a target adds: nothing if it has no factors, although there are arguments. -/
lemma targetFactors_cases {rank : Nat} {factors : List Expr} {v : Vertex} {f : Factors}
    {out out' : List (Nat × Factors)} (hv : v.components.Nodup)
    (hkeys : ∀ g, InPlaces arguments rank factors v.expr f g → (keys g).Nodup)
    (hnew : ∀ c ∈ v.components, out.lookup c = none) (hout : (out.map (·.1)).Nodup)
    (h : targetFactors arguments rank factors v f out = .ok out') :
    (f = [] ∧ rank ≠ 0 ∧ out' = out) ∨ ∃ g, InPlaces arguments rank factors v.expr f g ∧
      (out'.map (·.1)).Nodup ∧
      ∀ c, out'.lookup c = if c ∈ v.components then some g else out.lookup c := by
  unfold targetFactors at h
  -- without arguments the target is itself a factor
  by_cases hf : f.isEmpty = true
  · obtain rfl : f = [] := by simpa using hf
    rw [if_pos hf] at h
    by_cases hrank : (rank == 0) = true
    · rw [if_pos hrank] at h
      split at h
      · cases h
      · next i hi =>
        rw [pure_eq_ok] at h
        obtain ⟨hlt, heq, -⟩ := findIdx?_eq_some_iff_getElem.1 hi
        refine .inr ⟨[([], i)], .whole (eq_of_beq hrank) (getElem?_eq_getElem hlt) heq, ?_, ?_⟩
        · rw [← h]
          exact nodup_keys_foldl_alter (fun _ => [([], i)]) _ hout
        · intro c
          rw [← h]
          exact lookup_foldl_alter (fun _ => [([], i)]) hv out c
    · rw [if_neg hrank, pure_eq_ok] at h
      exact .inl ⟨rfl, by simpa using hrank, h.symm⟩
  · have hfne : f ≠ [] := by simpa using hf
    rw [if_neg hf] at h
    obtain ⟨g, hg, h'⟩ := bind_eq_ok.1 h
    rw [pure_eq_ok] at h'
    have hplaces : InPlaces arguments rank factors v.expr f g := by
      refine .placed hfne ((mapM_eq_ok.1 hg).imp fun p q hpq => ?_)
      obtain ⟨q', hq', hpq'⟩ := bind_eq_ok.1 hpq
      rw [pure_eq_ok] at hpq'
      rw [← hpq']
      exact ⟨placed_of_mapM hq', rfl⟩
    have hgne : g ≠ [] := by
      rintro rfl
      exact hfne (forall₂_nil_right_iff.1 (mapM_eq_ok.1 hg))
    refine .inr ⟨g, hplaces, ?_, ?_⟩
    · rw [← h']
      exact nodup_keys_foldl_factors g v.components hout
    · intro c
      rw [← h', lookup_foldl_factors g hv out c]
      by_cases hc : c ∈ v.components
      · have hall : assignAll g [] = [] ++ g :=
          assignAll_of_nodup (by simpa using hkeys g hplaces)
        simp [hc, hgne, hnew c hc, hall]
      · simp [hc]

/-! ## Marks -/

section Marks

variable {K : Type} [Field K] (I : FieldInterpretation K) (τ : Valuation K) (val : Nat → K)

def markedSum (c : Nat) (v : FactorVertex) : K :=
  ((v.targets.zip v.components).map fun p =>
    if p.2 = c then v.expr.value I.toInterpretation τ * monomial val p.1 else 0).sum

def targetSum (vs : List FactorVertex) (c : Nat) : K := (vs.map (markedSum I τ val c)).sum

/-- The sum of the terms of a component, from the factors themselves. -/
def factorSum (es : List Expr) (f : Factors) : K :=
  (f.map fun p => ((es[p.2]?).map (Expr.value I.toInterpretation τ)).getD 0 *
    monomial val p.1).sum

/-- Factors with as many products as components. -/
def Aligned (es : List Expr) (vs : List FactorVertex) : Prop :=
  vs.map (·.expr) = es ∧ ∀ v ∈ vs, v.targets.length = v.components.length

def mark (k : List Nat) (c : Nat) (v : FactorVertex) : FactorVertex :=
  { v with targets := v.targets ++ [k], components := v.components ++ [c] }

/-- Marks change nothing else about factors. -/
lemma map_markTargets {β : Type} (p : FactorVertex → β) (hp : ∀ k c v, p (mark k c v) = p v)
    (vs : List FactorVertex) (by_ : List (Nat × Factors)) : (markTargets vs by_).map p = vs.map p :=
  by
  have hmodify : ∀ (vs : List FactorVertex) (i : Nat) (k : List Nat) (c : Nat),
      (vs.modify i (mark k c)).map p = vs.map p := by
    intro vs i k c
    refine ext_getElem? fun n => ?_
    rw [getElem?_map, getElem?_map, getElem?_modify]
    cases vs[n]? with
    | none => rfl
    | some v => by_cases hin : i = n <;> simp [hin, hp]
  have hfactors : ∀ (f : Factors) (c : Nat) (vs : List FactorVertex),
      (f.foldl (fun vs q => vs.modify q.2 (mark q.1 c)) vs).map p = vs.map p := by
    intro f c
    induction f with
    | nil => exact fun _ => rfl
    | cons q f ih =>
      intro vs
      rw [foldl_cons, ih, hmodify]
  induction by_ generalizing vs with
  | nil => rfl
  | cons q by_ ih => exact (ih _).trans (hfactors q.2 q.1 vs)

variable {I τ val} {es : List Expr} {vs : List FactorVertex}

lemma aligned_modify (h : Aligned es vs) (i : Nat) (k : List Nat) (c : Nat) :
    Aligned es (vs.modify i (mark k c)) := by
  constructor
  · rw [← h.1]
    refine ext_getElem? fun n => ?_
    rw [getElem?_map, getElem?_map, getElem?_modify]
    cases vs[n]? with
    | none => rfl
    | some v => by_cases hin : i = n <;> simp [hin, mark]
  · intro v hv
    obtain ⟨n, hn⟩ := mem_iff_getElem?.1 hv
    rw [getElem?_modify] at hn
    cases hvs : vs[n]? with
    | none => simp [hvs] at hn
    | some w =>
      have hw := h.2 w (mem_of_getElem? hvs)
      by_cases hin : i = n
      · simp [hvs, hin] at hn
        simp [← hn, mark, hw]
      · simp [hvs, hin] at hn
        exact hn ▸ hw

/-- The marks of factors that are numbered from `n` on: the number of a factor, the product of
    arguments that it multiplies and the component. -/
def marks (n : Nat) : List FactorVertex → List (Nat × List Nat × Nat)
  | [] => []
  | v :: vs => (v.targets.zip v.components).map (fun p => (n, p.1, p.2)) ++ marks (n + 1) vs

lemma marks_modify (h : ∀ v ∈ vs, v.targets.length = v.components.length) {i : Nat}
    (hi : i < vs.length) (n : Nat) (k : List Nat) (c : Nat) :
    (marks n (vs.modify i (mark k c))).Perm ((n + i, k, c) :: marks n vs) := by
  induction vs generalizing i n with
  | nil => exact absurd hi (Nat.not_lt_zero i)
  | cons v vs ih =>
    rw [forall_mem_cons] at h
    cases i with
    | zero =>
      rw [modify_zero_cons, marks, marks, mark, zip_append h.1, map_append, append_assoc]
      exact perm_middle
    | succ i =>
      rw [modify_succ_cons, marks, marks, ← Nat.add_assoc, Nat.add_right_comm]
      exact ((ih h.2 (Nat.lt_of_succ_lt_succ hi) (n + 1)).append_left _).trans perm_middle

lemma marks_foldl (h : Aligned es vs) {f : Factors} (hf : ∀ p ∈ f, p.2 < es.length) (c : Nat) :
    Aligned es (f.foldl (fun vs p => vs.modify p.2 (mark p.1 c)) vs) ∧
      (marks 0 (f.foldl (fun vs p => vs.modify p.2 (mark p.1 c)) vs)).Perm
        (marks 0 vs ++ f.map fun p => (p.2, p.1, c)) := by
  induction f generalizing vs with
  | nil => exact ⟨h, by simp⟩
  | cons p f ih =>
    rw [forall_mem_cons] at hf
    obtain ⟨hal, hperm⟩ := ih (aligned_modify h p.2 p.1 c) hf.2
    have hlt : p.2 < vs.length := by
      have hp := hf.1
      rwa [← h.1, length_map] at hp
    refine ⟨hal, hperm.trans (((marks_modify h.2 hlt 0 p.1 c).append_right _).trans ?_)⟩
    rw [Nat.zero_add, map_cons]
    exact perm_middle.symm

/-- Marking puts the factors of all components among the marks. -/
lemma marks_markTargets (h : Aligned es vs) {by_ : List (Nat × Factors)}
    (hby : ∀ q ∈ by_, ∀ p ∈ q.2, p.2 < es.length) :
    Aligned es (markTargets vs by_) ∧ (marks 0 (markTargets vs by_)).Perm
      (marks 0 vs ++ by_.flatMap fun q => q.2.map fun p => (p.2, p.1, q.1)) := by
  induction by_ generalizing vs with
  | nil => exact ⟨h, by simp [markTargets]⟩
  | cons q by_ ih =>
    rw [forall_mem_cons] at hby
    obtain ⟨hal, hperm⟩ := marks_foldl h hby.1 q.1
    obtain ⟨hal', hperm'⟩ := ih hal hby.2
    refine ⟨hal', hperm'.trans ((hperm.append_right _).trans ?_)⟩
    rw [append_assoc, flatMap_cons]

/-- The sum of the terms of a component is a sum over marks. -/
lemma targetSum_eq_marks (es : List Expr) (vs : List FactorVertex) (d : Nat) :
    targetSum I τ val vs d = ((marks es.length vs).map fun t => if t.2.2 = d then
      (((es ++ vs.map (·.expr))[t.1]?).map (Expr.value I.toInterpretation τ)).getD 0 *
        monomial val t.2.1 else 0).sum := by
  induction vs generalizing es with
  | nil => rfl
  | cons v vs ih =>
    have hrest := ih (es ++ [v.expr])
    rw [length_append, length_singleton, append_assoc] at hrest
    rw [targetSum, map_cons, sum_cons, ← targetSum, hrest, marks, map_append, sum_append, map_map]
    simp [markedSum, Function.comp_def]

variable (I τ val) in
/-- Marking keeps the sums of all components. -/
lemma targetSum_markTargets (h : Aligned es vs) {by_ : List (Nat × Factors)}
    (hby : ∀ q ∈ by_, ∀ p ∈ q.2, p.2 < es.length) (d : Nat) :
    Aligned es (markTargets vs by_) ∧
      targetSum I τ val (markTargets vs by_) d = targetSum I τ val vs d +
        (by_.map fun q => if q.1 = d then factorSum I τ val es q.2 else 0).sum := by
  obtain ⟨hal, hperm⟩ := marks_markTargets h hby
  refine ⟨hal, ?_⟩
  rw [targetSum_eq_marks [], targetSum_eq_marks [], hal.1, h.1, length_nil,
    (hperm.map _).sum_eq, map_append, sum_append, map_flatMap, flatMap_def,
    sum_flatten, map_map]
  congr 3
  funext q
  by_cases hq : q.1 = d <;> simp [hq, factorSum, Function.comp_def]

end Marks

end FormKernel.Factor
