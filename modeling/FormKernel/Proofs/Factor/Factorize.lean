import FormKernel.Proofs.Factor.Targets
import FormKernel.Proofs.Form.Rational

/-!
# Factorisation keeps values

A target of a multilinear scalar graph is the sum of the factors that are marked with its component,
each times the arguments that it is marked with.
-/

namespace FormKernel.Factor

open Form (Builder Expr FieldInterpretation Valuation rational)
open FormKernel.Graph (Vertex)
open List

/-! ## The first factors -/

lemma insertAll_of_pairwise {es out : List Expr}
    (h : (out ++ es).Pairwise fun a b => (b == a) = false) : insertAll es out = out ++ es := by
  induction es generalizing out with
  | nil => simp [insertAll]
  | cons e es ih =>
    have hnew : out.contains e = false := by
      rw [← Bool.not_eq_true, contains_iff_exists_mem_beq]
      rintro ⟨x, hx, hex⟩
      have hne := (pairwise_append.1 h).2.2 x hx e (by simp)
      simp [hex] at hne
    have hrest : insertAll es (out ++ [e]) = _ := ih (by simpa using h)
    rw [insertAll, foldl_cons, hnew, if_neg Bool.false_ne_true, ← insertAll, hrest]
    simp

section Start

variable {S : Graph Nat Vertex} {arguments : List Nat}

def argumentExprs (S : Graph Nat Vertex) (arguments : List Nat) : List Expr :=
  arguments.filterMap fun i => (S.data? i).map (·.expr)

lemma argumentNumbers_one : one.argumentNumbers = ∅ := rfl

section

variable (hS : ScalarGraph S) (hargs : argumentNodes S = .ok arguments)

include hS hargs

lemma forall₂_argumentExprs :
    Forall₂ (fun i e => ∃ v, (i, v) ∈ S.nodes ∧ v.expr = e ∧ isArgumentExpr e = true)
      arguments (argumentExprs S arguments) := by
  have hmem : ∀ i ∈ arguments, ∃ v, (i, v) ∈ S.nodes ∧ isArgumentExpr v.expr = true :=
    fun i hi => (mem_argumentNodes hargs).1 hi
  clear hargs
  induction arguments with
  | nil => exact .nil
  | cons i is ih =>
    obtain ⟨v, hv, harg⟩ := hmem i (by simp)
    have hcons : argumentExprs S (i :: is) = v.expr :: argumentExprs S is := by
      simp [argumentExprs, hS.data?_eq_some.2 hv]
    rw [hcons]
    exact .cons ⟨v, hv, rfl, harg⟩ (ih fun j hj => hmem j (mem_cons_of_mem _ hj))

lemma getElem?_argumentExprs {p s : Nat} (hp : arguments[p]? = some s) :
    ∃ v, (s, v) ∈ S.nodes ∧ isArgumentExpr v.expr = true ∧
      (argumentExprs S arguments)[p]? = some v.expr := by
  obtain ⟨e, he, v, hv, rfl, harg⟩ := getElem?_of_forall₂ (forall₂_argumentExprs hS hargs) hp
  exact ⟨v, hv, harg, he⟩

lemma isArgumentExpr_argumentExprs {e : Expr} (he : e ∈ argumentExprs S arguments) :
    isArgumentExpr e = true := by
  obtain ⟨_, _, _, _, _, harg⟩ := exists_of_forall₂_right (forall₂_argumentExprs hS hargs) he
  exact harg

lemma pairwise_argumentExprs : (argumentExprs S arguments).Pairwise fun a b => (b == a) = false :=
  by
  have hnodup := nodup_argumentNodes hS hargs
  have hall := forall₂_argumentExprs hS hargs
  generalize argumentExprs S arguments = es at hall ⊢
  clear hargs
  induction hall with
  | nil => exact .nil
  | cons hie hrest ih =>
    obtain ⟨v, hv, rfl, -⟩ := hie
    rw [nodup_cons] at hnodup
    refine .cons (fun b hb => ?_) (ih hnodup.2)
    obtain ⟨j, hj, w, hw, rfl, -⟩ := exists_of_forall₂_right hrest hb
    rw [← Bool.not_eq_true]
    exact fun heq => hnodup.1 (hS.distinct hw hv heq ▸ hj)

/-- The arguments and the number one differ. -/
lemma pairwise_start : (argumentExprs S arguments ++ [one]).Pairwise fun a b => (b == a) = false :=
  by
  refine pairwise_append.2
    ⟨pairwise_argumentExprs hS hargs, pairwise_singleton _ _, fun a ha b hb => ?_⟩
  obtain rfl := mem_singleton.1 hb
  rw [← Bool.not_eq_true]
  intro heq
  have harg := isArgumentExpr_argumentExprs hS hargs ha
  rw [isArgumentExpr_eq_false (Expr.argumentNumbers_congr heq ▸ argumentNumbers_one)] at harg
  exact Bool.false_ne_true harg

/-- The arguments come first and the number one after them. -/
lemma start_eq :
    insertAll [one] (insertAll (argumentExprs S arguments) []) =
      argumentExprs S arguments ++ [one] := by
  have hinner : insertAll (argumentExprs S arguments) [] = argumentExprs S arguments :=
    insertAll_of_pairwise (pairwise_argumentExprs hS hargs)
  rw [hinner]
  exact insertAll_of_pairwise (pairwise_start hS hargs)

end

variable {K : Type} [Field K] {I : FieldInterpretation K} {τ : Valuation K}

/-- The number one is found among the first factors. -/
lemma factorIs_one (es : List Expr) :
    FactorIs I.toInterpretation τ (es ++ [one])
      (((es ++ [one]).findIdx? (· == one)).getD 0) 1 := by
  have hself : (one == one) = true := by decide +kernel
  have hsome : ((es ++ [one]).findIdx? (· == one)).isSome = true := by
    simp [hself]
  obtain ⟨i, hi⟩ := Option.isSome_iff_exists.1 hsome
  obtain ⟨hlt, heq, -⟩ := findIdx?_eq_some_iff_getElem.1 hi
  rw [hi, Option.getD_some]
  refine ⟨_, getElem?_eq_getElem hlt, ?_, ?_⟩
  · rw [Expr.argumentNumbers_congr heq, argumentNumbers_one]
  · rw [Expr.value_congr _ _ heq]
    exact I.float_one

end Start

/-! ## The factors of one target -/

section Target

variable {K : Type} [Field K] {I : FieldInterpretation K} {τ : Valuation K} {arg val : Nat → K}
  {num : Nat → Int} {isArg : Nat → Prop} {arguments : List Nat} {rank : Nat}
  {F : List Expr} {e : Expr} {f g : Factors}

/-- Factors that depend on no argument, of different products of as many arguments as the form
    has. -/
structure WellPlaced (arguments : List Nat) (rank : Nat) (F : List Expr) (g : Factors) :
    Prop where
  nodup : (keys g).Nodup
  factor : ∀ p ∈ g, ∃ x, F[p.2]? = some x ∧ x.argumentNumbers = ∅
  length_eq : ∀ p ∈ g, p.1.length = rank
  sorted : ∀ p ∈ g, p.1.Pairwise (· ≤ ·)
  place : ∀ p ∈ g, ∀ a ∈ p.1, ∃ s, arguments[a]? = some s

lemma Placed.exists_argument {k p : List Nat} (h : Placed arguments k p) {a : Nat}
    (ha : a ∈ p) : ∃ s, arguments[a]? = some s := by
  have hmem : arguments[a]? ∈ k.map some := h.perm.mem_iff.1 (mem_map_of_mem ha)
  obtain ⟨s, -, hs⟩ := mem_map.1 hmem
  exact ⟨s, hs.symm⟩

/-- The product of arguments by their places. -/
lemma Placed.monomial_eq (hval : ∀ a s, arguments[a]? = some s → val a = arg s)
    {k p : List Nat} (h : Placed arguments k p) : monomial val p = monomial arg k := by
  have hplaces : p.map val = (p.map (arguments[·]?)).map fun o => (o.map arg).getD 0 := by
    rw [map_map]
    refine map_congr_left fun a ha => ?_
    obtain ⟨s, hs⟩ := h.exists_argument ha
    simp [hs, hval a s hs]
  have hkeys : k.map arg = (k.map some).map fun o => (o.map arg).getD 0 := by simp
  rw [monomial, monomial, hplaces, hkeys]
  exact (h.perm.map _).prod_eq

/-- Different products of arguments have different places. -/
lemma nodup_keys_placed (hf : (keys f).Nodup) (hsorted : ∀ k ∈ keys f, k.Pairwise (· ≤ ·))
    (h : Forall₂ (fun p q => Placed arguments p.1 q.1 ∧ p.2 = q.2) f g) : (keys g).Nodup := by
  induction h with
  | nil => exact nodup_nil
  | @cons p q f g hpq hrest ih =>
    simp only [keys, map_cons, nodup_cons, mem_cons, forall_eq_or_imp]
      at hf hsorted ⊢
    refine ⟨fun hmem => ?_, ih hf.2 hsorted.2⟩
    obtain ⟨q', hq', hqq'⟩ := mem_map.1 hmem
    obtain ⟨p', hp', hpq', -⟩ := exists_of_forall₂_right hrest hq'
    have hkey : p.1 = p'.1 := hpq.1.injective (hqq' ▸ hpq') hsorted.1
      (hsorted.2 _ (mem_map_of_mem hp'))
    exact hf.1 (hkey ▸ mem_map_of_mem hp')

lemma wellPlaced_of_inPlaces (hf : Factored I τ arg num isArg F e f)
    (hrank : e.argumentNumbers = ∅ ∨ e.argumentNumbers.card = rank)
    (h : InPlaces arguments rank F e f g) : WellPlaced arguments rank F g := by
  cases h with
  | @whole i x hzero hi hx =>
    have hfree : x.argumentNumbers = ∅ := by
      rw [Expr.argumentNumbers_congr hx]
      exact hf.eq_nil_iff.1 rfl
    constructor <;> simp [keys, hi, hfree, hzero]
  | placed hne hfg =>
    obtain ⟨c, hc, hkeyed, -⟩ := hf.terms hne
    rw [← hc.keys_eq] at hkeyed
    have hcard : e.argumentNumbers.card = rank := hrank.resolve_left (mt hf.eq_nil_iff.2 hne)
    refine ⟨nodup_keys_placed hkeyed.nodup hkeyed.sorted hfg, ?_, ?_, ?_, ?_⟩
    · intro q hq
      obtain ⟨p, hp, -, hpq⟩ := exists_of_forall₂_right hfg hq
      obtain ⟨t, -, -, x, hx, hfree, -⟩ := exists_of_forall₂_right (List.Forall₂.flip hc) hp
      exact ⟨x, hpq ▸ hx, hfree⟩
    · intro q hq
      obtain ⟨p, hp, hpq, -⟩ := exists_of_forall₂_right hfg hq
      rw [hpq.length_eq, hkeyed.length_eq (mem_map_of_mem hp), hcard]
    · intro q hq
      obtain ⟨p, -, hpq, -⟩ := exists_of_forall₂_right hfg hq
      exact hpq.sorted
    · intro q hq a ha
      obtain ⟨p, -, hpq, -⟩ := exists_of_forall₂_right hfg hq
      exact hpq.exists_argument ha

/-- The factors of a target add up to it. -/
lemma inPlaces_sum (hf : Factored I τ arg num isArg F e f)
    (hval : ∀ a s, arguments[a]? = some s → val a = arg s) (h : InPlaces arguments rank F e f g) :
    factorSum I τ val F g = e.value I.toInterpretation τ := by
  cases h with
  | whole hzero hi hx =>
    simp [factorSum, hi, monomial, Expr.value_congr I.toInterpretation τ hx]
  | placed hne hfg =>
    obtain ⟨c, hc, -, hvalue⟩ := hf.terms hne
    have hterms : Forall₂ (fun (q : List Nat × Nat) (t : List Nat × K) =>
        ((F[q.2]?).map (Expr.value I.toInterpretation τ)).getD 0 * monomial val q.1 =
          t.2 * monomial arg t.1) g c := by
      refine forall₂_meet (fun p q t hpq hpt => ?_) hfg hc
      obtain ⟨x, hx, -, hxt⟩ := hpt.2
      rw [← hpq.2, hx, hpq.1.monomial_eq hval, ← hpt.1, ← hxt]
      rfl
    rw [hvalue, total, factorSum]
    congr 1
    rwa [← forall₂_eq_eq_eq, forall₂_map_left_iff, forall₂_map_right_iff]

end Target

/-! ## All targets -/

section Targets

variable {arguments : List Nat} {rank : Nat} {F : List Expr}

/-- What is found for the components of a target with its factors. -/
def Recorded (arguments : List Nat) (rank : Nat) (F : List Expr) (n : (Nat × Vertex) × Factors)
    (found : Option Factors) : Prop :=
  (n.2 = [] ∧ rank ≠ 0 ∧ found = none) ∨ ∃ g, InPlaces arguments rank F n.1.2.expr n.2 g ∧
    found = some g

/-- Targets do not disturb what is found for others. -/
lemma recorded_foldlM {ts : List ((Nat × Vertex) × Factors)} {out out' : List (Nat × Factors)}
    (hkeys : ∀ n ∈ ts, ∀ g, InPlaces arguments rank F n.1.2.expr n.2 g → (keys g).Nodup)
    (hts : (ts.flatMap (·.1.2.components)).Nodup)
    (hnew : ∀ n ∈ ts, ∀ c ∈ n.1.2.components, out.lookup c = none) (hout : (out.map (·.1)).Nodup)
    (h : ts.foldlM (fun out n => targetFactors arguments rank F n.1.2 n.2 out) out = .ok out') :
    (out'.map (·.1)).Nodup ∧
      (∀ c, c ∉ ts.flatMap (·.1.2.components) → out'.lookup c = out.lookup c) ∧
      ∀ n ∈ ts, ∀ c ∈ n.1.2.components, Recorded arguments rank F n (out'.lookup c) := by
  induction ts generalizing out with
  | nil =>
    rw [foldlM_nil, pure_eq_ok] at h
    subst h
    exact ⟨hout, fun _ _ => rfl, by simp⟩
  | cons n ts ih =>
    rw [foldlM_cons] at h
    obtain ⟨mid, hmid, hrest⟩ := bind_eq_ok.1 h
    rw [flatMap_cons, nodup_append] at hts
    obtain ⟨hn, hts', hdisjoint⟩ := hts
    have hapart : ∀ c ∈ n.1.2.components, c ∉ ts.flatMap (·.1.2.components) :=
      fun c hc hc' => hdisjoint c hc c hc' rfl
    have hstep := targetFactors_cases hn (hkeys n (by simp)) (hnew n (by simp)) hout hmid
    have hkept : ∀ c, c ∉ n.1.2.components → mid.lookup c = out.lookup c := by
      intro c hc
      rcases hstep with ⟨-, -, rfl⟩ | ⟨g, -, -, hlookup⟩
      · rfl
      · rw [hlookup, if_neg hc]
    have hmidNodup : (mid.map (·.1)).Nodup := by
      rcases hstep with ⟨-, -, rfl⟩ | ⟨g, -, hnodup, -⟩
      · exact hout
      · exact hnodup
    have hmidNew : ∀ m ∈ ts, ∀ c ∈ m.1.2.components, mid.lookup c = none := by
      intro m hm c hc
      have hcn : c ∉ n.1.2.components := fun hcn => hapart c hcn (mem_flatMap.2 ⟨m, hm, hc⟩)
      rw [hkept c hcn]
      exact hnew m (mem_cons_of_mem _ hm) c hc
    obtain ⟨hnodup, hother, hrecorded⟩ := ih (fun m hm => hkeys m (mem_cons_of_mem _ hm))
      hts' hmidNew hmidNodup hrest
    refine ⟨hnodup, fun c hc => ?_, fun m hm c hc => ?_⟩
    · rw [flatMap_cons, mem_append, not_or] at hc
      rw [hother c hc.2, hkept c hc.1]
    · rcases mem_cons.1 hm with rfl | hm
      · rw [hother c (hapart c hc)]
        rcases hstep with ⟨hempty, hrank, rfl⟩ | ⟨g, hg, -, hlookup⟩
        · exact .inl ⟨hempty, hrank, hnew m (by simp) c hc⟩
        · exact .inr ⟨g, hg, by rw [hlookup, if_pos hc]⟩
      · exact hrecorded m hm c hc

/-- With different keys a sum over the entries of one key has at most one term. -/
lemma sum_lookup {K : Type} [Field K] {out : List (Nat × Factors)} (hout : (out.map (·.1)).Nodup)
    (value : Factors → K) (c : Nat) :
    (out.map fun q => if q.1 = c then value q.2 else 0).sum = ((out.lookup c).map value).getD 0 :=
  by
  induction out with
  | nil => rfl
  | cons q out ih =>
    rw [map_cons, nodup_cons] at hout
    rw [map_cons, sum_cons, ih hout.2, lookup_cons]
    by_cases hq : q.1 = c
    · have hnone : out.lookup c = none := lookup_eq_none_of_notMem (hq ▸ hout.1)
      simp [hq, hnone]
    · have hne : (c == q.1) = false := beq_false_of_ne (Ne.symm hq)
      simp [hq, hne]

variable {G : Graph Nat FactorVertex} {vs : List FactorVertex}

/-- Edges do not change factors. -/
lemma nodes_connect (h : connect vs = .ok G) : G.nodes = (range vs.length).zip vs := by
  unfold connect at h
  obtain ⟨edges, -, hG⟩ := bind_eq_ok.1 h
  refine foldlM_induction (fun g => g.nodes = (range vs.length).zip vs) rfl ?_ hG
  intro g e g' _ hg hadd
  exact (Graph.nodes_addEdge hadd).trans hg

/-- The terms of a graph of factors: the number of a factor, the places of the arguments that it
    multiplies and the component. -/
def terms (G : Graph Nat FactorVertex) : List (Nat × List Nat × Nat) :=
  G.nodes.flatMap fun n => (n.2.targets.zip n.2.components).map fun p => (n.1, p.1, p.2)

lemma terms_eq_marks (hG : G.nodes = (range vs.length).zip vs) : terms G = marks 0 vs := by
  rw [terms, hG, range_eq_range']
  clear hG
  generalize 0 = n
  induction vs generalizing n with
  | nil => rfl
  | cons v vs ih =>
    rw [length_cons, range'_succ, zip_cons_cons, flatMap_cons, ih, marks]

/-- The factors of a graph by their numbers. -/
lemma mem_nodes_of_aligned (h : Aligned F vs) (hG : G.nodes = (range vs.length).zip vs) {j : Nat} :
    (∀ {w}, (j, w) ∈ G.nodes → vs[j]? = some w ∧ F[j]? = some w.expr) ∧
      ∀ {x}, F[j]? = some x → ∃ w, (j, w) ∈ G.nodes ∧ w.expr = x := by
  rw [hG]
  constructor
  · intro w hw
    have hj : vs[j]? = some w := by
      rw [← lookup_zip_range]
      exact lookup_eq_some_of_mem (by rw [map_fst_zip (by simp)]; exact nodup_range) hw
    exact ⟨hj, by rw [← h.1, getElem?_map, hj]; rfl⟩
  · intro x hx
    rw [← h.1, getElem?_map] at hx
    obtain ⟨w, hw, hwx⟩ := Option.map_eq_some_iff.1 hx
    rw [← lookup_zip_range] at hw
    exact ⟨w, mem_of_lookup_eq_some hw, hwx⟩

/-- A product of arguments has a component. -/
lemma exists_mem_zip {α β : Type} {xs : List α} {ys : List β} (h : xs.length = ys.length) {x : α}
    (hx : x ∈ xs) : ∃ y, (x, y) ∈ xs.zip ys := by
  rw [← map_fst_zip h.le] at hx
  obtain ⟨p, hp, rfl⟩ := mem_map.1 hx
  exact ⟨p.2, hp⟩

end Targets

/-! ## The graph of factors -/

section Graph

variable {K : Type} [Field K] (I : FieldInterpretation K) (τ : Valuation K)

/-- A scalar graph that is linear in each of the arguments of a form of the given rank: a target
    depends on all of them or is zero. -/
structure MultilinearGraph (S : Graph Nat Vertex) (rank : Nat) : Prop extends ScalarGraph S where
  multilinear : ∀ i v, (i, v) ∈ S.nodes → Multilinear I.toInterpretation τ v.expr
  targets : ∀ i v, (i, v) ∈ S.nodes → v.components ≠ [] → v.expr.argumentNumbers.card = rank ∨
    v.expr.argumentNumbers = ∅ ∧ v.expr.value I.toInterpretation τ = 0

def factorValue (G : Graph Nat FactorVertex) (i : Nat) : K :=
  ((G.data? i).map fun v => v.expr.value I.toInterpretation τ).getD 0

/-- The sum of the factors that are marked with a component, each times its arguments. -/
def componentSum (G : Graph Nat FactorVertex) (c : Nat) : K :=
  targetSum I τ (factorValue I τ G) (G.nodes.map (·.2)) c

variable {I τ} {G : Graph Nat FactorVertex} {S : Graph Nat Vertex} {rank : Nat} {F : List Expr}
  {arguments : List Nat} {nodes : List Factors}

lemma graph_factorize_eq_ok [Builder] (hS : ScalarGraph S) (h : (factorize S rank).graph = .ok G) :
    ∃ arguments nodes F out, argumentNodes S = .ok arguments ∧
      factorNodes (nodeFactors S arguments
        (((argumentExprs S arguments ++ [one]).findIdx? (· == one)).getD 0)) S.nodes []
        (argumentExprs S arguments ++ [one]) = (nodes, .ok F) ∧
      ((S.nodes.zip nodes).filter fun n => !n.1.2.components.isEmpty).foldlM
        (fun out n => targetFactors arguments rank F n.1.2 n.2 out) [] = .ok out ∧
      connect (markTargets (F.map fun e => { expr := e }) out) = .ok G := by
  unfold factorize at h
  split at h
  · cases h
  · next arguments hargs =>
    have hstart := start_eq hS hargs
    rw [argumentExprs] at hstart
    dsimp only at h
    rw [hstart] at h
    rw [← argumentExprs] at h
    generalize hrun : factorNodes _ S.nodes [] (argumentExprs S arguments ++ [one]) = run at h
    obtain ⟨nodes, factors⟩ := run
    obtain ⟨F, rfl, out, hout, hconnect⟩ := bind₂_eq_ok.1 h
    exact ⟨arguments, nodes, F, out, hargs, hrun, hout, hconnect⟩

/-- A factorisation whose steps succeed. -/
lemma graph_factorize [Builder] {out : List (Nat × Factors)} (hS : ScalarGraph S)
    (hargs : argumentNodes S = .ok arguments) (hrun : factorNodes (nodeFactors S arguments
      (((argumentExprs S arguments ++ [one]).findIdx? (· == one)).getD 0)) S.nodes []
      (argumentExprs S arguments ++ [one]) = (nodes, .ok F))
    (hout : ((S.nodes.zip nodes).filter fun n => !n.1.2.components.isEmpty).foldlM
      (fun out n => targetFactors arguments rank F n.1.2 n.2 out) [] = .ok out)
    (hG : connect (markTargets (F.map fun e => { expr := e }) out) = .ok G) :
    (factorize S rank).graph = .ok G := by
  have hstart := start_eq hS hargs
  rw [argumentExprs] at hstart hrun
  unfold factorize
  rw [hargs]
  dsimp only
  rw [hstart, hrun]
  exact bind_eq_ok.2 ⟨F, rfl, bind_eq_ok.2 ⟨out, hout, hG⟩⟩

/-- The value of an argument at its place among the factors. -/
lemma exists_argument_factor (hS : ScalarGraph S) (hargs : argumentNodes S = .ok arguments)
    (hF : argumentExprs S arguments ++ [one] <+: F) {a s : Nat} (ha : arguments[a]? = some s) :
    ∃ v, (s, v) ∈ S.nodes ∧ isArgumentExpr v.expr = true ∧ F[a]? = some v.expr := by
  obtain ⟨v, hv, harg, hget⟩ := getElem?_argumentExprs hS hargs ha
  refine ⟨v, hv, harg, ?_⟩
  obtain ⟨rest, rfl⟩ := hF
  have hlt := (List.getElem?_eq_some_iff.1 hget).1
  rw [append_assoc, getElem?_append_left hlt, hget]

lemma mem_targets_iff (hS : ScalarGraph S) {i : Nat} {v : Vertex} {f : Factors} :
    ((i, v), f) ∈ (S.nodes.zip nodes).filter (fun n => !n.1.2.components.isEmpty) ↔
      (i, v) ∈ S.nodes ∧ nodes[i]? = some f ∧ v.components ≠ [] := by
  rw [mem_filter, mem_iff_getElem?]
  simp only [getElem?_zip_eq_some, Bool.not_eq_true', isEmpty_eq_false_iff]
  constructor
  · rintro ⟨⟨k, hk, hf⟩, hv⟩
    exact ⟨mem_of_getElem? hk, hS.number_eq hk ▸ hf, hv⟩
  · rintro ⟨hmem, hf, hv⟩
    exact ⟨⟨i, hS.getElem?_nodes hmem, hf⟩, hv⟩

lemma nodup_components_targets (hS : ScalarGraph S) (hlen : nodes.length = S.nodes.length) :
    (((S.nodes.zip nodes).filter fun n => !n.1.2.components.isEmpty).flatMap
      (·.1.2.components)).Nodup := by
  have hfst : (S.nodes.zip nodes).flatMap (·.1.2.components) =
      S.nodes.flatMap (·.2.components) := by
    conv_rhs => rw [← map_fst_zip hlen.ge]
    rw [flatMap_map]
  refine hS.components.sublist (hfst ▸ ?_)
  exact filter_sublist.flatMap _

/-- Everything that a factorisation marks was recorded for a target. -/
lemma exists_recorded {ts : List ((Nat × Vertex) × Factors)} {out : List (Nat × Factors)}
    (hout : (out.map (·.1)).Nodup)
    (hother : ∀ c, c ∉ ts.flatMap (·.1.2.components) → out.lookup c = none)
    (hrecorded : ∀ n ∈ ts, ∀ c ∈ n.1.2.components, Recorded arguments rank F n (out.lookup c))
    {q : Nat × Factors} (hq : q ∈ out) : ∃ n ∈ ts, InPlaces arguments rank F n.1.2.expr n.2 q.2 :=
  by
  have hlookup : out.lookup q.1 = some q.2 := lookup_eq_some_of_mem hout hq
  have hmem : q.1 ∈ ts.flatMap (·.1.2.components) := by
    by_contra hnot
    simp [hother q.1 hnot] at hlookup
  obtain ⟨n, hn, hc⟩ := mem_flatMap.1 hmem
  rcases hrecorded n hn q.1 hc with ⟨-, -, hnone⟩ | ⟨g, hg, hsome⟩
  · simp [hnone] at hlookup
  · obtain rfl : q.2 = g := Option.some.inj (hlookup.symm.trans hsome)
    exact ⟨n, hn, hg⟩

/-- The factors of a graph before edges are added. -/
lemma factorValue_eq {vs : List FactorVertex} (hvs : vs.map (·.expr) = F)
    (hG : G.nodes = (range vs.length).zip vs) (i : Nat) :
    factorValue I τ G i = ((F[i]?).map (Expr.value I.toInterpretation τ)).getD 0 := by
  rw [factorValue, Graph.data?, hG, lookup_zip_range, ← hvs, getElem?_map, Option.map_map]
  rfl

variable (I τ) in
/-- What is known about the factors of all targets, by component. -/
structure TargetsFound (S : Graph Nat Vertex) (rank : Nat) (F : List Expr)
    (out : List (Nat × Factors)) : Prop where
  nodup : (out.map (·.1)).Nodup
  factor : ∀ q ∈ out, ∀ p ∈ q.2, ∃ x, F[p.2]? = some x ∧ x.argumentNumbers = ∅
  key : ∀ q ∈ out, ∀ p ∈ q.2, p.1.length = rank ∧ p.1.Pairwise (· ≤ ·) ∧
    ∀ a ∈ p.1, ∃ x n, F[a]? = some x ∧ IsArgument x n
  sum : ∀ i v c, (i, v) ∈ S.nodes → c ∈ v.components → ((out.lookup c).map (factorSum I τ
    (fun a => ((F[a]?).map (Expr.value I.toInterpretation τ)).getD 0) F)).getD 0 =
      v.expr.value I.toInterpretation τ

/-- A factorisation that succeeds finds the factors of all targets. -/
lemma targetsFound_factorize [Builder] (hB : Valued I.toInterpretation τ)
    (hS : MultilinearGraph I τ S rank) (hfix : ∀ e n, IsArgument e n →
      I.conj (e.value I.toInterpretation τ) = e.value I.toInterpretation τ)
    (h : (factorize S rank).graph = .ok G) :
    ∃ F out, TargetsFound I τ S rank F out ∧
      connect (markTargets (F.map fun e => { expr := e }) out) = .ok G := by
  have hgraph := hS.toScalarGraph
  obtain ⟨arguments, nodes, F, out, hargs, hrun, hfold, hconnect⟩ := graph_factorize_eq_ok hgraph h
  have hfixNode : ∀ s ∈ arguments, I.conj (nodeValue I τ S s) = nodeValue I τ S s := by
    intro s hs
    obtain ⟨v, hv, harg⟩ := (mem_argumentNodes hargs).1 hs
    rw [nodeValue_eq hgraph hv]
    exact hfix _ _ ((hS.multilinear s v hv).isArgument harg)
  obtain ⟨hkept, hlen, hfactored⟩ := factorNodes_factored hB hgraph hargs hfixNode
    hS.multilinear (factorIs_one _) hrun
  have htarget : ∀ n ∈ (S.nodes.zip nodes).filter fun n => !n.1.2.components.isEmpty,
      Factored I τ (nodeValue I τ S) (nodeNumber S) (· ∈ arguments) F n.1.2.expr n.2 ∧
        (n.1.2.expr.argumentNumbers = ∅ ∨ n.1.2.expr.argumentNumbers.card = rank) := by
    rintro ⟨⟨i, v⟩, f⟩ hn
    obtain ⟨hmem, hf, hv⟩ := (mem_targets_iff hgraph).1 hn
    exact ⟨hfactored i v f hmem hf, (hS.targets i v hmem hv).symm.imp_left And.left⟩
  obtain ⟨hout, hother, hrecorded⟩ := recorded_foldlM
    (fun n hn g hg => (wellPlaced_of_inPlaces (htarget n hn).1 (htarget n hn).2 hg).nodup)
    (nodup_components_targets hgraph hlen) (by simp) (by simp) hfold
  have hwell : ∀ q ∈ out, WellPlaced arguments rank F q.2 := by
    intro q hq
    obtain ⟨n, hn, hg⟩ := exists_recorded hout hother hrecorded hq
    exact wellPlaced_of_inPlaces (htarget n hn).1 (htarget n hn).2 hg
  refine ⟨F, out, ⟨hout, fun q hq => (hwell q hq).factor, fun q hq p hp => ?_, ?_⟩, hconnect⟩
  · refine ⟨(hwell q hq).length_eq p hp, (hwell q hq).sorted p hp, fun a ha => ?_⟩
    obtain ⟨s, hs⟩ := (hwell q hq).place p hp a ha
    obtain ⟨v, hv, harg, hget⟩ := exists_argument_factor hgraph hargs hkept hs
    exact ⟨v.expr, _, hget, (hS.multilinear s v hv).isArgument harg⟩
  · intro i v c hmem hc
    have hv : v.components ≠ [] := ne_nil_of_mem hc
    have hlt : i < nodes.length := by
      rw [hlen]
      exact (List.getElem?_eq_some_iff.1 (hgraph.getElem?_nodes hmem)).1
    have hn := (mem_targets_iff hgraph).2 ⟨hmem, getElem?_eq_getElem hlt, hv⟩
    rcases hrecorded _ hn c hc with ⟨hempty, hrank, hnone⟩ | ⟨g, hg, hsome⟩
    · -- a target without arguments in a form with arguments is zero
      have hfree : v.expr.argumentNumbers = ∅ := (htarget _ hn).1.eq_nil_iff.1 hempty
      rcases hS.targets i v hmem hv with hcard | ⟨-, hzero⟩
      · exact absurd hcard.symm (by simpa [hfree] using hrank)
      · rw [hnone, hzero]
        rfl
    · rw [hsome]
      refine inPlaces_sum (htarget _ hn).1 (fun a s hs => ?_) hg
      obtain ⟨w, hw, -, hget⟩ := exists_argument_factor hgraph hargs hkept hs
      rw [hget, nodeValue_eq hgraph hw]
      rfl

section Found

variable {out : List (Nat × Factors)}

lemma aligned_start (F : List Expr) : Aligned F (F.map fun e => ({ expr := e } : FactorVertex)) :=
  by
  refine ⟨?_, by simp⟩
  rw [map_map]
  exact map_id F

lemma marks_start (F : List Expr) (n : Nat) :
    marks n (F.map fun e => ({ expr := e } : FactorVertex)) = [] := by
  induction F generalizing n with
  | nil => rfl
  | cons e F ih => exact ih (n + 1)

lemma TargetsFound.lt_length (h : TargetsFound I τ S rank F out) :
    ∀ q ∈ out, ∀ p ∈ q.2, p.2 < F.length := by
  intro q hq p hp
  obtain ⟨x, hx, -⟩ := h.factor q hq p hp
  exact (List.getElem?_eq_some_iff.1 hx).1

lemma TargetsFound.aligned (h : TargetsFound I τ S rank F out) (val : Nat → K) (c : Nat) :
    Aligned F (markTargets (F.map fun e => { expr := e }) out) ∧
      targetSum I τ val (markTargets (F.map fun e => { expr := e }) out) c =
        ((out.lookup c).map (factorSum I τ val F)).getD 0 := by
  obtain ⟨haligned, hsum⟩ := targetSum_markTargets I τ val (aligned_start F) h.lt_length c
  refine ⟨haligned, hsum.trans ?_⟩
  rw [sum_lookup h.nodup]
  simp [targetSum, markedSum, Function.comp_def]

lemma TargetsFound.mem_nodes (h : TargetsFound I τ S rank F out)
    (hG : connect (markTargets (F.map fun e => { expr := e }) out) = .ok G) {j : Nat} :
    (∀ {w}, (j, w) ∈ G.nodes →
      (markTargets (F.map fun e => { expr := e }) out)[j]? = some w ∧ F[j]? = some w.expr) ∧
    ∀ {x}, F[j]? = some x → ∃ w, (j, w) ∈ G.nodes ∧ w.expr = x :=
  mem_nodes_of_aligned (h.aligned 0 0).1 (nodes_connect hG)

lemma TargetsFound.componentSum_eq (h : TargetsFound I τ S rank F out)
    (hG : connect (markTargets (F.map fun e => { expr := e }) out) = .ok G) {i c : Nat}
    {v : Vertex} (hmem : (i, v) ∈ S.nodes) (hc : c ∈ v.components) :
    componentSum I τ G c = v.expr.value I.toInterpretation τ := by
  have hnodes := nodes_connect hG
  obtain ⟨haligned, hsum⟩ := h.aligned (factorValue I τ G) c
  have hval := funext (factorValue_eq (I := I) (τ := τ) haligned.1 hnodes)
  rw [componentSum, hnodes, map_snd_zip (by simp), hsum, hval]
  exact h.sum i v c hmem hc

/-- Every mark of the graph was found for a target. -/
lemma TargetsFound.exists_of_mem_targets (h : TargetsFound I τ S rank F out)
    (hG : connect (markTargets (F.map fun e => { expr := e }) out) = .ok G) {j : Nat}
    {w : FactorVertex}
    (hj : (j, w) ∈ G.nodes) {k : List Nat} (hk : k ∈ w.targets) : ∃ q ∈ out, (k, j) ∈ q.2 := by
  obtain ⟨hal, hperm⟩ := marks_markTargets (aligned_start F) h.lt_length
  obtain ⟨c, hc⟩ := exists_mem_zip (hal.2 w (mem_of_getElem? ((h.mem_nodes hG).1 hj).1)) hk
  have hmark : (j, k, c) ∈ terms G := mem_flatMap.2 ⟨_, hj, mem_map_of_mem hc⟩
  rw [terms_eq_marks (nodes_connect hG), hperm.mem_iff, marks_start, nil_append] at hmark
  obtain ⟨q, hq, hmap⟩ := mem_flatMap.1 hmark
  obtain ⟨p, hp, heq⟩ := mem_map.1 hmap
  cases heq
  exact ⟨q, hq, hp⟩

end Found

/-- The targets of a multilinear graph are the sums of their marked factors times arguments.  Each
    factor is marked with sorted places of as many arguments as the form has, and depends on none
    itself. -/
theorem value_eq_componentSum_factorize [Builder] (hB : Valued I.toInterpretation τ)
    {S : Graph Nat Vertex} {rank : Nat} {G : Graph Nat FactorVertex}
    (hS : MultilinearGraph I τ S rank) (hfix : ∀ e n, IsArgument e n →
      I.conj (e.value I.toInterpretation τ) = e.value I.toInterpretation τ)
    (h : (factorize S rank).graph = .ok G) :
    (∀ i v c, (i, v) ∈ S.nodes → c ∈ v.components →
      v.expr.value I.toInterpretation τ = componentSum I τ G c) ∧
    (∀ j w, (j, w) ∈ G.nodes → ∀ k ∈ w.targets, k.length = rank ∧ k.Pairwise (· ≤ ·) ∧
      ∀ a ∈ k, ∃ x n, (a, x) ∈ G.nodes ∧ IsArgument x.expr n) ∧
    ∀ j w, (j, w) ∈ G.nodes → w.targets ≠ [] → w.expr.argumentNumbers = ∅ := by
  obtain ⟨F, out, hfound, hG⟩ := targetsFound_factorize hB hS hfix h
  refine ⟨fun i v c hmem hc => (hfound.componentSum_eq hG hmem hc).symm, ?_, ?_⟩
  · intro j w hj k hk
    obtain ⟨q, hq, hkj⟩ := hfound.exists_of_mem_targets hG hj hk
    obtain ⟨hlength, hsorted, hargs⟩ := hfound.key q hq _ hkj
    refine ⟨hlength, hsorted, fun a ha => ?_⟩
    obtain ⟨x, n, hx, harg⟩ := hargs a ha
    obtain ⟨u, hu, rfl⟩ := (hfound.mem_nodes hG).2 hx
    exact ⟨u, n, hu, harg⟩
  · intro j w hj hne
    obtain ⟨k, hk⟩ := List.exists_mem_of_ne_nil _ hne
    obtain ⟨q, hq, hkj⟩ := hfound.exists_of_mem_targets hG hj hk
    obtain ⟨x, hx, hfree⟩ := hfound.factor q hq _ hkj
    obtain rfl : x = w.expr := Option.some.inj (hx.symm.trans ((hfound.mem_nodes hG).1 hj).2)
    exact hfree

/-- Targets that all depend on as many arguments as there are. -/
lemma targets_of_card (h : ∀ n ∈ S.nodes, n.2.components ≠ [] →
      n.2.expr.argumentNumbers.card = rank) (i : Nat) (v : Vertex) (hv : (i, v) ∈ S.nodes)
    (hc : v.components ≠ []) : v.expr.argumentNumbers.card = rank ∨
      v.expr.argumentNumbers = ∅ ∧ v.expr.value I.toInterpretation τ = 0 :=
  .inl (h (i, v) hv hc)

/-! ### A form with one argument -/

def testFunction : Expr := .terminal (.argument 0 none default none)

def weightFunction : Expr := .terminal (.coefficient false 0 default none)

/-- The integrand `w conj(v) + v / w`. -/
def linearIntegrand : Expr :=
  .sum (.product weightFunction (.node .conj [testFunction]))
    (.node .division [testFunction, weightFunction])

/-- The argument is three and the coefficient two. -/
def linearValues : Valuation ℚ where
  value e := if 0 ∈ e.argumentNumbers then 3 else 2
  value_congr {a b} h := by
    have hab : a.argumentNumbers = b.argumentNumbers := Expr.argumentNumbers_congr h
    rw [hab]

lemma multilinear_linearIntegrand {x : Expr} (hx : x ∈ Graph.collectAll true [] [linearIntegrand]) :
    Multilinear rational.toInterpretation linearValues x := by
  have hv : Multilinear rational.toInterpretation linearValues testFunction :=
    .argument ⟨⟨none, default, none, rfl⟩, by decide⟩
  have hw : weightFunction.argumentNumbers = ∅ := by decide
  have hcollected : Graph.collectAll true [] [linearIntegrand] =
      [weightFunction, testFunction, .node .conj [testFunction],
        .product weightFunction (.node .conj [testFunction]),
        .node .division [testFunction, weightFunction], linearIntegrand] := rfl
  rw [hcollected] at hx
  simp only [mem_cons, not_mem_nil, or_false] at hx
  have hconj : Multilinear rational.toInterpretation linearValues (.node .conj [testFunction]) :=
    .conj hv
  have hproduct : Multilinear rational.toInterpretation linearValues
      (.product weightFunction (.node .conj [testFunction])) :=
    .product (.free hw) hconj (by decide)
  have hdivision : Multilinear rational.toInterpretation linearValues
      (.node .division [testFunction, weightFunction]) := .division hv hw
  rcases hx with rfl | rfl | rfl | rfl | rfl | rfl
  · exact .free hw
  · exact hv
  · exact hconj
  · exact hproduct
  · exact hdivision
  · exact .sum hproduct hdivision (by decide)

def linearGraph : Graph Nat Vertex :=
  ((Graph.ofExprs true [linearIntegrand] >>= Scalar.connect).toOption).getD {}

lemma multilinearGraph_linearGraph : MultilinearGraph rational linearValues linearGraph 1 where
  toScalarGraph := by
    obtain ⟨g, hg⟩ : ∃ g, Graph.ofExprs true [linearIntegrand] = .ok g := ⟨_, Graph.ofExprs_eq ..⟩
    have hS : Scalar.connect g = .ok linearGraph := by
      rw [linearGraph, hg]
      cases Graph.ofExprs_eq_ok hg
      rfl
    exact scalarGraph_of_connect hg hS
  multilinear i v hv := by
    have hexprs : linearGraph.nodes.map (·.2.expr) =
        Graph.collectAll true [] [linearIntegrand] := by
      rw [linearGraph, Graph.ofExprs_eq]
      rfl
    exact multilinear_linearIntegrand (hexprs ▸ mem_map_of_mem hv)
  targets := targets_of_card (by decide +kernel)

/-- The factors of `w conj(v) + v / w` add up to it, also when products of factors are
    simplified. -/
theorem value_eq_componentSum_linearGraph :
    MultilinearGraph rational linearValues linearGraph 1 ∧
      linearIntegrand.value rational.toInterpretation linearValues = 15 / 2 ∧
      ∃ G, (@factorize .folding linearGraph 1).graph = .ok G ∧
        componentSum rational linearValues G 0 = 15 / 2 := by
  have hvalue : linearIntegrand.value rational.toInterpretation linearValues = 15 / 2 := by
    decide +kernel
  have hsome : ((@factorize .folding linearGraph 1).graph.toOption).isSome = true := by
    decide +kernel
  obtain ⟨G, hG⟩ : ∃ G, (@factorize .folding linearGraph 1).graph = .ok G := by
    cases hgraph : (@factorize .folding linearGraph 1).graph with
    | ok G => exact ⟨G, rfl⟩
    | error e => simp [hgraph, Except.toOption] at hsome
  have hmem : (5, { expr := linearIntegrand, components := [0] }) ∈ linearGraph.nodes :=
    List.mem_of_getElem? (i := 5) (by rw [linearGraph, Graph.ofExprs_eq]; rfl)
  have hsum := (@value_eq_componentSum_factorize _ _ _ _ .folding
    (fun op _ => Builder.sound_folding op) _ _ _ multilinearGraph_linearGraph (fun _ _ _ => rfl)
    hG).1 5 _ 0 hmem (by simp)
  exact ⟨multilinearGraph_linearGraph, hvalue, G, hG, hsum.symm.trans hvalue⟩

end Graph

end FormKernel.Factor
