import FormKernel.Proofs.Factor.Closed
import FormKernel.Proofs.Factor.Factorize
import FormKernel.Proofs.Scalar.Plain

/-!
# No argument is lost

Whatever the operator, each product of arguments of an operand is part of a product of arguments of
the result.  Every node of a scalar graph is below a target, so each argument is in a product that
the factors of some target stand for.
-/

namespace FormKernel.Factor

open Form (Builder Expr Operator)
open FormKernel.Graph (Vertex)
open List

variable {F F' : List Expr} {f g r : Factors}

/-- A check that did not fail. -/
lemma yields_of_ite_throw {α : Type} {c : Prop} [Decidable c] {e : Fault} {m : Unit → Building α}
    {a : α} (h : Yields (if c then throw e >>= m else m ()) F a F') : ¬c ∧
      Yields (m ()) F a F' := by
  split at h
  · obtain ⟨_, _, hthrow, -⟩ := yields_bind.1 h
    exact absurd hthrow yields_throw
  · next hc => exact ⟨hc, h⟩

/-- Known factors of different products of arguments. -/
structure Tidy (F : List Expr) (f : Factors) : Prop where
  nodup : (keys f).Nodup
  number : ∀ p ∈ f, p.2 < F.length
  sorted : ∀ k ∈ keys f, k.Pairwise (· ≤ ·)

lemma Tidy.mono (h : Tidy F f) (hF : F <+: F') : Tidy F' f :=
  ⟨h.nodup, fun p hp => Nat.lt_of_lt_of_le (h.number p hp) hF.length_le, h.sorted⟩

lemma tidy_nil : Tidy F [] := ⟨nodup_nil, by simp, by simp [keys]⟩

/-- Factors for a list of products of arguments. -/
lemma tidy_of_numbered {ks : List (List Nat)} (hks : ks.Nodup)
    (hsorted : ∀ k ∈ ks, k.Pairwise (· ≤ ·))
    (h : Forall₂ (fun k q => Numbered k q F) ks r) : Tidy F r ∧ keys r = ks := by
  have hkeys : keys r = ks := by
    clear hks hsorted
    induction h with
    | nil => rfl
    | cons hkq _ ih => rw [keys, map_cons, hkq.1, ← ih, keys]
  refine ⟨⟨hkeys ▸ hks, fun q hq => ?_, hkeys ▸ hsorted⟩, hkeys⟩
  obtain ⟨k, -, -, hlt⟩ := exists_of_forall₂_right h hq
  exact hlt

lemma keys_sorted (f : Factors) : keys (Factor.sorted f) = sortKeys (keys f) := by
  rw [keys, Factor.sorted, map_filterMap]
  calc (sortKeys (keys f)).filterMap _
      = (sortKeys (keys f)).filterMap some := filterMap_congr fun k hk => by
        obtain ⟨i, hi⟩ := lookup_isSome_of_mem_keys (mem_sortKeys.1 hk)
        rw [hi]
        rfl
    _ = sortKeys (keys f) := filterMap_some

lemma Tidy.resort (h : Tidy F f) : Tidy F (Factor.sorted f) where
  nodup := keys_sorted f ▸ nodup_sortKeys _
  number p hp := h.number p (mem_of_mem_sorted hp)
  sorted k hk := h.sorted k (mem_sortKeys.1 (keys_sorted f ▸ hk))

variable {e : Expr} {change : Expr → Expr} {scalars : List (Option Expr)}

lemma number_of_insert {i : Nat} (h : Yields (insert e) F i F') : F <+: F' ∧ i < F'.length := by
  obtain ⟨hF, x, hx, -⟩ := h.insert
  exact ⟨hF, (List.getElem?_eq_some_iff.1 hx).1⟩

lemma numbered_of_insert {k : List Nat} {q : List Nat × Nat}
    (h : Yields (do return (k, ← insert e)) F q F') : F <+: F' ∧ Numbered k q F' := by
  obtain ⟨i, G, hi, h⟩ := yields_bind.1 h
  obtain ⟨rfl, rfl⟩ := yields_pure.1 h
  exact (number_of_insert hi).imp_right fun hlt => ⟨rfl, hlt⟩

/-- The factors of an operator: each product of arguments of an operand is part of one of its
    own. -/
def Extends (F : List Expr) (fac : List Factors) (r : Factors) (F' : List Expr) : Prop :=
  F <+: F' ∧ Tidy F' r ∧ ∀ f ∈ fac, ∀ k ∈ keys f, ∃ l ∈ keys r, k ⊆ l

lemma tidy_mapFactors (hf : Tidy F f) (h : Yields (mapFactors f change) F r F') :
    F <+: F' ∧ Tidy F' r ∧ keys r = keys f := by
  obtain ⟨hF, hr⟩ := Yields.mapM (P := fun G (p : List Nat × Nat) q => Numbered p.1 q G)
    Numbered.mono (fun p _ G G' q _ hq => by
      obtain ⟨e, -, hq⟩ := yields_read yields_factorAt hq
      exact numbered_of_insert hq) h
  exact ⟨hF, tidy_of_numbered hf.nodup hf.sorted (forall₂_map_left_iff.2 hr)⟩

/-- The factors for the products of arguments of two operands. -/
lemma extends_of_sortKeys (hf : Tidy F f) (hg : Tidy F g) (hF : F <+: F')
    (h : Forall₂ (fun k q => Numbered k q F') (sortKeys (keys f ++ keys g)) r) :
    Extends F [f, g] r F' := by
  have hsorted : ∀ k ∈ sortKeys (keys f ++ keys g), k.Pairwise (· ≤ ·) := by
    intro k hk
    rcases mem_append.1 (mem_sortKeys.1 hk) with hk | hk
    · exact hf.sorted k hk
    · exact hg.sorted k hk
  obtain ⟨hr, hkeys⟩ := tidy_of_numbered (nodup_sortKeys _) hsorted h
  refine ⟨hF, hr, ?_⟩
  simp only [forall_mem_cons, hkeys, mem_sortKeys, mem_append]
  exact ⟨fun k hk => ⟨k, .inl hk, List.Subset.refl k⟩,
    fun k hk => ⟨k, .inr hk, List.Subset.refl k⟩, by simp⟩

variable {fac : List Factors}

lemma sum_extends [Builder] (hfac : ∀ f ∈ fac, Tidy F f)
    (h : Yields (sum fac) F r F') : Extends F fac r F' := by
  unfold Factor.sum at h
  split at h
  case h_2 => exact absurd h yields_throw
  next f g =>
  have hf : Tidy F f := hfac f (by simp)
  have hg : Tidy F g := hfac g (by simp)
  dsimp only at h
  split at h
  · exact absurd h yields_throw
  · obtain ⟨hF, hr⟩ := Yields.mapM (P := fun G k q => Numbered k q G) Numbered.mono
      (fun k _ G G' q hFG hq => by
        obtain ⟨-, hq⟩ := yields_of_ite_throw hq
        split at hq
        · obtain ⟨a, -, hq⟩ := yields_read yields_factorAt hq
          obtain ⟨b, -, hq⟩ := yields_read yields_factorAt hq
          exact numbered_of_insert hq
        · next i hi _ =>
          obtain ⟨rfl, rfl⟩ := yields_pure.1 hq
          exact ⟨prefix_refl _, rfl, (hf.mono hFG).number _ (mem_of_lookup_eq_some hi)⟩
        · next i _ hi =>
          obtain ⟨rfl, rfl⟩ := yields_pure.1 hq
          exact ⟨prefix_refl _, rfl, (hg.mono hFG).number _ (mem_of_lookup_eq_some hi)⟩
        · exact absurd hq yields_throw) h
    exact extends_of_sortKeys hf hg hF hr

/-- Steps that keep all products of arguments and add some. -/
lemma tidy_foldlM {α : Type} {step : Factors → α → Building Factors} {A : α → List (List Nat)}
    {xs : List α} {out : Factors}
    (hstep : ∀ x ∈ xs, ∀ {G G' s t}, F <+: G → Tidy G s → Yields (step s x) G t G' →
      G <+: G' ∧ Tidy G' t ∧ ∀ k, k ∈ keys s ∨ k ∈ A x → k ∈ keys t)
    (hout : Tidy F out) (h : Yields (xs.foldlM step out) F r F') :
    F <+: F' ∧ Tidy F' r ∧ ∀ k, k ∈ keys out ∨ (∃ x ∈ xs, k ∈ A x) → k ∈ keys r := by
  induction xs generalizing out F with
  | nil =>
    obtain ⟨rfl, rfl⟩ := yields_pure.1 h
    exact ⟨prefix_refl _, hout, by simp⟩
  | cons x xs ih =>
    rw [foldlM_cons] at h
    obtain ⟨mid, G, hmid, h⟩ := yields_bind.1 h
    obtain ⟨hFG, hmid, hkept⟩ := hstep x (by simp) (prefix_refl _) hout hmid
    obtain ⟨hGF', hr, hrest⟩ := ih
      (fun y hy _ _ _ _ hGH => hstep y (mem_cons_of_mem _ hy) (hFG.trans hGH)) hmid h
    refine ⟨hFG.trans hGF', hr, ?_⟩
    rintro k (hk | ⟨y, hy, hk⟩)
    · exact hrest k (.inl (hkept k (.inl hk)))
    · rcases mem_cons.1 hy with rfl | hy
      · exact hrest k (.inl (hkept k (.inr hk)))
      · exact hrest k (.inr ⟨y, hy, hk⟩)

lemma Tidy.assign {k : List Nat} {i : Nat} (h : Tidy F f) (hi : i < F.length)
    (hk : k.Pairwise (· ≤ ·)) : Tidy F (assign k i f) where
  nodup := nodup_keys_assign h.nodup
  number p hp := by
    rcases mem_assign hp with rfl | hp
    · exact hi
    · exact h.number p hp
  sorted l hl := by
    rcases mem_keys_assign.1 hl with rfl | hl
    · exact hk
    · exact h.sorted l hl

lemma product_extends [Builder] {s : List (Option Expr)} (hf : Tidy F f) (hg : Tidy F g)
    (hfne : f ≠ [])
    (hgne : g ≠ []) (h : Yields (product [f, g] s) F r F') : Extends F [f, g] r F' := by
  obtain ⟨p, hp⟩ := exists_mem_of_ne_nil _ (sorted_ne_nil hfne)
  obtain ⟨q, hq⟩ := exists_mem_of_ne_nil _ (sorted_ne_nil hgne)
  have hall : F <+: F' ∧ Tidy F' r ∧ ∀ k, k ∈ keys [] ∨ (∃ x ∈ Factor.sorted f,
      k ∈ (keys (Factor.sorted g)).map fun l => (x.1 ++ l).mergeSort) → k ∈ keys r := by
    obtain ⟨_, f, rfl⟩ := exists_cons_of_ne_nil hfne
    obtain ⟨_, g, rfl⟩ := exists_cons_of_ne_nil hgne
    refine tidy_foldlM (fun ⟨k, i⟩ _ G G' s t _ hs ht => ?_) tidy_nil h
    obtain ⟨a, -, ht⟩ := yields_read yields_factorAt ht
    obtain ⟨hG, ht, hkept⟩ := tidy_foldlM (A := fun q => [(k ++ q.1).mergeSort])
      (fun ⟨l, j⟩ _ H H' s t _ hs ht => by
        obtain ⟨b, -, ht⟩ := yields_read yields_factorAt ht
        obtain ⟨n, _, hn, ht⟩ := yields_bind.1 ht
        obtain ⟨rfl, rfl⟩ := yields_pure.1 ht
        obtain ⟨hH, hlt⟩ := number_of_insert hn
        refine ⟨hH, (hs.mono hH).assign hlt (pairwise_mergeSort_nat _), fun m hm => ?_⟩
        exact mem_keys_assign.2 (hm.symm.imp_left mem_singleton.1)) hs ht
    refine ⟨hG, ht, fun m hm => hkept m (hm.imp_right fun hm => ?_)⟩
    obtain ⟨l, hl, rfl⟩ := mem_map.1 hm
    obtain ⟨q, hq, rfl⟩ := mem_map.1 hl
    exact ⟨q, hq, mem_singleton_self _⟩
  obtain ⟨hF, hr, hkeys⟩ := hall
  have hmem : ∀ k ∈ keys f, ∀ l ∈ keys g, (k ++ l).mergeSort ∈ keys r := by
    intro k hk l hl
    rw [← mem_sortKeys, ← keys_sorted] at hk hl
    obtain ⟨x, hx, rfl⟩ := mem_map.1 hk
    exact hkeys _ (.inr ⟨x, hx, mem_map_of_mem hl⟩)
  have hp' := mem_map_of_mem (f := (·.1)) (mem_of_mem_sorted hp)
  have hq' := mem_map_of_mem (f := (·.1)) (mem_of_mem_sorted hq)
  refine ⟨hF, hr, ?_⟩
  simp only [forall_mem_cons]
  refine ⟨fun k hk => ⟨_, hmem k hk _ hq', ?_⟩, fun l hl => ⟨_, hmem _ hp' l hl, ?_⟩, by simp⟩
  · exact fun s hs => mem_mergeSort.2 (mem_append_left _ hs)
  · exact fun s hs => mem_mergeSort.2 (mem_append_right _ hs)

/-- The factors of an operator that are made from those of its only operand with arguments. -/
lemma mapFactors_extends (hf : Tidy F f) (hfac : ∀ g ∈ fac, g = [] ∨ g = f)
    (h : Yields (mapFactors (Factor.sorted f) change) F r F') : Extends F fac r F' := by
  obtain ⟨hF, hr, hkeys⟩ := tidy_mapFactors hf.resort h
  refine ⟨hF, hr, fun g hg k hk => ⟨k, ?_, List.Subset.refl k⟩⟩
  rcases hfac g hg with rfl | rfl
  · exact absurd hk not_mem_nil
  · rw [hkeys, keys_sorted]
    exact mem_sortKeys.2 hk

lemma conditional_extends [Builder] (hfac : ∀ f ∈ fac, Tidy F f) (hlength : fac.length = 3)
    (h : Yields (conditional fac scalars) F r F') : Extends F fac r F' := by
  obtain ⟨c, f, g, rfl⟩ := length_eq_three.1 hlength
  simp only [conditional, yields_bind, yields_itemAt] at h
  obtain ⟨_, _, ⟨h₀, rfl⟩, _, _, ⟨h₁, rfl⟩, _, _, ⟨h₂, rfl⟩, h⟩ := h
  cases h₀
  cases h₁
  cases h₂
  obtain ⟨hc, h⟩ := yields_of_ite_throw h
  obtain ⟨-, h⟩ := yields_of_ite_throw h
  simp only [yields_bind, yields_itemAt, yields_expect] at h
  obtain ⟨test, _, ⟨-, rfl⟩, _, _, ⟨-, rfl⟩, _, _, ⟨-, rfl⟩, _, _, ⟨-, rfl⟩, _, _, ⟨-, rfl⟩,
    _, _, ⟨-, rfl⟩, _, _, ⟨-, rfl⟩, h⟩ := h
  obtain ⟨hF, hr⟩ := Yields.mapM (P := fun G k q => Numbered k q G) Numbered.mono
    (fun k _ G G' q hFG hq => by
      obtain ⟨a, G₁, ha, hq₁⟩ := yields_bind.1 hq
      obtain ⟨b, G₂, hb, hq₂⟩ := yields_bind.1 hq₁
      obtain rfl : G₁ = G := by
        split at ha
        · exact (yields_pure.1 ha).2.symm
        · exact (yields_factorAt.1 ha).2.symm
      obtain rfl : G₂ = G₁ := by
        split at hb
        · exact (yields_pure.1 hb).2.symm
        · exact (yields_factorAt.1 hb).2.symm
      cases test with
      | none => exact absurd hq₂ yields_throw
      | some c => exact numbered_of_insert hq₂) h
  obtain ⟨hF, hr, hkeys⟩ := extends_of_sortKeys (hfac f (by simp)) (hfac g (by simp)) hF hr
  obtain rfl : c = [] := by simpa using hc
  exact ⟨hF, hr, forall_mem_cons.2 ⟨by simp [keys], hkeys⟩⟩

/-- Whatever the operator, no product of arguments of an operand is lost. -/
lemma combine_extends [Builder] {op : Operator} {ops : List Expr} {shape : List Nat} {fi : List Int}
    {dims : List Nat} (hfac : ∀ f ∈ fac, Tidy F f) (harity : ∀ n ∈ arity? op, fac.length = n)
    (h : Yields (combine (.operator op ops shape fi dims) fac scalars) F r F') :
    Extends F fac r F' := by
  unfold combine at h
  split at h
  · exact sum_extends hfac h
  · next hop =>
    unfold product at h
    split at h
    case h_2 => exact absurd h yields_throw
    next f g =>
    split at h
    · exact absurd h yields_throw
    · obtain ⟨_, -, h⟩ := yields_read yields_scalarAt h
      exact mapFactors_extends (hfac _ (by simp)) (by simp) h
    · obtain ⟨_, -, h⟩ := yields_read yields_scalarAt h
      exact mapFactors_extends (hfac _ (by simp)) (by simp) h
    · exact product_extends (s := scalars) (hfac _ (by simp)) (hfac _ (by simp))
        (cons_ne_nil _ _) (cons_ne_nil _ _) h
  · next hop =>
    cases hop
    obtain ⟨f, rfl⟩ := length_eq_one_iff.1 (harity 1 rfl)
    obtain ⟨_, hf, h⟩ := yields_read yields_itemAt h
    cases hf
    split at h
    · exact absurd h yields_throw
    · obtain ⟨hF, hr, hkeys⟩ := tidy_mapFactors (hfac _ (by simp)) h
      refine ⟨hF, hr, ?_⟩
      simp only [forall_mem_singleton, hkeys]
      exact fun k hk => ⟨k, hk, List.Subset.refl k⟩
  · next hop =>
    cases hop
    obtain ⟨f, g, rfl⟩ := length_eq_two.1 (harity 2 rfl)
    obtain ⟨_, hf, h⟩ := yields_read yields_itemAt h
    obtain ⟨_, hg, h⟩ := yields_read yields_itemAt h
    cases hf
    cases hg
    obtain ⟨hg, h⟩ := yields_of_ite_throw h
    split at h
    · exact absurd h yields_throw
    · obtain ⟨_, -, h⟩ := yields_read yields_scalarAt h
      have hnil : g = [] := by simpa using hg
      exact mapFactors_extends (hfac _ (by simp)) (by simp [hnil]) h
  · next hop =>
    cases hop
    exact conditional_extends hfac (harity 3 rfl) h
  · split at h <;> exact absurd h yields_throw

/-! ## All nodes -/

section Nodes

variable {S : Graph Nat Vertex} {arguments : List Nat} {one i : Nat} {v : Vertex}
  {done nodes : List Factors}

/-- The products of arguments of a node, if those of its operands are known. -/
lemma nodeFactors_extends [Builder] (hS : PlainGraph S) (hmem : (i, v) ∈ S.nodes)
    (hone : one < F.length)
    (hdone : ∀ f ∈ done, Tidy F f) (h : Yields (nodeFactors S arguments one done (i, v)) F f F') :
    F <+: F' ∧ Tidy F' f ∧ (i ∈ arguments → [i] ∈ keys f) ∧
      ∀ d ∈ S.out i, ∀ g, done[d]? = some g → ∀ k ∈ keys g, ∃ l ∈ keys f, k ⊆ l := by
  unfold nodeFactors at h
  dsimp only at h
  by_cases hi : arguments.contains i = true
  · rw [if_pos hi] at h
    obtain ⟨_, hempty, h⟩ := yields_read yields_expect h
    obtain ⟨rfl, rfl⟩ := yields_pure.1 h
    rw [isEmpty_iff.1 hempty]
    exact ⟨prefix_refl _,
      ⟨by simp [keys], by simpa using hone, by simp [keys]⟩, by simp [keys], by simp⟩
  rw [if_neg hi] at h
  obtain ⟨fac, G, hfac, h⟩ := yields_bind.1 h
  obtain ⟨hFG, hdeps⟩ := yields_deps hfac
  have htidy : ∀ g ∈ fac, Tidy G g := by
    intro g hg
    obtain ⟨d, -, hd⟩ := exists_of_forall₂_right hdeps hg
    exact (hdone g (mem_of_getElem? hd)).mono hFG
  have hsome : ∀ d ∈ S.out i, ∀ g, done[d]? = some g → g ∈ fac := by
    intro d hd g hg
    obtain ⟨g', hg', hdg⟩ := exists_of_forall₂_right hdeps.flip hd
    exact Option.some.inj (hg.symm.trans hdg) ▸ hg'
  have hnot : ¬ i ∈ arguments := by simpa using hi
  by_cases hempty : fac.all (·.isEmpty) = true
  · rw [if_pos hempty] at h
    obtain ⟨u, G', hu, h⟩ := yields_bind.1 h
    obtain ⟨rfl, rfl⟩ := yields_pure.1 h
    refine ⟨hFG.trans (number_of_insert hu).1, tidy_nil, fun harg => absurd harg hnot, ?_⟩
    intro d hd g hg k hk
    rw [all_eq_true] at hempty
    rw [isEmpty_iff.1 (hempty g (hsome d hd g hg))] at hk
    exact absurd hk not_mem_nil
  · rw [if_neg hempty] at h
    have hlength := hdeps.length_eq
    have hleaf : (v.expr.isTerminal || v.expr.isModifier) = false := by
      -- a leaf has no operands with arguments
      rw [← Bool.not_eq_true]
      intro hleaf
      rw [hS.leaf hmem hleaf, length_nil, eq_comm, length_eq_zero_iff] at hlength
      simp [hlength] at hempty
    have hoperands := (hS.operands hmem hleaf).length_eq
    have hplain := hS.plain hmem
    cases hv : v.expr with
    | terminal t => simp [hv, Expr.isTerminal] at hleaf
    | operator op ops shape fi dims =>
      rw [hv] at h hplain hoperands hleaf
      have harity : ∀ n ∈ arity? op, fac.length = n := by
        cases hplain with
        | leaf hmodified => simp [Expr.isModified, Expr.modified?_operator hleaf] at hmodified
        | node _ harity _ => exact fun n hn => by rw [← hlength, hoperands]; exact harity n hn
      obtain ⟨hGF', hf, hkeys⟩ := combine_extends htidy harity h
      exact ⟨hFG.trans hGF', hf, fun harg => absurd harg hnot,
        fun d hd g hg => hkeys g (hsome d hd g hg)⟩

/-- What is known about the factors of the nodes so far. -/
structure Grown (S : Graph Nat Vertex) (arguments : List Nat) (F : List Expr)
    (done : List Factors) : Prop where
  tidy : ∀ f ∈ done, Tidy F f
  argument : ∀ {i f}, i ∈ arguments → done[i]? = some f → [i] ∈ keys f
  operand : ∀ {i v d f g}, (i, v) ∈ S.nodes → d ∈ S.out i → done[i]? = some f →
    done[d]? = some g → ∀ k ∈ keys g, ∃ l ∈ keys f, k ⊆ l

lemma factorNodes_grown [Builder] (hS : PlainGraph S) (hone : one < F.length)
    (h : factorNodes (nodeFactors S arguments one) S.nodes [] F = (nodes, .ok F')) :
    F <+: F' ∧ nodes.length = S.nodes.length ∧ Grown S arguments F' nodes := by
  refine (factorNodes_run hS.toScalarGraph (P :=
    fun F done => one < F.length ∧ Grown S arguments F done)
    (fun {i v done f F G} hmem hi hdone hstep => ?_) (nil_append _).symm rfl
    ⟨hone, by simp, by simp, by simp⟩ h).imp_right (And.imp_right And.right)
  obtain ⟨hone, hdone⟩ := hdone
  obtain ⟨hFG, hf, harg, hops⟩ := nodeFactors_extends hS hmem hone hdone.tidy hstep
  subst hi
  refine ⟨hFG, Nat.lt_of_lt_of_le hone hFG.length_le, ?_, fun {j g} hj hg => ?_,
    fun {j w d g g'} hw hd hg hg' => ?_⟩
  · exact forall_mem_append.2 ⟨fun g hg => (hdone.tidy g hg).mono hFG, by simpa using hf⟩
  · rcases getElem?_concat hg with hg | ⟨rfl, rfl⟩
    · exact hdone.argument hj hg
    · exact harg hj
  · have hdj := hS.earlier hw hd
    rcases getElem?_concat hg with hg | ⟨rfl, rfl⟩
    · rcases getElem?_concat hg' with hg' | ⟨rfl, -⟩
      · exact hdone.operand hw hd hg hg'
      · have hlt := (List.getElem?_eq_some_iff.1 hg).1
        omega
    · rcases getElem?_concat hg' with hg' | ⟨rfl, -⟩
      · exact hops d hd g' hg'
      · omega

/-- A product of arguments of a node is part of one of a target. -/
lemma Grown.exists_target (hS : PlainGraph S) (h : Grown S arguments F nodes)
    (hlen : nodes.length = S.nodes.length) {i : Nat} {v : Vertex} {f : Factors}
    (hmem : (i, v) ∈ S.nodes) (hf : nodes[i]? = some f) {k : List Nat} (hk : k ∈ keys f) :
    ∃ j w g, (j, w) ∈ S.nodes ∧ w.components ≠ [] ∧ nodes[j]? = some g ∧ ∃ l ∈ keys g, k ⊆ l := by
  rcases hS.used hmem with htarget | ⟨j, w, hj, hij⟩
  · exact ⟨i, v, f, hmem, htarget, hf, k, hk, List.Subset.refl k⟩
  · have hlt : j < nodes.length := by
      rw [hlen]
      exact (List.getElem?_eq_some_iff.1 (hS.getElem?_nodes hj)).1
    have hearlier := hS.earlier hj hij
    have hg := getElem?_eq_getElem hlt
    obtain ⟨l, hl, hkl⟩ := h.operand hj hij hg hf k hk
    obtain ⟨n, x, g', hn, hx, hg', m, hm, hlm⟩ := h.exists_target hS hlen hj hg hl
    exact ⟨n, x, g', hn, hx, hg', m, hm, List.Subset.trans hkl hlm⟩
termination_by nodes.length - i

end Nodes

/-! ## The terms of a factorisation -/

section Terms

variable {arguments : List Nat} {rank : Nat} {S : Graph Nat Vertex} {G : Graph Nat FactorVertex}

lemma nodup_keys_of_inPlaces (hf : Tidy F f)
    (h : InPlaces arguments rank F e f g) : (keys g).Nodup := by
  cases h with
  | whole => simp [keys]
  | placed _ hfg => exact nodup_keys_placed hf.nodup hf.sorted hfg

/-- Products of arguments in places have known factors. -/
lemma bounds_of_inPlaces (hf : Tidy F f) (h : InPlaces arguments rank F e f g) :
    ∀ p ∈ g, p.2 < F.length ∧ ∀ a ∈ p.1, a < arguments.length := by
  cases h with
  | whole _ hi => simpa using (List.getElem?_eq_some_iff.1 hi).1
  | placed _ hfg =>
    intro p hp
    obtain ⟨q, hq, hplaced, hnumber⟩ := exists_of_forall₂_right hfg hp
    refine ⟨hnumber ▸ hf.number q hq, fun a ha => ?_⟩
    obtain ⟨s, hs⟩ := hplaced.exists_argument ha
    exact (List.getElem?_eq_some_iff.1 hs).1

/-- Different products of arguments for each of different components. -/
lemma nodup_components {out : List (Nat × Factors)} (hout : (out.map (·.1)).Nodup)
    (hkeys : ∀ q ∈ out, (keys q.2).Nodup) :
    (out.flatMap fun q => q.2.map fun p => (p.1, q.1)).Nodup := by
  rw [nodup_flatMap]
  constructor
  · intro q hq
    have hpairs : q.2.map (fun p => (p.1, q.1)) = (keys q.2).map fun k => (k, q.1) := by simp [keys]
    rw [hpairs]
    exact (hkeys q hq).map fun k l hkl => (Prod.mk.inj hkl).1
  · rw [List.Nodup, pairwise_map] at hout
    refine hout.imp fun {q r} hqr t htq htr => ?_
    obtain ⟨_, -, rfl⟩ := mem_map.1 htq
    obtain ⟨_, -, heq⟩ := mem_map.1 htr
    exact hqr (Prod.mk.inj heq).2.symm

/-- The terms of a factorisation have different products of arguments or components.  The arguments
    are the first factors, and each of them is in a term. -/
lemma terms_factorize [Builder] (hS : PlainGraph S) (h : (factorize S rank).graph = .ok G) :
    ∃ arguments, argumentNodes S = .ok arguments ∧ ((terms G).map (·.2)).Nodup ∧
      (∀ a, (∃ t ∈ terms G, a ∈ t.2.1) ↔ a < arguments.length) ∧
      ∀ {a s}, arguments[a]? = some s → ∃ v w, (s, v) ∈ S.nodes ∧ (a, w) ∈ G.nodes ∧
        w.expr = v.expr := by
  have hgraph := hS.toScalarGraph
  obtain ⟨arguments, nodes, F, out, hargs, hrun, hfold, hG⟩ := graph_factorize_eq_ok hgraph h
  have hone : ((argumentExprs S arguments ++ [one]).findIdx? (· == one)).getD 0 <
      (argumentExprs S arguments ++ [one]).length := by
    cases hi : (argumentExprs S arguments ++ [one]).findIdx? (· == one) with
    | none => simp
    | some i => exact (findIdx?_eq_some_iff_getElem.1 hi).1
  obtain ⟨hF, hlen, hgrown⟩ := factorNodes_grown hS hone hrun
  have htidy : ∀ n ∈ (S.nodes.zip nodes).filter (fun n => !n.1.2.components.isEmpty),
      Tidy F n.2 := fun n hn => hgrown.tidy _ (of_mem_zip (mem_filter.1 hn).1).2
  obtain ⟨hout, hother, hrecorded⟩ := recorded_foldlM
    (fun n hn g hg => nodup_keys_of_inPlaces (htidy n hn) hg)
    (nodup_components_targets hgraph hlen) (by simp) (by simp) hfold
  have hfound : ∀ q ∈ out, (keys q.2).Nodup ∧
      ∀ p ∈ q.2, p.2 < F.length ∧ ∀ a ∈ p.1, a < arguments.length := by
    intro q hq
    obtain ⟨n, hn, hg⟩ := exists_recorded hout hother hrecorded hq
    exact ⟨nodup_keys_of_inPlaces (htidy n hn) hg, bounds_of_inPlaces (htidy n hn) hg⟩
  obtain ⟨hal, hperm⟩ := marks_markTargets (aligned_start F)
    fun q hq p hp => ((hfound q hq).2 p hp).1
  rw [← terms_eq_marks (nodes_connect hG), marks_start, nil_append] at hperm
  refine ⟨arguments, hargs, ?_, fun a => ⟨?_, fun ha => ?_⟩, fun {a s} ha => ?_⟩
  · rw [(hperm.map _).nodup_iff, map_flatMap]
    simpa [Function.comp_def] using nodup_components hout fun q hq => (hfound q hq).1
  · rintro ⟨t, ht, ha⟩
    obtain ⟨q, hq, hmap⟩ := mem_flatMap.1 (hperm.mem_iff.1 ht)
    obtain ⟨p, hp, rfl⟩ := mem_map.1 hmap
    exact ((hfound q hq).2 p hp).2 a ha
  · -- the product of the argument alone is part of one of a target
    have hs := getElem?_eq_getElem ha
    obtain ⟨v, hv, -, -⟩ := exists_argument_factor hgraph hargs hF hs
    have hlt : arguments[a] < nodes.length := by
      rw [hlen]
      exact (List.getElem?_eq_some_iff.1 (hS.getElem?_nodes hv)).1
    have hf := getElem?_eq_getElem hlt
    have hkey := hgrown.argument (getElem_mem ha) hf
    obtain ⟨j, w, g, hj, hw, hg, l, hl, hsub⟩ := hgrown.exists_target hS hlen hv hf hkey
    obtain ⟨c, hc⟩ := exists_mem_of_ne_nil _ hw
    rcases hrecorded _ ((mem_targets_iff hgraph).2 ⟨hj, hg, hw⟩) c hc with
      ⟨rfl, -, -⟩ | ⟨g', hg', hsome⟩
    · exact absurd hl not_mem_nil
    · cases hg' with
      | whole => exact absurd hl not_mem_nil
      | placed _ hfg =>
        obtain ⟨p, hp, rfl⟩ := mem_map.1 hl
        obtain ⟨q, hq, hplaced, -⟩ := exists_of_forall₂_right hfg.flip hp
        have hplace : some arguments[a] ∈ q.1.map (arguments[·]?) :=
          hplaced.perm.mem_iff.2 (mem_map_of_mem (hsub (mem_singleton_self _)))
        obtain ⟨b, hb, hbs⟩ := mem_map.1 hplace
        obtain rfl : a = b :=
          (getElem?_inj ha (nodup_argumentNodes hgraph hargs)).1 (hs.trans hbs.symm)
        exact ⟨(q.2, q.1, c), hperm.mem_iff.2 (mem_flatMap.2
          ⟨(c, g'), mem_of_lookup_eq_some hsome, mem_map_of_mem hq⟩), hb⟩
  · obtain ⟨v, hv, -, hget⟩ := exists_argument_factor hgraph hargs hF ha
    obtain ⟨w, hw, hwv⟩ := (mem_nodes_of_aligned hal (nodes_connect hG)).2 hget
    exact ⟨v, w, hv, hw, hwv⟩

end Terms

end FormKernel.Factor
