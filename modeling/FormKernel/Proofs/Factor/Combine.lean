import FormKernel.Proofs.Factor.Terms
import Mathlib.Algebra.Field.Basic

/-!
# Factors of operators

What `combine` gives for each operator, in terms of values: the sum of the terms of the result is
the operator applied to the sums of the terms of its operands.
-/

namespace FormKernel.Form

/-- An interpretation in a field with a conjugation. -/
structure FieldInterpretation (K : Type) [Field K] extends Interpretation K where
  conj : K →+* K
  divide_eq : ∀ x y, divide x y = x / y
  call_conj : ∀ x, call (Head.operator .conj).functionName [x] = conj x

end FormKernel.Form

namespace FormKernel.Factor

open Form (Builder Expr FieldInterpretation Interpretation Operator Valuation)
open List

variable {K : Type} [Field K] {I : Interpretation K} {τ : Valuation K} {F F' : List Expr}
  {f g r : Factors} {c d : Terms K} {arg : Nat → K} {num : Nat → Int} {isArg : Nat → Prop}
  {N M : Finset Int}

variable (I τ) in
/-- What is assumed of the operators that combine factors. -/
def Valued [Builder] : Prop :=
  ∀ op ∈ [Operator.sum, .product, .division, .conj, .conditional], Builder.Sound I τ op

variable (I τ arg num isArg) in
/-- The factors `r`, for which factors were added to `F`, stand for terms whose sum is `x`. -/
def HasTerms (F F' : List Expr) (r : Factors) (N : Finset Int) (x : K) : Prop :=
  ∃ a, F <+: F' ∧ Represents I τ F' r a ∧ r ≠ [] ∧ Keyed num isArg N (a.map (·.1)) ∧ total arg a = x

/-- Two relations from the same items meet. -/
lemma forall₂_meet {α β γ : Type} {R : α → β → Prop} {S : α → γ → Prop} {T : β → γ → Prop}
    (hT : ∀ x y z, R x y → S x z → T y z) {xs : List α} {ys : List β} {zs : List γ}
    (hR : Forall₂ R xs ys) (hS : Forall₂ S xs zs) : Forall₂ T ys zs := by
  induction hR generalizing zs with
  | nil => rw [forall₂_nil_left_iff.1 hS]; exact .nil
  | cons hxy _ ih =>
    obtain ⟨z, zs, hxz, hrest, rfl⟩ := forall₂_cons_left_iff.1 hS
    exact .cons (hT _ _ _ hxy hxz) (ih hrest)

variable {e : Expr} {scalars : List (Option Expr)}

/-- Reading a factor whose value is known. -/
lemma FactorIs.read {i : Nat} {x : K} (hx : FactorIs I τ F i x)
    (h : Yields (factorAt i) F e F') : F' = F ∧ e.argumentNumbers = ∅ ∧ e.value I τ = x := by
  obtain ⟨he, rfl⟩ := yields_factorAt.1 h
  obtain ⟨e', he', hfree, hvalue⟩ := hx
  obtain rfl : e = e' := Option.some.inj (he.symm.trans he')
  exact ⟨rfl, hfree, hvalue⟩

variable {change : Expr → Expr} {a : Expr} {k : List Nat} {o : Terms K} {out : Factors}

/-- Changing each factor changes each coefficient. -/
lemma map_factors {φ : K → K}
    (hchange : ∀ e, e.argumentNumbers = ∅ → (change e).argumentNumbers = ∅ ∧
      (change e).value I τ = φ (e.value I τ))
    (hf : Represents I τ F f c) (h : Yields (mapFactors f change) F r F') :
    F <+: F' ∧ Represents I τ F' r (c.map fun p => (p.1, φ p.2)) := by
  let P (G : List Expr) (p q : List Nat × Nat) : Prop :=
    p.1 = q.1 ∧ ∀ x, FactorIs I τ F p.2 x → FactorIs I τ G q.2 (φ x)
  have hkeep : ∀ {G G' p q}, G <+: G' → P G p q → P G' p q :=
    fun hG hP => ⟨hP.1, fun x hx => (hP.2 x hx).mono hG⟩
  have hstep : ∀ p ∈ f, ∀ {G G' q}, F <+: G →
      Yields (do return (p.1, ← insert (change (← factorAt p.2)))) G q G' →
      G <+: G' ∧ P G' p q := by
    rintro ⟨k, i⟩ - G G' q hFG h
    obtain ⟨e, G₁, he, h⟩ := yields_bind.1 h
    obtain ⟨j, G₂, hj, h⟩ := yields_bind.1 h
    obtain ⟨rfl, rfl⟩ := yields_pure.1 h
    have hG : G <+: G₂ := (yields_factorAt.1 he).2 ▸ hj.insert.1
    refine ⟨hG, rfl, fun x hx => ?_⟩
    obtain ⟨rfl, hfree, rfl⟩ := (hx.mono hFG).read he
    obtain ⟨hfree', hvalue⟩ := hchange e hfree
    exact hvalue ▸ (factorIs_of_insert hfree' hj).2
  obtain ⟨hFF', hall⟩ := Yields.mapM (P := P) hkeep hstep h
  refine ⟨hFF', ?_⟩
  rw [Represents, forall₂_map_right_iff]
  exact forall₂_meet (fun p q t hpq hpt => ⟨hpq.1.symm.trans hpt.1, hpq.2 _ hpt.2⟩) hall hf

/-- Factors for all products of two lists of terms, found one by one. -/
lemma hasTerms_union {v : List Nat → K} {x : K} {step : List Nat → Building (List Nat × Nat)}
    (hc : Keyed num isArg N (c.map (·.1))) (hd : Keyed num isArg N (d.map (·.1)))
    (hne : sortKeys (c.map (·.1) ++ d.map (·.1)) ≠ [])
    (hstep : ∀ k G G' q, F <+: G → Yields (step k) G q G' →
      G <+: G' ∧ q.1 = k ∧ FactorIs I τ G' q.2 (v k))
    (h : Yields ((sortKeys (c.map (·.1) ++ d.map (·.1))).mapM step) F r F')
    (hx : total arg ((sortKeys (c.map (·.1) ++ d.map (·.1))).map fun k => (k, v k)) = x) :
    HasTerms I τ arg num isArg F F' r N x := by
  obtain ⟨hFF', hr⟩ :=
    Yields.mapM (P := fun G k (q : List Nat × Nat) => q.1 = k ∧ FactorIs I τ G q.2 (v k))
    (fun hG hP => ⟨hP.1, hP.2.mono hG⟩) (fun k _ G G' q hFG hq => hstep k G G' q hFG hq) h
  refine ⟨_, hFF', ?_, fun hnil => hne (forall₂_nil_right_iff.1 (hnil ▸ hr)), ?_, hx⟩
  · rw [Represents, forall₂_map_right_iff]
    exact hr.flip
  · rw [map_map]
    simpa [Function.comp_def] using hc.union hd

lemma sum_factors [Builder] (hB : Valued I τ) (hf : Represents I τ F f c)
    (hg : Represents I τ F g d)
    (hc : Keyed num isArg N (c.map (·.1))) (hd : Keyed num isArg N (d.map (·.1)))
    (h : Yields (sum [f, g]) F r F') :
    HasTerms I τ arg num isArg F F' r N (total arg c + total arg d) := by
  have hkeys : keys f ++ keys g = c.map (·.1) ++ d.map (·.1) := by rw [hf.keys_eq, hg.keys_eq]
  unfold Factor.sum at h
  dsimp only at h
  rw [hkeys] at h
  split at h
  · exact absurd h yields_throw
  · next first rest hall =>
    refine hasTerms_union hc hd (by simp [hall]) (fun k G G' q hFG hq => ?_) h
      (total_add arg (nodup_sortKeys _) hc.nodup hd.nodup fun k hk =>
        mem_sortKeys.2 (mem_append.2 hk))
    split at hq
    · obtain ⟨_, _, hthrow, _⟩ := yields_bind.1 hq
      exact absurd hthrow yields_throw
    · rcases (hf.mono hFG).lookup k with ⟨hfk, hck⟩ | ⟨i, x, hfk, hck, hx⟩ <;>
        rcases (hg.mono hFG).lookup k with ⟨hgk, hdk⟩ | ⟨j, y, hgk, hdk, hy⟩ <;>
        rw [hfk, hgk] at hq
      · exact absurd hq yields_throw
      · obtain ⟨rfl, rfl⟩ := yields_pure.1 hq
        exact ⟨prefix_refl _, rfl, by simpa [coefficient, hck, hdk] using hy⟩
      · obtain ⟨rfl, rfl⟩ := yields_pure.1 hq
        exact ⟨prefix_refl _, rfl, by simpa [coefficient, hck, hdk] using hx⟩
      · obtain ⟨a, G₁, ha, hq⟩ := yields_bind.1 hq
        obtain ⟨b, G₂, hb, hq⟩ := yields_bind.1 hq
        obtain ⟨n, G₃, hn, hq⟩ := yields_bind.1 hq
        obtain ⟨rfl, rfl⟩ := yields_pure.1 hq
        obtain ⟨rfl, hfa, hax⟩ := hx.read ha
        obtain ⟨rfl, hfb, hby⟩ := hy.read hb
        obtain ⟨hG, hvalue⟩ := factorIs_of_insert (I := I) (τ := τ)
          ((hB .sum (by simp)).free (by simp [hfa, hfb])) hn
        rw [(hB .sum (by simp)).value] at hvalue
        refine ⟨hG, rfl, ?_⟩
        rwa [coefficient, coefficient, hck, hdk, Option.getD_some, Option.getD_some, ← hax, ← hby]

/-- Factors without repeated keys may be taken in any order. -/
lemma represents_sorted (hf : Represents I τ F f c) (hc : Keyed num isArg N (c.map (·.1)))
    (hfne : f ≠ []) : ∃ c', Represents I τ F (sorted f) c' ∧ c'.Perm c ∧ c' ≠ [] := by
  obtain ⟨c', hc', hperm⟩ := hf.perm (sorted_perm (hf.keys_eq ▸ hc.nodup))
  refine ⟨c', hc', hperm, fun hnil => hfne ?_⟩
  rw [hnil, nil_perm] at hperm
  exact hf.eq_nil_iff.2 hperm

/-- Multiplying all factors with a scalar. -/
lemma scale_factors {y : K} (hchange : ∀ a, a.argumentNumbers = ∅ →
      (change a).argumentNumbers = ∅ ∧ (change a).value I τ = y * a.value I τ)
    (hf : Represents I τ F f c) (hc : Keyed num isArg N (c.map (·.1))) (hfne : f ≠ [])
    (h : Yields (mapFactors (sorted f) change) F r F') :
    HasTerms I τ arg num isArg F F' r N (y * total arg c) := by
  obtain ⟨c', hc', hperm, hne⟩ := represents_sorted hf hc hfne
  obtain ⟨hFF', hr⟩ := map_factors (φ := fun x => y * x) hchange hc' h
  refine ⟨_, hFF', hr, ?_, ?_, ?_⟩
  · rwa [Ne, hr.eq_nil_iff, map_eq_nil_iff]
  · rw [map_map]
    exact hc.perm (hperm.map _)
  · rw [total_scale, total_perm arg hperm]

/-- The terms of a product with one term on the left. -/
def row (p : List Nat × K) (d : Terms K) : Terms K :=
  d.map fun q => ((p.1 ++ q.1).mergeSort, p.2 * q.2)

/-- One row of a product appends its terms, as long as no key comes twice. -/
lemma row_factors [Builder] (hB : Valued I τ) (ha : a.argumentNumbers = ∅)
    (hg : Represents I τ F g d) (hout : Represents I τ F out o)
    (hnodup : ((o ++ row (k, a.value I τ) d).map (·.1)).Nodup)
    (h : Yields (g.foldlM (fun out (l, j) => do
      let b ← factorAt j
      let key := (k ++ l).mergeSort
      return assign key (← insert (Expr.product a b)) out) out) F r F') :
    F <+: F' ∧ Represents I τ F' r (o ++ row (k, a.value I τ) d) := by
  induction g generalizing F out o d with
  | nil =>
    rw [forall₂_nil_left_iff.1 hg] at hnodup ⊢
    rw [foldlM_nil] at h
    obtain ⟨rfl, rfl⟩ := yields_pure.1 h
    exact ⟨prefix_refl _, by simpa [row] using hout⟩
  | cons p g ih =>
    obtain ⟨l, j⟩ := p
    obtain ⟨⟨l', y⟩, d, hpq, hrest, rfl⟩ := forall₂_cons_left_iff.1 hg
    obtain ⟨rfl, hy⟩ : l = l' ∧ FactorIs I τ F j y := hpq
    rw [foldlM_cons, yields_bind] at h
    obtain ⟨out', G, hstep, h⟩ := h
    obtain ⟨b, G₁, hb, hstep⟩ := yields_bind.1 hstep
    obtain ⟨n, G₂, hn, hstep⟩ := yields_bind.1 hstep
    obtain ⟨hout', rfl⟩ := yields_pure.1 hstep
    obtain ⟨rfl, hfb, rfl⟩ := hy.read hb
    obtain ⟨hG, hvalue⟩ := factorIs_of_insert (I := I) (τ := τ)
      ((hB .product (by simp)).free (by simp [ha, hfb])) hn
    rw [(hB .product (by simp)).value] at hvalue
    -- the key is new, so the term is appended
    have hnew : (k ++ l).mergeSort ∉ out.map (·.1) := by
      have hkeys : out.map (·.1) = o.map (·.1) := hout.keys_eq
      rw [map_append, nodup_append] at hnodup
      rw [hkeys]
      exact fun hmem => hnodup.2.2 _ hmem _ (by simp [row]) rfl
    rw [assign_of_notMem hnew] at hout'
    subst hout'
    have hout'' : Represents I τ G₂ (out ++ [((k ++ l).mergeSort, n)])
        (o ++ [((k ++ l).mergeSort, a.value I τ * b.value I τ)]) :=
      rel_append (hout.mono hG) (.cons ⟨rfl, hvalue⟩ .nil)
    obtain ⟨hG', hr⟩ := ih (Represents.mono hG hrest) hout'' (by simpa [row] using hnodup) h
    exact ⟨hG.trans hG', by simpa [row] using hr⟩

lemma rows_factors [Builder] (hB : Valued I τ) (hf : Represents I τ F f c)
    (hg : Represents I τ F g d) (hout : Represents I τ F out o)
    (hnodup : ((o ++ c.flatMap fun p => row p d).map (·.1)).Nodup)
    (h : Yields (f.foldlM (fun out (k, i) => do
      let a ← factorAt i
      g.foldlM (fun out (l, j) => do
        let b ← factorAt j
        let key := (k ++ l).mergeSort
        return assign key (← insert (Expr.product a b)) out) out) out) F r F') :
    F <+: F' ∧ Represents I τ F' r (o ++ c.flatMap fun p => row p d) := by
  induction f generalizing F out o c with
  | nil =>
    rw [forall₂_nil_left_iff.1 hf]
    rw [foldlM_nil] at h
    obtain ⟨rfl, rfl⟩ := yields_pure.1 h
    exact ⟨prefix_refl _, by simpa using hout⟩
  | cons p f ih =>
    obtain ⟨k, i⟩ := p
    obtain ⟨⟨k', x⟩, c, hpq, hrest, rfl⟩ := forall₂_cons_left_iff.1 hf
    obtain ⟨rfl, hx⟩ : k = k' ∧ FactorIs I τ F i x := hpq
    rw [foldlM_cons, yields_bind] at h
    obtain ⟨out', G, hstep, h⟩ := h
    obtain ⟨a, G₁, ha, hrow⟩ := yields_bind.1 hstep
    obtain ⟨rfl, hfa, rfl⟩ := hx.read ha
    rw [flatMap_cons, ← append_assoc] at hnodup ⊢
    have hnodup' := hnodup
    rw [map_append, nodup_append] at hnodup'
    obtain ⟨hG, hout'⟩ := row_factors hB hfa hg hout hnodup'.1 hrow
    obtain ⟨hG', hr⟩ := ih (Represents.mono hG hrest) (hg.mono hG) hout' hnodup h
    exact ⟨hG.trans hG', hr⟩

/-- The factors of a product of two expressions with different arguments. -/
lemma product_factors [Builder] (hB : Valued I τ) (hf : Represents I τ F f c)
    (hg : Represents I τ F g d)
    (hc : Keyed num isArg N (c.map (·.1))) (hd : Keyed num isArg M (d.map (·.1)))
    (hNM : Disjoint N M)
    (hfne : f ≠ []) (hgne : g ≠ []) (h : Yields (product [f, g] scalars) F r F') :
    HasTerms I τ arg num isArg F F' r (N ∪ M) (total arg c * total arg d) := by
  obtain ⟨c', hc', hcperm, hc'ne⟩ := represents_sorted hf hc hfne
  obtain ⟨d', hd', hdperm, hd'ne⟩ := represents_sorted hg hd hgne
  have hkeys : (c'.flatMap fun p => row p d').map (·.1) =
      (c'.map (·.1)).flatMap fun k => (d'.map (·.1)).map fun l => (k ++ l).mergeSort := by
    simp [row, map_flatMap, flatMap_map, Function.comp_def]
  have hkeyed : Keyed num isArg (N ∪ M) ((c'.flatMap fun p => row p d').map (·.1)) := by
    rw [hkeys]
    exact keyed_mul (hc.perm (hcperm.map _)) (hd.perm (hdperm.map _)) hNM
  obtain ⟨p, f', rfl⟩ := exists_cons_of_ne_nil hfne
  obtain ⟨q, g', rfl⟩ := exists_cons_of_ne_nil hgne
  unfold product at h
  dsimp only at h
  obtain ⟨hFF', hr⟩ := rows_factors hB hc' hd' (o := []) .nil (by simpa using hkeyed.nodup) h
  refine ⟨_, hFF', hr, ?_, hkeyed, ?_⟩
  · obtain ⟨p', c'', rfl⟩ := exists_cons_of_ne_nil hc'ne
    obtain ⟨q', d'', rfl⟩ := exists_cons_of_ne_nil hd'ne
    rw [Ne, hr.eq_nil_iff]
    simp [row]
  · rw [nil_append]
    exact (total_mul arg c' d').trans (by rw [total_perm arg hcperm, total_perm arg hdperm])

lemma product_factors_left [Builder] (hB : Valued I τ) (he : scalars[0]? = some (some e))
    (hfree : e.argumentNumbers = ∅)
    (hg : Represents I τ F g d) (hd : Keyed num isArg M (d.map (·.1))) (hgne : g ≠ [])
    (h : Yields (product [[], g] scalars) F r F') :
    HasTerms I τ arg num isArg F F' r M (e.value I τ * total arg d) := by
  obtain ⟨q, g', rfl⟩ := exists_cons_of_ne_nil hgne
  unfold product at h
  dsimp only at h
  obtain ⟨e', he', h⟩ := yields_read yields_scalarAt h
  obtain rfl : e = e' := by simpa [he] using he'
  exact scale_factors (fun a ha => ⟨(hB .product (by simp)).free (by simp [hfree, ha]),
    (hB .product (by simp)).value [e, a]⟩) hg hd hgne h

lemma product_factors_right [Builder] (hB : Valued I τ) (he : scalars[1]? = some (some e))
    (hfree : e.argumentNumbers = ∅)
    (hf : Represents I τ F f c) (hc : Keyed num isArg N (c.map (·.1))) (hfne : f ≠ [])
    (h : Yields (product [f, []] scalars) F r F') :
    HasTerms I τ arg num isArg F F' r N (total arg c * e.value I τ) := by
  obtain ⟨p, f', rfl⟩ := exists_cons_of_ne_nil hfne
  unfold product at h
  dsimp only at h
  obtain ⟨e', he', h⟩ := yields_read yields_scalarAt h
  obtain rfl : e = e' := by simpa [he] using he'
  rw [mul_comm]
  exact scale_factors (fun a ha => ⟨(hB .product (by simp)).free (by simp [hfree, ha]),
    (hB .product (by simp)).value [e, a]⟩) hf hc hfne h

lemma division_factors [Builder] {I : FieldInterpretation K} (hB : Valued I.toInterpretation τ)
    (he : scalars[1]? = some (some e))
    (hfree : e.argumentNumbers = ∅) (hf : Represents I.toInterpretation τ F f c)
    (hc : Keyed num isArg N (c.map (·.1))) (h : Yields (division [f, g] scalars) F r F') :
    HasTerms I.toInterpretation τ arg num isArg F F' r N
      (total arg c / e.value I.toInterpretation τ) := by
  unfold division at h
  obtain ⟨f', hf', h⟩ := yields_read yields_itemAt h
  obtain rfl : f = f' := by simpa using hf'
  obtain ⟨g', hg', h⟩ := yields_read yields_itemAt h
  obtain rfl : g = g' := by simpa using hg'
  dsimp only at h
  by_cases hgne : (!g.isEmpty) = true
  · rw [if_pos hgne] at h
    obtain ⟨_, _, hthrow, _⟩ := yields_bind.1 h
    exact absurd hthrow yields_throw
  rw [if_neg hgne] at h
  cases f with
  | nil => exact absurd h yields_throw
  | cons p f' =>
    obtain ⟨e', he', h⟩ := yields_read yields_scalarAt h
    obtain rfl : e = e' := by simpa [he] using he'
    rw [div_eq_inv_mul]
    refine scale_factors (fun a ha => ⟨(hB .division (by simp)).free (by simp [hfree, ha]), ?_⟩)
      hf hc (by simp) h
    rw [(hB .division (by simp)).value, Expr.node, Expr.value_division, I.divide_eq, div_eq_inv_mul]

/-- A conjugation that fixes the arguments acts on the coefficients. -/
lemma total_conj {I : FieldInterpretation K} (hfix : ∀ s, isArg s → I.conj (arg s) = arg s)
    (hc : ∀ k ∈ c.map (·.1), ∀ s ∈ k, isArg s) :
    total arg (c.map fun p => (p.1, I.conj p.2)) = I.conj (total arg c) := by
  induction c with
  | nil => simp
  | cons p c ih =>
    have hmonomial : I.conj (monomial arg p.1) = monomial arg p.1 := by
      rw [monomial, map_list_prod, map_map]
      exact congrArg prod (map_congr_left fun s hs => hfix s (hc p.1 (by simp) s hs))
    rw [map_cons, total_cons, total_cons, ih fun k hk => hc k (mem_cons_of_mem _ hk),
      map_add, map_mul, hmonomial]

lemma conj_factors [Builder] {I : FieldInterpretation K} (hB : Valued I.toInterpretation τ)
    (hfix : ∀ s, isArg s → I.conj (arg s) = arg s)
    (hf : Represents I.toInterpretation τ F f c) (hc : Keyed num isArg N (c.map (·.1)))
    (h : Yields (conj [f]) F r F') :
    HasTerms I.toInterpretation τ arg num isArg F F' r N (I.conj (total arg c)) := by
  unfold conj at h
  obtain ⟨f', hf', h⟩ := yields_read yields_itemAt h
  obtain rfl : f = f' := by simpa using hf'
  cases f with
  | nil => exact absurd h yields_throw
  | cons p f' =>
    obtain ⟨hFF', hr⟩ := map_factors (φ := I.conj) (fun a ha =>
      ⟨(hB .conj (by simp)).free (by simp [ha]), by
        rw [(hB .conj (by simp)).value, Expr.node, Expr.value_conj, I.call_conj]⟩) hf h
    refine ⟨_, hFF', hr, ?_, ?_, total_conj hfix hc.isArg⟩
    · rw [Ne, hr.eq_nil_iff, map_eq_nil_iff, ← hf.eq_nil_iff]
      exact cons_ne_nil p f'
    · rwa [map_map]

/-- The factor of a branch, which is zero for a product of arguments that the branch lacks. -/
lemma branch_factor (hf : Represents I τ F f c) (h : Yields (match f.lookup k with
      | none => pure (.terminal .zero)
      | some i => factorAt i) F a F') : F' = F ∧ a.argumentNumbers = ∅ ∧
        a.value I τ = coefficient c k := by
  rcases hf.lookup k with ⟨hfk, hck⟩ | ⟨i, x, hfk, hck, hx⟩ <;> rw [hfk] at h
  · obtain ⟨rfl, rfl⟩ := yields_pure.1 h
    exact ⟨rfl, rfl, by simp [coefficient, hck]⟩
  · rw [coefficient, hck]
    exact hx.read h

/-- The factors of a choice.  A branch without arguments is zero. -/
lemma conditional_factors [Builder] (hB : Valued I τ) (he : scalars[0]? = some (some e))
    (hfree : e.argumentNumbers = ∅)
    (hf : Represents I τ F f c) (hg : Represents I τ F g d) (hc : Keyed num isArg N (c.map (·.1)))
    (hd : Keyed num isArg N (d.map (·.1))) (h : Yields (conditional [[], f, g] scalars) F r F') :
    (f = [] → scalars[1]? = some (some (.terminal .zero))) ∧
    (g = [] → scalars[2]? = some (some (.terminal .zero))) ∧
    HasTerms I τ arg num isArg F F' r N
      (if (e.datum I τ).toTruth then total arg c else total arg d) := by
  simp only [conditional, yields_bind, yields_itemAt] at h
  obtain ⟨_, _, ⟨h₀, rfl⟩, _, _, ⟨h₁, rfl⟩, _, _, ⟨h₂, rfl⟩, h⟩ := h
  obtain rfl := Option.some.inj h₀
  obtain rfl := Option.some.inj h₁
  obtain rfl := Option.some.inj h₂
  rw [if_neg (by simp)] at h
  by_cases hne : (f.isEmpty && g.isEmpty) = true
  · rw [if_pos hne, yields_bind] at h
    obtain ⟨_, _, hthrow, _⟩ := h
    exact absurd hthrow yields_throw
  rw [if_neg hne] at h
  simp only [yields_bind, yields_itemAt, yields_expect] at h
  obtain ⟨_, _, ⟨htest, rfl⟩, yes, _, ⟨hyes, rfl⟩, no, _, ⟨hno, rfl⟩, _, _, ⟨hzf, rfl⟩,
    _, _, ⟨hzg, rfl⟩, _, _, ⟨-, rfl⟩, _, _, ⟨-, rfl⟩, h⟩ := h
  obtain rfl := Option.some.inj (htest.symm.trans he)
  have hzero : ∀ o : Option Expr, isZero o = true → o = some (.terminal .zero) := by
    intro o ho
    unfold isZero at ho
    split at ho
    · rfl
    · exact absurd ho Bool.false_ne_true
  refine ⟨fun hnil => ?_, fun hnil => ?_, ?_⟩
  · rw [hyes, hzero yes (by simpa [hnil] using hzf)]
  · rw [hno, hzero no (by simpa [hnil] using hzg)]
  have hkeys : keys f ++ keys g = c.map (·.1) ++ d.map (·.1) := by rw [hf.keys_eq, hg.keys_eq]
  rw [hkeys] at h
  set ks := sortKeys (c.map (·.1) ++ d.map (·.1)) with hks
  let value (k : List Nat) : K := if (e.datum I τ).toTruth then coefficient c k else coefficient d k
  have hksne : ks ≠ [] := by
    rw [hks, ← hkeys, Ne, sortKeys_eq_nil, append_eq_nil_iff]
    simpa [keys] using hne
  refine hasTerms_union (v := value) hc hd hksne (fun k G G' q hFG hq => ?_) h ?_
  · obtain ⟨a, G₁, ha, hq⟩ := yields_bind.1 hq
    obtain ⟨b, G₂, hb, hq⟩ := yields_bind.1 hq
    obtain ⟨n, G₃, hn, hq⟩ := yields_bind.1 hq
    obtain ⟨rfl, rfl⟩ := yields_pure.1 hq
    obtain ⟨rfl, hfa, hax⟩ := branch_factor (hf.mono hFG) ha
    obtain ⟨rfl, hfb, hby⟩ := branch_factor (hg.mono hFG) hb
    obtain ⟨hG, hvalue⟩ := factorIs_of_insert (I := I) (τ := τ)
      ((hB .conditional (by simp)).free (by simp [hfree, hfa, hfb])) hn
    rw [(hB .conditional (by simp)).value, Expr.node, Expr.value_conditional, hax, hby] at hvalue
    exact ⟨hG, rfl, hvalue⟩
  · have hmem : ∀ k, k ∈ c.map (·.1) ∨ k ∈ d.map (·.1) → k ∈ ks :=
      fun k hk => mem_sortKeys.2 (mem_append.2 hk)
    cases ht : (e.datum I τ).toTruth with
    | true =>
      simpa [value, ht] using
        total_coefficients arg (nodup_sortKeys _) hc.nodup fun k hk => hmem k (.inl hk)
    | false =>
      simpa [value, ht] using
        total_coefficients arg (nodup_sortKeys _) hd.nodup fun k hk => hmem k (.inr hk)

end FormKernel.Factor
