import FormKernel.Proofs.Factor.Building
import FormKernel.Proofs.List
import Mathlib.Algebra.BigOperators.Ring.Finset
import Mathlib.Data.List.Sort
import Mathlib.Tactic.Ring

/-!
# Sums of terms

The factors of an expression say that its value is a sum of terms: a coefficient times a product
of arguments.  `Represents F f c` says that the factors `f` have the values `c`, and `total c` is
the sum.  `Keyed` is what the products of arguments of one expression have in common: no two of
them are the same, and each has one argument of every number.
-/

namespace FormKernel.Factor

open Form (Expr Interpretation Valuation)
open List

/-- Coefficients of products of arguments. -/
abbrev Terms (K : Type) := List (List Nat × K)

/-! ## Values of factors -/

section Represents

variable {K : Type} [CommRing K] (I : Interpretation K) (τ : Valuation K) {F F' : List Expr}
  {f : Factors} {c : Terms K}

/-- A factor depends on no argument and has a given value. -/
def FactorIs (F : List Expr) (i : Nat) (x : K) : Prop :=
  ∃ e, F[i]? = some e ∧ e.argumentNumbers = ∅ ∧ e.value I τ = x

def Represents (F : List Expr) (f : Factors) (c : Terms K) : Prop :=
  Forall₂ (fun p q => p.1 = q.1 ∧ FactorIs I τ F p.2 q.2) f c

variable {I τ}

lemma FactorIs.mono {i : Nat} {x : K} (hF : F <+: F')
    (h : FactorIs I τ F i x) : FactorIs I τ F' i x := by
  obtain ⟨e, he, hx⟩ := h
  obtain ⟨G, rfl⟩ := hF
  exact ⟨e, List.getElem?_append_left (List.getElem?_eq_some_iff.1 he).1 ▸ he, hx⟩

lemma Represents.mono (hF : F <+: F') (h : Represents I τ F f c) : Represents I τ F' f c :=
  h.imp fun _ _ hpq => ⟨hpq.1, hpq.2.mono hF⟩

lemma Represents.keys_eq (h : Represents I τ F f c) : keys f = c.map (·.1) := by
  induction h with
  | nil => rfl
  | cons hpq _ ih => rw [map_cons, ← hpq.1, ← ih]; rfl

lemma Represents.eq_nil_iff (h : Represents I τ F f c) : f = [] ↔ c = [] := by
  rw [← length_eq_zero_iff, h.length_eq, length_eq_zero_iff]

lemma Represents.perm {g : Factors} (hgf : g.Perm f) (h : Represents I τ F f c) :
    ∃ d, Represents I τ F g d ∧ d.Perm c :=
  perm_comp_forall₂ hgf h

lemma Represents.lookup (h : Represents I τ F f c) (k : List Nat) :
    (f.lookup k = none ∧ c.lookup k = none) ∨
      ∃ i x, f.lookup k = some i ∧ c.lookup k = some x ∧ FactorIs I τ F i x := by
  induction h with
  | nil => exact .inl ⟨rfl, rfl⟩
  | @cons p q _ _ hpq _ ih =>
    obtain ⟨k₁, i⟩ := p
    obtain ⟨k₂, x⟩ := q
    obtain ⟨rfl, hx⟩ : k₁ = k₂ ∧ FactorIs I τ F i x := hpq
    rw [lookup_cons, lookup_cons]
    cases k == k₁ with
    | true => exact .inr ⟨i, x, rfl, rfl, hx⟩
    | false => exact ih

/-- Inserting an expression that depends on no argument gives a factor of its value. -/
lemma factorIs_of_insert {e : Expr} {i : Nat} (he : e.argumentNumbers = ∅)
    (h : Yields (insert e) F i F') : F <+: F' ∧ FactorIs I τ F' i (e.value I τ) := by
  obtain ⟨hF, x, hx, hxe⟩ := h.insert
  refine ⟨hF, x, hx, ?_⟩
  rcases hxe with rfl | hxe
  · exact ⟨he, rfl⟩
  · exact ⟨(Expr.argumentNumbers_congr hxe).trans he, Expr.value_congr I τ hxe⟩

end Represents

/-! ## Sums -/

section Total

variable {K : Type} [CommRing K] (arg : Nat → K)

/-- The value of a product of arguments. -/
def monomial (k : List Nat) : K := (k.map arg).prod

def total (c : Terms K) : K := (c.map fun p => p.2 * monomial arg p.1).sum

def coefficient (c : Terms K) (k : List Nat) : K := (c.lookup k).getD 0

@[simp] lemma total_nil : total arg ([] : Terms K) = 0 := rfl

@[simp] lemma total_cons (p : List Nat × K) (c : Terms K) :
    total arg (p :: c) = p.2 * monomial arg p.1 + total arg c := rfl

lemma total_append (c d : Terms K) : total arg (c ++ d) = total arg c + total arg d := by
  rw [total, map_append, sum_append, total, total]

variable {c : Terms K} {ks : List (List Nat)}

lemma total_perm {d : Terms K} (h : c.Perm d) : total arg c = total arg d := (h.map _).sum_eq

lemma monomial_perm {k l : List Nat} (h : k.Perm l) : monomial arg k = monomial arg l :=
  (h.map arg).prod_eq

lemma monomial_append (k l : List Nat) : monomial arg (k ++ l) = monomial arg k * monomial arg l :=
  by
  rw [monomial, map_append, prod_append, monomial, monomial]

lemma coefficient_of_notMem {k : List Nat} (h : k ∉ c.map (·.1)) : coefficient c k = 0 := by
  rw [coefficient, lookup_eq_none_of_notMem h, Option.getD_none]

/-- The sum of the terms, by the keys of any set that has all of them. -/
lemma total_eq_sum (hc : (c.map (·.1)).Nodup) (s : Finset (List Nat))
    (hs : ∀ k ∈ c.map (·.1), k ∈ s) : total arg c = ∑ k ∈ s, coefficient c k * monomial arg k := by
  induction c with
  | nil => simp [coefficient]
  | cons p c ih =>
    obtain ⟨k₀, x⟩ := p
    rw [map_cons, nodup_cons] at hc
    have hstep : ∀ k, coefficient ((k₀, x) :: c) k * monomial arg k =
        (if k₀ = k then x * monomial arg k else 0) + coefficient c k * monomial arg k := by
      intro k
      by_cases hk : k₀ = k
      · subst hk
        rw [coefficient_of_notMem hc.1, coefficient, lookup_cons, beq_self_eq_true]
        simp
      · have hk' : (k == k₀) = false := by simpa using Ne.symm hk
        simp [coefficient, lookup_cons, hk', hk]
    have hmem : k₀ ∈ s := hs k₀ (by simp)
    rw [total_cons, ih hc.2 fun k hk => hs k (mem_cons_of_mem _ hk),
      Finset.sum_congr rfl fun k _ => hstep k, Finset.sum_add_distrib, Finset.sum_ite_eq,
      if_pos hmem]

/-- A list of keys with a coefficient each. -/
lemma total_map_keys (hks : ks.Nodup) (g : List Nat → K) :
    total arg (ks.map fun k => (k, g k)) = ∑ k ∈ ks.toFinset, g k * monomial arg k := by
  rw [sum_toFinset _ hks, total, map_map]
  rfl

/-- The sum of the terms does not change when keys with coefficient zero are added. -/
lemma total_coefficients (hks : ks.Nodup) (hc : (c.map (·.1)).Nodup)
    (hmem : ∀ k ∈ c.map (·.1), k ∈ ks) :
    total arg (ks.map fun k => (k, coefficient c k)) = total arg c := by
  rw [total_map_keys arg hks, total_eq_sum arg hc ks.toFinset fun k hk =>
    mem_toFinset.2 (hmem k hk)]

/-- Adding coefficients key by key adds the sums. -/
lemma total_add {d : Terms K} (hks : ks.Nodup) (hc : (c.map (·.1)).Nodup) (hd : (d.map (·.1)).Nodup)
    (hmem : ∀ k, k ∈ c.map (·.1) ∨ k ∈ d.map (·.1) → k ∈ ks) :
    total arg (ks.map fun k => (k, coefficient c k + coefficient d k)) = total arg c +
      total arg d := by
  rw [← total_coefficients arg hks hc fun k hk => hmem k (.inl hk),
    ← total_coefficients arg hks hd fun k hk => hmem k (.inr hk), total_map_keys arg hks,
    total_map_keys arg hks, total_map_keys arg hks, ← Finset.sum_add_distrib]
  exact Finset.sum_congr rfl fun k _ => add_mul _ _ _

/-- Scaling all coefficients scales the sum. -/
lemma total_scale (c : Terms K) (y : K) :
    total arg (c.map fun p => (p.1, y * p.2)) = y * total arg c := by
  induction c with
  | nil => simp
  | cons p c ih => rw [map_cons, total_cons, total_cons, ih, mul_add, mul_assoc]

lemma total_mul_term (p : List Nat × K) (d : Terms K) :
    total arg (d.map fun q => ((p.1 ++ q.1).mergeSort, p.2 * q.2)) =
      p.2 * monomial arg p.1 * total arg d := by
  induction d with
  | nil => simp
  | cons q d ih =>
    have hq := monomial_perm arg (mergeSort_perm (p.1 ++ q.1) fun a b => decide (a ≤ b))
    rw [map_cons, total_cons, total_cons, ih, hq, monomial_append]
    ring

/-- Multiplying all terms with all terms multiplies the sums. -/
lemma total_mul (c d : Terms K) :
    total arg (c.flatMap fun p => d.map fun q => ((p.1 ++ q.1).mergeSort, p.2 * q.2)) =
      total arg c * total arg d := by
  induction c with
  | nil => simp
  | cons p c ih =>
    rw [flatMap_cons, total_append, total_mul_term, ih, total_cons, add_mul]

end Total

/-! ## Keys -/

lemma sortKeys_perm (ks : List (List Nat)) : (sortKeys ks).Perm (Form.distinct ks) :=
  mergeSort_perm _ _

lemma nodup_sortKeys (ks : List (List Nat)) : (sortKeys ks).Nodup :=
  (sortKeys_perm ks).nodup_iff.2 (Form.nodup_distinct ks)

@[simp] lemma mem_sortKeys {ks : List (List Nat)} {k : List Nat} : k ∈ sortKeys ks ↔ k ∈ ks :=
  (sortKeys_perm ks).mem_iff.trans Form.mem_distinct

@[simp] lemma sortKeys_eq_nil {ks : List (List Nat)} : sortKeys ks = [] ↔ ks = [] := by
  simp only [eq_nil_iff_forall_not_mem, mem_sortKeys]

/-- Sorting keeps all entries. -/
lemma sorted_perm {f : Factors} (h : (keys f).Nodup) : (sorted f).Perm f := by
  have hkeys : (sortKeys (keys f)).Perm (keys f) := by
    have hperm := sortKeys_perm (keys f)
    rwa [Form.distinct_eq_self h] at hperm
  have hentries := hkeys.filterMap fun k => (f.lookup k).map fun i => (k, i)
  rwa [show (keys f).filterMap (fun k => (f.lookup k).map fun i => (k, i)) = f from
    filterMap_lookup_keys h] at hentries

section Keyed

variable (num : Nat → Int) (isArg : Nat → Prop)

/-- The products of arguments in the terms of an expression that is linear in the arguments with
    the given numbers. -/
structure Keyed (N : Finset Int) (ks : List (List Nat)) : Prop where
  nodup : ks.Nodup
  sorted : ∀ k ∈ ks, k.Pairwise (· ≤ ·)
  isArg : ∀ k ∈ ks, ∀ s ∈ k, isArg s
  nodup_num : ∀ k ∈ ks, (k.map num).Nodup
  numbers : ∀ k ∈ ks, (k.map num).toFinset = N

variable {num isArg} {N M : Finset Int} {ks ls : List (List Nat)}

lemma Keyed.perm (h : Keyed num isArg N ks) (hperm : ls.Perm ks) : Keyed num isArg N ls where
  nodup := hperm.nodup_iff.2 h.nodup
  sorted k hk := h.sorted k (hperm.mem_iff.1 hk)
  isArg k hk := h.isArg k (hperm.mem_iff.1 hk)
  nodup_num k hk := h.nodup_num k (hperm.mem_iff.1 hk)
  numbers k hk := h.numbers k (hperm.mem_iff.1 hk)

lemma keyed_nil : Keyed num isArg N [] where
  nodup := nodup_nil
  sorted := by simp
  isArg := by simp
  nodup_num := by simp
  numbers := by simp

lemma Keyed.union (hk : Keyed num isArg N ks) (hl : Keyed num isArg N ls) :
    Keyed num isArg N (sortKeys (ks ++ ls)) where
  nodup := nodup_sortKeys _
  sorted k h := (mem_append.1 (mem_sortKeys.1 h)).elim (hk.sorted k) (hl.sorted k)
  isArg k h := (mem_append.1 (mem_sortKeys.1 h)).elim (hk.isArg k) (hl.isArg k)
  nodup_num k h := (mem_append.1 (mem_sortKeys.1 h)).elim (hk.nodup_num k) (hl.nodup_num k)
  numbers k h := (mem_append.1 (mem_sortKeys.1 h)).elim (hk.numbers k) (hl.numbers k)

variable {k : List Nat}

/-- All keys of an expression have as many arguments as it depends on. -/
lemma Keyed.length_eq (h : Keyed num isArg N ks) (hk : k ∈ ks) : k.length = N.card := by
  rw [← h.numbers k hk, toFinset_card_of_nodup (h.nodup_num k hk), length_map]

lemma Keyed.num_mem (h : Keyed num isArg N ks) (hk : k ∈ ks) {s : Nat}
    (hs : s ∈ k) : num s ∈ N := by
  rw [← h.numbers k hk, mem_toFinset]
  exact mem_map_of_mem hs

/-- The arguments with the numbers of one factor tell that factor's key. -/
lemma filter_num_append (hk : Keyed num isArg N ks) (hl : Keyed num isArg M ls) (hNM : Disjoint N M)
    {l : List Nat} (hkmem : k ∈ ks) (hlmem : l ∈ ls) : (k ++ l).filter (fun s => num s ∈ N) = k :=
  by
  have hkeep : k.filter (fun s => num s ∈ N) = k :=
    filter_eq_self.2 fun s hs => decide_eq_true (hk.num_mem hkmem hs)
  have hdrop : l.filter (fun s => num s ∈ N) = [] := by
    rw [filter_eq_nil_iff]
    intro s hs
    have hM := hl.num_mem hlmem hs
    simpa using fun hN => Finset.disjoint_left.1 hNM hN hM
  rw [filter_append, hkeep, hdrop, append_nil]

/-- Products of arguments with different numbers stay apart. -/
lemma merge_injective (hk : Keyed num isArg N ks) (hl : Keyed num isArg M ls) (hNM : Disjoint N M)
    {k' l l' : List Nat} (hkmem : k ∈ ks) (hk'mem : k' ∈ ks) (hlmem : l ∈ ls) (hl'mem : l' ∈ ls)
    (h : (k ++ l).mergeSort = (k' ++ l').mergeSort) : k = k' ∧ l = l' := by
  have hperm : (k ++ l).Perm (k' ++ l') := by
    have hleft := mergeSort_perm (k ++ l) fun a b => decide (a ≤ b)
    rw [h] at hleft
    exact hleft.symm.trans (mergeSort_perm _ _)
  have hkk' : k.Perm k' := by
    have hfilter := hperm.filter fun s => num s ∈ N
    rwa [filter_num_append hk hl hNM hkmem hlmem,
      filter_num_append hk hl hNM hk'mem hl'mem] at hfilter
  obtain rfl : k = k' := hkk'.eq_of_pairwise' (hk.sorted k hkmem) (hk.sorted k' hk'mem)
  have hll' : l.Perm l' := (perm_append_left_iff k).1 hperm
  exact ⟨rfl, hll'.eq_of_pairwise' (hl.sorted l hlmem) (hl.sorted l' hl'mem)⟩

lemma pairwise_mergeSort_nat (k : List Nat) : k.mergeSort.Pairwise (· ≤ ·) := by
  have hsorted := @pairwise_mergeSort Nat (fun a b => decide (a ≤ b))
    (by simpa using fun a b c => Nat.le_trans) (by simpa using Nat.le_total) k
  simpa using hsorted

lemma keyed_mul (hk : Keyed num isArg N ks) (hl : Keyed num isArg M ls) (hNM : Disjoint N M) :
    Keyed num isArg (N ∪ M) (ks.flatMap fun k => ls.map fun l => (k ++ l).mergeSort) := by
  have hmem : ∀ m ∈ ks.flatMap (fun k => ls.map fun l => (k ++ l).mergeSort),
      ∃ k ∈ ks, ∃ l ∈ ls, m = (k ++ l).mergeSort ∧ m.Perm (k ++ l) := by
    intro m hm
    obtain ⟨k, hkmem, hm⟩ := mem_flatMap.1 hm
    obtain ⟨l, hlmem, rfl⟩ := mem_map.1 hm
    exact ⟨k, hkmem, l, hlmem, rfl, mergeSort_perm _ _⟩
  constructor
  · rw [nodup_flatMap]
    constructor
    · intro k hkmem
      exact (nodup_map_iff_inj_on hl.nodup).2 fun l hlmem l' hl'mem h =>
        (merge_injective hk hl hNM hkmem hkmem hlmem hl'mem h).2
    · refine hk.nodup.imp_of_mem fun {k k'} hkmem hk'mem hne => ?_
      rw [Function.onFun, disjoint_left]
      rintro m hm hm'
      obtain ⟨l, hlmem, rfl⟩ := mem_map.1 hm
      obtain ⟨l', hl'mem, h⟩ := mem_map.1 hm'
      exact hne (merge_injective hk hl hNM hkmem hk'mem hlmem hl'mem h.symm).1
  · intro m hm
    obtain ⟨k, -, l, -, rfl, -⟩ := hmem m hm
    exact pairwise_mergeSort_nat (k ++ l)
  · intro m hm s hs
    obtain ⟨k, hkmem, l, hlmem, -, hperm⟩ := hmem m hm
    rcases mem_append.1 (hperm.mem_iff.1 hs) with hs | hs
    · exact hk.isArg k hkmem s hs
    · exact hl.isArg l hlmem s hs
  · intro m hm
    obtain ⟨k, hkmem, l, hlmem, -, hperm⟩ := hmem m hm
    rw [(hperm.map num).nodup_iff, map_append, nodup_append]
    refine ⟨hk.nodup_num k hkmem, hl.nodup_num l hlmem, ?_⟩
    intro a ha b hb
    obtain ⟨s, hs, rfl⟩ := mem_map.1 ha
    obtain ⟨t, ht, rfl⟩ := mem_map.1 hb
    intro hst
    exact Finset.disjoint_left.1 hNM (hk.num_mem hkmem hs) (hst ▸ hl.num_mem hlmem ht)
  · intro m hm
    obtain ⟨k, hkmem, l, hlmem, -, hperm⟩ := hmem m hm
    rw [toFinset_eq_of_perm _ _ (hperm.map num), map_append, toFinset_append,
      hk.numbers k hkmem, hl.numbers l hlmem]

end Keyed

end FormKernel.Factor
