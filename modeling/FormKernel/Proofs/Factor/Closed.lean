import FormKernel.Proofs.Factor.Nodes
import FormKernel.Proofs.Graph.Ordered

/-!
# Steps that keep the factors closed

The list of factors is closed when no factor is equal to an earlier one and the operands of every
factor are among the factors before it.  An operator is inserted only after its operands, so each
step of a factorisation keeps the list closed, and for an expression that is linear in its arguments
no step fails.
-/

namespace FormKernel.Factor

open Form (Builder Expr Operator)
open FormKernel.Graph (Apart)
open List

/-! ## Closed lists -/

/-- An expression that is equal to itself and has its operands among factors. -/
structure Supported (F : List Expr) (e : Expr) : Prop where
  refl : (e == e) = true
  operands : (e.isTerminal || e.isModifier) = false → ∀ o ∈ e.operands, ∃ x ∈ F, (x == o) = true

/-- Different factors, each after its operands. -/
structure Closed (F : List Expr) : Prop where
  apart : Apart F
  supported : ∀ {i : Nat} {e : Expr}, F[i]? = some e → Supported (F.take i) e

section

variable {F F' : List Expr} {e : Expr}

lemma Closed.beq_self (h : Closed F) (he : e ∈ F) : (e == e) = true := by
  obtain ⟨i, hi⟩ := mem_iff_getElem?.1 he
  exact (h.supported hi).refl

lemma Closed.concat (h : Closed F) (he : Supported F e) (hnew : ∀ x ∈ F, (e == x) = false) :
    Closed (F ++ [e]) where
  apart := h.apart.concat hnew
  supported {i x} hx := by
    by_cases hi : i < F.length
    · rw [getElem?_append_left hi] at hx
      rw [take_append_of_le_length (Nat.le_of_lt hi)]
      exact h.supported hx
    · have hlast : i = F.length := by
        have hlt := (List.getElem?_eq_some_iff.1 hx).1
        rw [length_append, length_singleton] at hlt
        omega
      subst hlast
      rw [getElem?_concat_length] at hx
      rwa [take_left, ← Option.some.inj hx]

variable {ops : List Expr}

lemma supported_operator {op : Operator} {shape : List Nat} {fi : List Int} {dims : List Nat}
    (h : ∀ o ∈ ops, ∃ x ∈ F, (x == o) = true) :
    Supported F (.operator op ops shape fi dims) where
  refl := by
    refine Expr.equal_operator.2 ⟨rfl, forall₂_same.2 fun o ho => ?_⟩
    obtain ⟨x, -, hxo⟩ := h o ho
    exact BEq.trans (BEq.symm hxo) hxo
  operands _ := h

lemma Closed.supported_of_beq (h : Closed F) {x : Expr} (hx : x ∈ F) (hxe : (x == e) = true) :
    Supported F e where
  refl := BEq.trans (BEq.symm hxe) hxe
  operands hop o ho := by
    obtain ⟨i, hi⟩ := mem_iff_getElem?.1 hx
    cases e with
    | terminal t => cases hop
    | operator q bs =>
      cases x with
      | terminal t => cases hxe
      | operator p as =>
        obtain ⟨rfl, hall⟩ := Expr.equal_operator.1 hxe
        obtain ⟨a, ha, hao⟩ := exists_of_forall₂_right hall ho
        obtain ⟨y, hy, hya⟩ := (h.supported hi).operands hop a ha
        exact ⟨y, mem_of_mem_take hy, BEq.trans hya hao⟩

/-- What is assumed of the operators that combine factors, apart from choices. -/
def Elementary [Builder] : Prop :=
  ∀ op ∈ [Operator.sum, .product, .division, .conj], Builder.Elementary op

lemma supported_build [Builder] {op : Operator} (hop : Builder.Elementary op) (hF : Closed F)
    (h : ∀ o ∈ ops, ∃ x ∈ F, (x == o) = true) : Supported F (Builder.build op ops) := by
  rcases hop ops with hmem | ⟨t, -, hself, heq⟩ | ⟨ops', shape, fi, dims, hperm, heq⟩
  · obtain ⟨x, hx, hxo⟩ := h _ hmem
    exact hF.supported_of_beq hx hxo
  · rw [heq]
    exact ⟨hself, fun hop => by cases hop⟩
  · rw [heq]
    exact supported_operator fun o ho => h o (hperm.mem_iff.1 ho)

lemma supported_pair [Builder] {op : Operator} {a b : Expr} (hop : Builder.Elementary op)
    (hF : Closed F) (ha : ∃ x ∈ F, (x == a) = true) (hb : ∃ x ∈ F, (x == b) = true) :
    Supported F (Builder.build op [a, b]) :=
  supported_build hop hF (forall_mem_cons.2 ⟨ha, forall_mem_singleton.2 hb⟩)

lemma Closed.mem_beq (h : Closed F) {i : Nat} (hi : i < F.length) : ∃ x ∈ F, (x == F[i]) = true :=
  ⟨_, getElem_mem hi, h.beq_self (getElem_mem hi)⟩

end

/-! ## Steps that end well -/

section Steps

variable {α β : Type} {F : List Expr}

/-- A step ends well: factors are only added, they stay closed, and the result is as said. -/
def Ends (m : Building α) (F : List Expr) (P : α → List Expr → Prop) : Prop :=
  ∃ a F', Yields m F a F' ∧ F <+: F' ∧ Closed F' ∧ P a F'

variable {P : α → List Expr → Prop} {f : α → Building β} {m : Building α} {xs : List α} {a : α}
  {Q : β → List Expr → Prop}

lemma ends_pure (hF : Closed F) (h : P a F) : Ends (pure a) F P :=
  ⟨a, F, yields_pure.2 ⟨rfl, rfl⟩, prefix_refl _, hF, h⟩

lemma Ends.bind (h : Ends m F P) (hf : ∀ a G, F <+: G → Closed G → P a G → Ends (f a) G Q) :
    Ends (m >>= f) F Q := by
  obtain ⟨a, G, hm, hFG, hG, ha⟩ := h
  obtain ⟨b, G', hb, hGG', hG', hQ⟩ := hf a G hFG hG ha
  exact ⟨b, G', yields_bind.2 ⟨a, G, hm, hb⟩, hFG.trans hGG', hG', hQ⟩

/-- A step that only reads, before another one. -/
lemma ends_bind_of_yields (hm : Yields m F a F) (h : Ends (f a) F Q) : Ends (m >>= f) F Q := by
  obtain ⟨b, F', hb, hrest⟩ := h
  exact ⟨b, F', yields_bind.2 ⟨a, F, hm, hb⟩, hrest⟩

/-- A condition that holds, before a step. -/
lemma ends_bind_expect {ok : Bool} {f : Unit → Building β} (hok : ok = true)
    (h : Ends (f ()) F Q) : Ends (expect ok >>= f) F Q :=
  ends_bind_of_yields (a := ()) (yields_expect.2 ⟨hok, rfl⟩) h

lemma Ends.imp {Q : α → List Expr → Prop} (h : Ends m F P) (hPQ : ∀ a G, F <+: G → P a G → Q a G) :
    Ends m F Q := by
  obtain ⟨a, G, hm, hFG, hG, ha⟩ := h
  exact ⟨a, G, hm, hFG, hG, hPQ a G hFG ha⟩

/-- Steps for all items. -/
lemma ends_mapM {P : α → β → List Expr → Prop} (hkeep : ∀ {x y G G'}, G <+: G' → P x y G → P x y G')
    (hF : Closed F) (h : ∀ x ∈ xs, ∀ G, F <+: G → Closed G → Ends (f x) G (P x)) :
    Ends (xs.mapM f) F fun ys G => Forall₂ (fun x y => P x y G) xs ys := by
  induction xs generalizing F with
  | nil =>
    rw [mapM_nil]
    exact ends_pure hF .nil
  | cons x xs ih =>
    rw [mapM_cons]
    refine (h x (by simp) F (prefix_refl _) hF).bind fun y G hFG hG hy => ?_
    have hrest := ih hG fun z hz G' hGG' => h z (mem_cons_of_mem _ hz) G' (hFG.trans hGG')
    refine hrest.bind fun ys G' hGG' hG' hys => ?_
    exact ends_pure hG' (.cons (hkeep hGG' hy) hys)

/-- Steps that go on with the result so far. -/
lemma ends_foldlM {σ : Type} {f : σ → α → Building σ} {P : σ → List Expr → Prop} {s : σ}
    (hF : Closed F)
    (hs : P s F) (h : ∀ x ∈ xs, ∀ s G, F <+: G → Closed G → P s G → Ends (f s x) G P) :
    Ends (xs.foldlM f s) F P := by
  induction xs generalizing s F with
  | nil => exact ends_pure hF hs
  | cons x xs ih =>
    rw [foldlM_cons]
    refine (h x (by simp) s F (prefix_refl _) hF hs).bind fun s' G hFG hG hs' => ?_
    exact ih hG hs' fun z hz t G' hGG' => h z (mem_cons_of_mem _ hz) t G' (hFG.trans hGG')

/-- At least one step, after each of which the result is as said. -/
lemma ends_foldlM_of_ne_nil {σ : Type} {f : σ → α → Building σ} {P Q : σ → List Expr → Prop} {s : σ}
    (hxs : xs ≠ []) (hF : Closed F) (hs : P s F) (hQP : ∀ {s G}, Q s G → P s G)
    (h : ∀ x ∈ xs, ∀ s G, F <+: G → Closed G → P s G → Ends (f s x) G Q) :
    Ends (xs.foldlM f s) F Q := by
  cases xs with
  | nil => exact absurd rfl hxs
  | cons x xs =>
    rw [foldlM_cons]
    refine (h x (by simp) s F (prefix_refl _) hF hs).bind fun s' G hFG hG hs' => ?_
    exact ends_foldlM hG hs' fun z hz t G' hGG' hG' ht =>
      h z (mem_cons_of_mem _ hz) t G' (hFG.trans hGG') hG' (hQP ht)

/-- Inserting a supported expression gives the number of an equal one. -/
lemma ends_insert {e : Expr} (hF : Closed F) (he : Supported F e) :
    Ends (insert e) F fun i G => ∃ x, G[i]? = some x ∧ (x == e) = true := by
  unfold Factor.insert
  refine ends_bind_of_yields (yields_get.2 ⟨rfl, rfl⟩) ?_
  split
  · next i hi =>
    obtain ⟨hlt, heq, -⟩ := findIdx?_eq_some_iff_getElem.1 hi
    exact ends_pure hF ⟨_, getElem?_eq_getElem hlt, heq⟩
  · next hnone =>
    have hnew : ∀ x ∈ F, (e == x) = false := fun x hx => by
      rw [BEq.comm]
      exact findIdx?_eq_none_iff.1 hnone x hx
    refine ⟨F.length, F ++ [e], ?_, prefix_append _ _, hF.concat he hnew, e, by simp, he.refl⟩
    exact yields_bind.2 ⟨.unit, _, yields_set.2 rfl, yields_pure.2 ⟨rfl, rfl⟩⟩

end Steps

/-! ## Factors of operators -/

section Operators

variable {F F' : List Expr} {arguments : List Nat} {n m : Nat} {f g : Factors}

/-- Numbers of factors for products of `n` arguments. -/
def Valid (arguments : List Nat) (n : Nat) (F : List Expr) (f : Factors) : Prop :=
  ∀ p ∈ f, p.2 < F.length ∧ p.1.length = n ∧ ∀ s ∈ p.1, s ∈ arguments

lemma Valid.mono (h : Valid arguments n F f) (hF : F <+: F') : Valid arguments n F' f :=
  fun p hp => ⟨Nat.lt_of_lt_of_le (h p hp).1 hF.length_le, (h p hp).2⟩

lemma Valid.key {k : List Nat} (h : Valid arguments n F f) (hk : k ∈ keys f) :
    k.length = n ∧ ∀ s ∈ k, s ∈ arguments := by
  obtain ⟨p, hp, rfl⟩ := mem_map.1 hk
  exact (h p hp).2

lemma mem_of_mem_sorted {p : List Nat × Nat} (h : p ∈ sorted f) : p ∈ f := by
  obtain ⟨k, -, hk⟩ := mem_filterMap.1 h
  obtain ⟨i, hi, rfl⟩ := Option.map_eq_some_iff.1 hk
  exact mem_of_lookup_eq_some hi

variable {k : List Nat} {scalars : List (Option Expr)}

lemma lookup_isSome_of_mem_keys (h : k ∈ keys f) : ∃ i, f.lookup k = some i := by
  obtain ⟨p, hp, rfl⟩ := mem_map.1 h
  exact Option.isSome_iff_exists.1 (isSome_lookup_of_mem hp)

lemma sorted_ne_nil (h : f ≠ []) : sorted f ≠ [] := by
  obtain ⟨p, hp⟩ := exists_mem_of_ne_nil f h
  obtain ⟨i, hi⟩ := lookup_isSome_of_mem_keys (mem_map_of_mem hp)
  have hmem : (p.1, i) ∈ sorted f :=
    mem_filterMap.2 ⟨p.1, mem_sortKeys.2 (mem_map_of_mem hp), by rw [hi]; rfl⟩
  exact ne_nil_of_mem hmem

lemma Valid.sorted (h : Valid arguments n F f) : Valid arguments n F (sorted f) :=
  fun p hp => h p (mem_of_mem_sorted hp)

def Numbered (k : List Nat) (q : List Nat × Nat) (F : List Expr) : Prop := q.1 = k ∧ q.2 < F.length

lemma Numbered.mono {q : List Nat × Nat} (hF : F <+: F') (h : Numbered k q F) : Numbered k q F' :=
  ⟨h.1, Nat.lt_of_lt_of_le h.2 hF.length_le⟩

lemma valid_of_numbered {ks : List (List Nat)} {r : Factors} (hks : ks ≠ [])
    (hkeys : ∀ k ∈ ks, k.length = n ∧ ∀ s ∈ k, s ∈ arguments)
    (hr : Forall₂ (fun k q => Numbered k q F) ks r) : Valid arguments n F r ∧ r ≠ [] := by
  refine ⟨fun q hq => ?_, ?_⟩
  · obtain ⟨k, hk, hkey, hlt⟩ := exists_of_forall₂_right hr hq
    exact ⟨hlt, hkey ▸ hkeys k hk⟩
  · rintro rfl
    exact hks (forall₂_nil_right_iff.1 hr)

lemma ends_insert_key {e : Expr} (hF : Closed F) (he : Supported F e) :
    Ends (do return (k, ← insert e)) F (Numbered k) := by
  refine (ends_insert hF he).bind fun i G _ hG hi => ends_pure hG ⟨rfl, ?_⟩
  obtain ⟨x, hx, -⟩ := hi
  exact (List.getElem?_eq_some_iff.1 hx).1

/-- Changing each factor into a supported expression. -/
lemma ends_mapFactors {change : Expr → Expr} (hF : Closed F) (hf : Valid arguments n F f)
    (hne : f ≠ [])
    (hchange : ∀ G x, F <+: G → Closed G → (∃ y ∈ G, (y == x) = true) → Supported G (change x)) :
    Ends (mapFactors f change) F fun r G => Valid arguments n G r ∧ r ≠ [] := by
  have hstep : Ends (mapFactors f change) F fun r G =>
      Forall₂ (fun p q => Numbered p.1 q G) f r := by
    refine ends_mapM (P := fun (p : List Nat × Nat) => Numbered p.1) Numbered.mono hF
      fun p hp G hFG hG => ?_
    have hlt : p.2 < G.length := ((hf.mono hFG) p hp).1
    refine ends_bind_of_yields (yields_factorAt.2 ⟨getElem?_eq_getElem hlt, rfl⟩) ?_
    exact ends_insert_key hG (hchange G _ hFG hG (hG.mem_beq hlt))
  exact hstep.imp fun r G _ hr => valid_of_numbered (by simpa [keys] using hne) (fun _ => hf.key)
    (forall₂_map_left_iff.2 hr)

/-- The products of arguments of either of two expressions. -/
lemma Valid.append_key (hf : Valid arguments n F f) (hg : Valid arguments n F g)
    (hk : k ∈ sortKeys (keys f ++ keys g)) : k.length = n ∧ ∀ s ∈ k, s ∈ arguments :=
  (mem_append.1 (mem_sortKeys.1 hk)).elim hf.key hg.key

lemma sortKeys_ne_nil (hne : f ≠ [] ∨ g ≠ []) : sortKeys (keys f ++ keys g) ≠ [] := by
  rw [Ne, sortKeys_eq_nil, append_eq_nil_iff, keys, keys, map_eq_nil_iff, map_eq_nil_iff]
  exact fun hnil => hne.elim (· hnil.1) (· hnil.2)

lemma ends_sum [Builder] (hB : Elementary) (hF : Closed F) (hf : Valid arguments n F f)
    (hg : Valid arguments n F g)
    (hne : f ≠ [] ∨ g ≠ []) : Ends (sum [f, g]) F fun r G => Valid arguments n G r ∧ r ≠ [] := by
  have hkeys : ∀ k ∈ sortKeys (keys f ++ keys g), k.length = n ∧ ∀ s ∈ k, s ∈ arguments :=
    fun k hk => hf.append_key hg hk
  have hsome := sortKeys_ne_nil hne
  unfold Factor.sum
  dsimp only
  split
  · next hnil => exact absurd hnil hsome
  · next first rest hall =>
    have hfirst : first.length = n := (hkeys first (by simp [hall])).1
    refine Ends.imp (ends_mapM (P := Numbered) Numbered.mono hF fun k hk G hFG hG => ?_)
      fun r G _ hr => valid_of_numbered hsome hkeys hr
    have hrank : ¬ (k.length != first.length) = true := by
      rw [(hkeys k hk).1, hfirst, bne_self_eq_false]
      exact Bool.false_ne_true
    rw [if_neg hrank]
    split
    · next i j hi hj =>
      have hilt := ((hf.mono hFG) _ (mem_of_lookup_eq_some hi)).1
      have hjlt := ((hg.mono hFG) _ (mem_of_lookup_eq_some hj)).1
      refine ends_bind_of_yields (yields_factorAt.2 ⟨getElem?_eq_getElem hilt, rfl⟩) ?_
      refine ends_bind_of_yields (yields_factorAt.2 ⟨getElem?_eq_getElem hjlt, rfl⟩) ?_
      exact ends_insert_key hG
        (supported_pair (hB .sum (by simp)) hG (hG.mem_beq hilt) (hG.mem_beq hjlt))
    · next i hi hj =>
      exact ends_pure hG ⟨rfl, ((hf.mono hFG) _ (mem_of_lookup_eq_some hi)).1⟩
    · next j hi hj =>
      exact ends_pure hG ⟨rfl, ((hg.mono hFG) _ (mem_of_lookup_eq_some hj)).1⟩
    · next hi hj =>
      rcases mem_append.1 (mem_sortKeys.1 hk) with hk | hk
      · obtain ⟨i, hi'⟩ := lookup_isSome_of_mem_keys hk
        simp [hi'] at hi
      · obtain ⟨j, hj'⟩ := lookup_isSome_of_mem_keys hk
        simp [hj'] at hj

variable {b : Expr}

lemma ends_scaled {j : Nat} {change : Expr → Expr → Expr} (hF : Closed F)
    (hf : Valid arguments n F f)
    (hne : f ≠ []) (hb : scalars[j]? = some (some b)) (hmem : ∃ x ∈ F, (x == b) = true)
    (hchange : ∀ {G x}, Closed G → (∃ y ∈ G, (y == b) = true) → (∃ y ∈ G, (y == x) = true) →
      Supported G (change b x)) :
    Ends (scalarAt scalars j >>= fun b => mapFactors (sorted f) (change b)) F
      fun r G => Valid arguments n G r ∧ r ≠ [] := by
  refine ends_bind_of_yields (yields_scalarAt.2 ⟨hb, rfl⟩) ?_
  refine ends_mapFactors hF hf.sorted (sorted_ne_nil hne) fun G x hFG hG hx => hchange hG ?_ hx
  obtain ⟨y, hy, hyb⟩ := hmem
  exact ⟨y, hFG.subset hy, hyb⟩

lemma ends_product_left [Builder] (hB : Elementary) (hF : Closed F) (hg : Valid arguments n F g)
    (hne : g ≠ []) (hb : scalars[0]? = some (some b)) (hmem : ∃ x ∈ F, (x == b) = true) :
    Ends (product [[], g] scalars) F fun r G => Valid arguments n G r ∧ r ≠ [] := by
  obtain ⟨p, g, rfl⟩ := exists_cons_of_ne_nil hne
  exact ends_scaled hF hg hne hb hmem (supported_pair (hB .product (by simp)))

lemma ends_product_right [Builder] (hB : Elementary) (hF : Closed F) (hf : Valid arguments n F f)
    (hne : f ≠ []) (hb : scalars[1]? = some (some b)) (hmem : ∃ x ∈ F, (x == b) = true) :
    Ends (product [f, []] scalars) F fun r G => Valid arguments n G r ∧ r ≠ [] := by
  obtain ⟨p, f, rfl⟩ := exists_cons_of_ne_nil hne
  exact ends_scaled hF hf hne hb hmem (supported_pair (hB .product (by simp)))

lemma Valid.assign {k : List Nat} {i : Nat} (h : Valid arguments n F f) (hi : i < F.length)
    (hlen : k.length = n) (hk : ∀ s ∈ k, s ∈ arguments) :
    Valid arguments n F (assign k i f) ∧ FormKernel.assign k i f ≠ [] := by
  refine ⟨fun p hp => ?_, ?_⟩
  · rcases mem_assign hp with rfl | hp
    · exact ⟨hi, hlen, hk⟩
    · exact h p hp
  · intro hnil
    have hkey : k ∈ (FormKernel.assign k i f).map (·.1) := mem_keys_assign.2 (.inl rfl)
    rw [hnil] at hkey
    exact not_mem_nil hkey

/-- The factors of a product of two expressions that depend on arguments. -/
lemma ends_product [Builder] (hB : Elementary) (hF : Closed F) (hf : Valid arguments m F f)
    (hg : Valid arguments n F g) (hfne : f ≠ []) (hgne : g ≠ []) :
    Ends (product [f, g] scalars) F fun r G => Valid arguments (m + n) G r ∧ r ≠ [] := by
  have hsf := sorted_ne_nil hfne
  have hsg := sorted_ne_nil hgne
  obtain ⟨p, f, rfl⟩ := exists_cons_of_ne_nil hfne
  obtain ⟨q, g, rfl⟩ := exists_cons_of_ne_nil hgne
  refine ends_foldlM_of_ne_nil (P := fun out G => Valid arguments (m + n) G out) hsf hF
    (by simp [Valid]) And.left fun ⟨k, i⟩ hk out G hFG hG hout => ?_
  have hi := (hf.sorted.mono hFG) _ hk
  refine ends_bind_of_yields (yields_factorAt.2 ⟨getElem?_eq_getElem hi.1, rfl⟩) ?_
  refine ends_foldlM_of_ne_nil (P := fun out G => Valid arguments (m + n) G out) hsg hG hout
    And.left fun ⟨l, j⟩ hl out G' hGG' hG' hout' => ?_
  have hj := (hg.sorted.mono (hFG.trans hGG')) _ hl
  refine ends_bind_of_yields (yields_factorAt.2 ⟨getElem?_eq_getElem hj.1, rfl⟩) ?_
  obtain ⟨y, hy, hyi⟩ := hG.mem_beq hi.1
  have hproduct : Supported G' (Expr.product G[i] G'[j]) :=
    supported_pair (hB .product (by simp)) hG' ⟨y, hGG'.subset hy, hyi⟩ (hG'.mem_beq hj.1)
  refine (ends_insert hG' hproduct).bind fun e H hGH hH he => ends_pure hH ?_
  obtain ⟨x, hx, -⟩ := he
  refine (hout'.mono hGH).assign (List.getElem?_eq_some_iff.1 hx).1 ?_ ?_
  · rw [length_mergeSort, length_append, hi.2.1, hj.2.1]
  · intro s hs
    rcases mem_append.1 (mem_mergeSort.1 hs) with hs | hs
    · exact hi.2.2 s hs
    · exact hj.2.2 s hs

lemma ends_conj [Builder] (hB : Elementary) (hF : Closed F) (hf : Valid arguments n F f)
    (hne : f ≠ []) : Ends (conj [f]) F fun r G => Valid arguments n G r ∧ r ≠ [] := by
  refine ends_bind_of_yields (yields_itemAt.2 ⟨rfl, rfl⟩) ?_
  obtain ⟨p, f, rfl⟩ := exists_cons_of_ne_nil hne
  exact ends_mapFactors hF hf hne fun G x _ hG hx =>
    supported_build (hB .conj (by simp)) hG (forall_mem_singleton.2 hx)

lemma ends_division [Builder] (hB : Elementary) (hF : Closed F) (hf : Valid arguments n F f)
    (hne : f ≠ []) (hb : scalars[1]? = some (some b)) (hmem : ∃ x ∈ F, (x == b) = true) :
    Ends (division [f, []] scalars) F fun r G => Valid arguments n G r ∧ r ≠ [] := by
  refine ends_bind_of_yields (yields_itemAt.2 ⟨rfl, rfl⟩) ?_
  refine ends_bind_of_yields (yields_itemAt.2 ⟨rfl, rfl⟩) ?_
  obtain ⟨p, f, rfl⟩ := exists_cons_of_ne_nil hne
  exact ends_scaled hF hf hne hb hmem fun hG hb hx =>
    supported_pair (hB .division (by simp)) hG hx hb

/-- The factor of a branch, which is zero for a product of arguments that the branch lacks. -/
lemma yields_branch (hF : Closed F) (hf : Valid arguments n F f)
    (hzero : ∃ x ∈ F, (x == .terminal .zero) = true) (k : List Nat) :
    ∃ a, Yields (match f.lookup k with
      | none => pure (.terminal .zero)
      | some i => factorAt i) F a F ∧ ∃ x ∈ F, (x == a) = true := by
  cases hk : f.lookup k with
  | none => exact ⟨_, yields_pure.2 ⟨rfl, rfl⟩, hzero⟩
  | some i =>
    have hi := (hf _ (mem_of_lookup_eq_some hk)).1
    exact ⟨_, yields_factorAt.2 ⟨getElem?_eq_getElem hi, rfl⟩, hF.mem_beq hi⟩

/-- The factors of a choice, if zero is there to stand for those that a branch lacks. -/
lemma ends_conditional [Builder] (hB : Builder.Elementary .conditional) (hF : Closed F)
    (hf : Valid arguments n F f) (hg : Valid arguments n F g) (hn : n ≠ 0)
    (hne : f ≠ [] ∨ g ≠ []) {x y : Option Expr} (hx : f = [] → isZero x = true)
    (hy : g = [] → isZero y = true) (hb : ∃ z ∈ F, (z == b) = true)
    (hzero : ∃ z ∈ F, (z == .terminal .zero) = true) :
    Ends (conditional [[], f, g] [some b, x, y]) F fun r G => Valid arguments n G r ∧ r ≠ [] := by
  have hkeep : ∀ {e : Expr} {G : List Expr}, F <+: G → (∃ z ∈ F, (z == e) = true) →
      ∃ z ∈ G, (z == e) = true := fun hFG ⟨z, hz, hze⟩ => ⟨z, hFG.subset hz, hze⟩
  have hproduct : ∀ {h : Factors}, Valid arguments n F h → (!(keys h).contains []) = true := by
    intro h hh
    rw [Bool.not_eq_true', ← Bool.not_eq_true, contains_iff_mem]
    exact fun hmem => hn (hh.key hmem).1.symm
  have hbranch : ∀ {h : Factors} {x : Option Expr}, (h = [] → isZero x = true) →
      (!h.isEmpty || isZero x) = true := by
    intro h x hx
    cases h with
    | nil => exact hx rfl
    | cons => rfl
  unfold conditional
  refine ends_bind_of_yields (yields_itemAt.2 ⟨rfl, rfl⟩) ?_
  refine ends_bind_of_yields (yields_itemAt.2 ⟨rfl, rfl⟩) ?_
  refine ends_bind_of_yields (yields_itemAt.2 ⟨rfl, rfl⟩) ?_
  rw [if_neg (by simp), if_neg (by simpa [or_iff_not_imp_left] using hne)]
  refine ends_bind_of_yields (yields_itemAt.2 ⟨rfl, rfl⟩) ?_
  refine ends_bind_of_yields (yields_itemAt.2 ⟨rfl, rfl⟩) ?_
  refine ends_bind_of_yields (yields_itemAt.2 ⟨rfl, rfl⟩) ?_
  refine ends_bind_expect (hbranch hx) ?_
  refine ends_bind_expect (hbranch hy) ?_
  refine ends_bind_expect (hproduct hf) ?_
  refine ends_bind_expect (hproduct hg) ?_
  refine Ends.imp (ends_mapM (P := Numbered) Numbered.mono hF fun k hk G hFG hG => ?_)
    fun r G _ hr => valid_of_numbered (sortKeys_ne_nil hne) (fun k hk => hf.append_key hg hk) hr
  obtain ⟨a, ha, hamem⟩ := yields_branch hG (hf.mono hFG) (hkeep hFG hzero) k
  obtain ⟨a', ha', hamem'⟩ := yields_branch hG (hg.mono hFG) (hkeep hFG hzero) k
  refine ends_bind_of_yields ha (ends_bind_of_yields ha' ?_)
  refine ends_insert_key hG (supported_build hB hG ?_)
  simpa using ⟨hkeep hFG hb, hamem, hamem'⟩

end Operators

end FormKernel.Factor
