import FormKernel.Proofs.Form.FreeIndices
import FormKernel.Proofs.Scalar.Stored

/-!
# Places of components

The components of an indexed tensor stand at places among the components of the tensor, and those of
a tensor that is built from a scalar at places among the components of the scalar.  All places are
found, and no component is taken twice.  So building a tensor only rearranges the components of the
scalar, and indexing the tensor by the same indices puts them back.
-/

namespace FormKernel.Scalar

open FormKernel.Dense (position)
open Form (Expr Free Index bindIndices)
open Table (indicesOf)
open List

variable {places indices js : List Int} {a : Expr} {ρ : Int → Nat} {is : List Index}
  {shape c : List Nat}

/-! ## Reading indices -/

/-- The number of an index all of whose parts are known. -/
lemma flatten_eq (dims index : List Nat) :
    flatten (Dense.strides dims) (index.map fun i : Nat => some (i : Int)) =
      .ok (position dims index : Int) := by
  have hfold : ∀ {f : Int → Option Int × Nat → Outcome Int},
      (∀ {n i : Int} {d : Nat}, f n (some i, d) = .ok (n + i * d)) →
        ∀ (dims index : List Nat) (n : Nat),
      ((index.map fun i : Nat => some (i : Int)).zip (Dense.strides dims)).foldlM f n =
        .ok ((n + position dims index : Nat) : Int) := by
    intro f hf dims
    induction dims with
    | nil => intro index n; cases index <;> rfl
    | cons d dims ih =>
      intro index n
      cases index with
      | nil => rfl
      | cons i index =>
        rw [map_cons, Dense.strides, zip_cons_cons, foldlM_cons, hf]
        show foldlM _ ((n : Int) + (i : Int) * (volume dims : Int)) _ = _
        rw [← Int.natCast_mul, ← Int.natCast_add, ih, Dense.position_cons, Nat.add_assoc]
  refine (hfold ?_ dims index 0).trans ?_
  · exact rfl
  · rw [Nat.zero_add]

lemma placeOf_eq_ok {i : Int} {k : Nat} (h : placeOf indices i = .ok k) : indices[k]? = some i := by
  obtain ⟨hlt, heq, -⟩ := findIdx?_eq_some_iff_getElem.1 (orMisfit_eq_ok.1 h)
  rw [getElem?_eq_getElem hlt, eq_of_beq heq]

lemma exists_placeOf {i : Int} (h : i ∈ indices) : ∃ k, placeOf indices i = .ok k := by
  unfold placeOf
  cases hk : indices.findIdx? (· == i) with
  | some k => exact ⟨k, rfl⟩
  | none =>
    rw [findIdx?_eq_none_iff] at hk
    simpa using hk i h

lemma itemAt_placeOf {i : Int} {k : Nat} (h : placeOf indices i = .ok k) :
    itemAt (indices.map ρ) k = .ok (ρ i) := by
  rw [itemAt_eq_ok, getElem?_map, placeOf_eq_ok h]
  rfl

/-- The values of free indices at their places. -/
lemma mapM_values {inner : List Int} {places : List Nat}
    (h : inner.mapM (placeOf indices) = .ok places) (ρ : Int → Nat) : places.mapM (fun k => do
      let (i : Nat) ← itemAt (indices.map ρ) k
      pure (i : Int)) = .ok (inner.map fun i => (ρ i : Int)) := by
  refine mapM_eq_ok.2 (forall₂_map_right_iff.2 ((mapM_eq_ok.1 h).flip.imp fun k i hk => ?_))
  rw [itemAt_placeOf hk]
  rfl

/-- The values of the parts of a multi-index. -/
lemma mapM_resolve {parts : List (Int ⊕ Nat)} (hfixed : ∀ n, .fixed n ∈ is → 0 ≤ n)
    (h : is.mapM (fun
      | .fixed n => pure (Sum.inl n)
      | .free c => do pure (Sum.inr (← placeOf indices c))) = .ok parts) (ρ : Int → Nat) :
    parts.mapM (fun
      | .inl (n : Int) => pure n
      | .inr k => do
        let (i : Nat) ← itemAt (indices.map ρ) k
        pure (i : Int)) = .ok (is.map fun i => (i.resolve ρ : Int)) := by
  have hp := mapM_eq_ok.1 h
  refine mapM_eq_ok.2 ?_
  clear h
  induction hp with
  | nil => exact .nil
  | @cons i part is parts hi _ ih =>
    refine .cons ?_ (ih fun n hn => hfixed n (mem_cons_of_mem _ hn))
    cases i with
    | fixed n =>
      cases hi
      have hn := hfixed n mem_cons_self
      show _ = Except.ok ((n.toNat : Nat) : Int)
      rw [Int.toNat_of_nonneg hn]
      rfl
    | free j =>
      obtain ⟨k, hk, hpart⟩ := bind_eq_ok.1 hi
      cases hpart
      dsimp only
      rw [itemAt_placeOf hk]
      rfl

lemma fits_iff : Expr.fits shape is = true ↔
    is.length = shape.length ∧ ∀ (n : Int) (d : Nat), (.fixed n, d) ∈ is.zip shape →
      0 ≤ n ∧ n < d := by
  rw [Expr.fits, Bool.and_eq_true, beq_iff_eq, all_eq_true]
  refine and_congr_right fun _ => ⟨fun h n d hq => by simpa using h _ hq, fun h q hq => ?_⟩
  obtain ⟨i, d⟩ := q
  cases i with
  | fixed n => simpa using h n d hq
  | free j => rfl

lemma nonneg_of_fits (h : Expr.fits shape is = true) {n : Int} (hn : .fixed n ∈ is) : 0 ≤ n := by
  obtain ⟨hlength, hfixed⟩ := fits_iff.1 h
  rw [← map_fst_zip hlength.le] at hn
  obtain ⟨⟨i, d⟩, hq, rfl⟩ := mem_map.1 hn
  exact (hfixed n d hq).1

/-- An index of a tensor, where its free indices are within their ranges. -/
lemma within_resolve (h : Expr.fits shape is = true) (hρ : Free.Bounded (Expr.axes shape is) ρ) :
    Within shape (is.map (Index.resolve ρ)) := by
  obtain ⟨hlength, hfixed⟩ := fits_iff.1 h
  rw [Within, forall₂_map_left_iff, forall₂_iff_zip]
  refine ⟨hlength, fun {i d} hq => ?_⟩
  cases i with
  | fixed n =>
    have hn := hfixed n d hq
    show n.toNat < d
    omega
  | free j => exact hρ (j, d) (mem_filterMap.2 ⟨(.free j, d), hq, rfl⟩)

lemma map_bindIndices (hjs : js.Nodup) (h : c.length = js.length) (ρ : Int → Nat) :
    js.map (bindIndices js c ρ) = c := by
  have hkeys : ((js.zip c).map (·.1)).Nodup := by rwa [map_fst_zip h.ge]
  calc js.map (bindIndices js c ρ)
      = ((js.zip c).map (·.1)).map (bindIndices js c ρ) := by rw [map_fst_zip h.ge]
    _ = (js.zip c).map (·.2) := by
        rw [map_map]
        refine map_congr_left fun q hq => ?_
        rw [Function.comp, bindIndices, lookup_eq_some_of_mem hkeys (v := q.2) hq]
        rfl
    _ = c := map_snd_zip h.le

/-! ## Places -/

/-- Different numbers below a bound. -/
lemma subperm_range {ns : List Int} {n : Nat} (hnodup : ns.Nodup) (hlt : ∀ k ∈ ns, 0 ≤ k ∧ k < n) :
    ns <+~ (range n).map fun k : Nat => (k : Int) := by
  refine subperm_of_subset hnodup fun k hk => ?_
  obtain ⟨hpos, hk⟩ := hlt k hk
  exact mem_map.2 ⟨k.toNat, mem_range.2 (by omega), Int.toNat_of_nonneg hpos⟩

lemma allDifferent_of_nodup {ns : List Int} (h : ns.Nodup) : allDifferent ns = true := by
  rw [allDifferent, Form.distinct_eq_self h]
  exact beq_self_eq_true _

/-- A place below a bound for all values of some indices within their ranges, in row-major order and
    no place twice. -/
structure Places (qs : Free) (bound : Nat) (place : (Int → Nat) → Nat)
    (places : List Int) : Prop where
  length_eq : places.length = volume (qs.map (·.2))
  nodup : places.Nodup
  lt : ∀ n ∈ places, 0 ≤ n ∧ n < bound
  get : ∀ ρ, qs.Bounded ρ → places[position (qs.map (·.2)) ((qs.map (·.1)).map ρ)]? =
    some (place ρ : Int)

namespace Places

variable {qs : Free} {bound : Nat} {place : (Int → Nat) → Nat}

lemma length_le (h : Places qs bound place places) : volume (qs.map (·.2)) ≤ bound := by
  simpa [h.length_eq] using (subperm_range h.nodup h.lt).length_le

/-- Where there are no more places than values, every place is taken. -/
lemma perm (h : Places qs bound place places) (hbound : bound = volume (qs.map (·.2))) :
    places ~ (range bound).map fun k : Nat => (k : Int) :=
  (subperm_range h.nodup h.lt).perm_of_length_le (by simp [h.length_eq, hbound])

lemma exists_values (hkeys : (qs.map (·.1)).Nodup) {p : List Nat} (hp : Within (qs.map (·.2)) p) :
    ∃ ρ, qs.Bounded ρ ∧ (qs.map (·.1)).map ρ = p := by
  have hmap := map_bindIndices hkeys (by simpa using hp.length_eq) fun _ => 0
  refine ⟨_, Free.bounded_iff.2 ?_, hmap⟩
  rw [map_map] at hmap
  exact hmap.symm ▸ hp

/-- Places that are found one by one, each from the values at a position. -/
lemma exists_mapM (hkeys : (qs.map (·.1)).Nodup) (place : (Int → Nat) → Nat)
    (step : List Nat → Outcome Int)
    (hstep : ∀ ρ, qs.Bounded ρ → step ((qs.map (·.1)).map ρ) = .ok (place ρ : Int))
    (hlt : ∀ ρ, qs.Bounded ρ → place ρ < bound)
    (hinj : ∀ ρ σ, qs.Bounded ρ → qs.Bounded σ → place ρ = place σ →
      (qs.map (·.1)).map ρ = (qs.map (·.1)).map σ) :
    ∃ places, (indicesOf (qs.map (·.2))).mapM step = .ok places ∧ Places qs bound place places := by
  have hvalues : ∀ p ∈ indicesOf (qs.map (·.2)), ∃ ρ, qs.Bounded ρ ∧ (qs.map (·.1)).map ρ = p :=
    fun p hp => exists_values hkeys (within_of_mem hp)
  obtain ⟨places, hplaces⟩ : ∃ places, (indicesOf (qs.map (·.2))).mapM step = .ok places := by
    refine FormKernel.exists_mapM fun p hp => ?_
    obtain ⟨ρ, hρ, rfl⟩ := hvalues p hp
    exact ⟨_, hstep ρ hρ⟩
  have hall := mapM_eq_ok.1 hplaces
  refine ⟨places, hplaces, hall.length_eq.symm.trans (length_indicesOf _), ?_, fun n hn => ?_,
    fun ρ hρ => ?_⟩
  · have hsteps : (indicesOf (qs.map (·.2))).map step = places.map .ok := by
      rwa [← forall₂_eq_eq_eq, forall₂_map_left_iff, forall₂_map_right_iff]
    refine Nodup.of_map Except.ok (hsteps ▸ (nodup_indicesOf _).map_on fun p hp p' hp' h => ?_)
    obtain ⟨ρ, hρ, rfl⟩ := hvalues p hp
    obtain ⟨σ, hσ, rfl⟩ := hvalues p' hp'
    rw [hstep ρ hρ, hstep σ hσ] at h
    exact hinj ρ σ hρ hσ (Int.ofNat_inj.1 (Except.ok.inj h))
  · obtain ⟨p, hp, hn⟩ := exists_of_mapM hplaces hn
    obtain ⟨ρ, hρ, rfl⟩ := hvalues p hp
    cases hn.symm.trans (hstep ρ hρ)
    exact ⟨Int.natCast_nonneg _, Int.ofNat_lt.2 (hlt ρ hρ)⟩
  · obtain ⟨n, hn, h⟩ := getElem?_of_forall₂ hall (getElem?_indicesOf (Free.bounded_iff.1 hρ))
    rw [show qs.map (fun q => ρ q.1) = (qs.map (·.1)).map ρ from (map_map ..).symm] at hn h
    rw [hn, Except.ok.inj (h.symm.trans (hstep ρ hρ))]

end Places

/-- The number of a component among all components of an expression. -/
abbrev componentAt (e : Expr) (c : List Nat) (ρ : Int → Nat) : Nat :=
  position (totalShape e) (c ++ e.freeIndices.map ρ)

/-! ## Indexing -/

/-- The component of a tensor at a multi-index. -/
def item (a : Expr) (is : List Index) (free : Free) : Expr :=
  .operator .indexed [a, .terminal (.multiIndex is)] [] (free.map (·.1)) (free.map (·.2))

/-- A multi-index into a tensor, and the free indices of the component. -/
structure Indexing (a : Expr) (is : List Index) (free : Free) : Prop where
  ranged : a.Ranged
  fits : Expr.fits a.shape is = true
  merged : Free.merge (Expr.axes a.shape is ++ a.free) = some free

namespace Indexing

variable {free : Free}

/-- The index that a multi-index stands for is one of the tensor. -/
lemma within (h : Indexing a is free) (hρ : free.Bounded ρ) :
    Within a.shape (is.map (Index.resolve ρ)) ∧ Within a.indexDims (a.freeIndices.map ρ) := by
  have hmem : ∀ q, q ∈ Expr.axes a.shape is ++ a.free → ρ q.1 < q.2 := fun q hq =>
    hρ q ((Free.mem_merge h.merged).2 hq)
  exact ⟨within_resolve h.fits fun q hq => hmem q (mem_append_left _ hq),
    h.ranged.bounded_iff.1 fun q hq => hmem q (mem_append_right _ hq)⟩

/-- Free indices with other values name another component. -/
lemma injective (h : Indexing a is free) {σ : Int → Nat} (hρ : free.Bounded ρ) (hσ : free.Bounded σ)
    (heq : componentAt a (is.map (Index.resolve ρ)) ρ =
      componentAt a (is.map (Index.resolve σ)) σ) :
    (free.map (·.1)).map ρ = (free.map (·.1)).map σ := by
  have hwithin := within_append (h.within hρ).1 (h.within hρ).2
  have hindex := Dense.position_inj hwithin (within_append (h.within hσ).1 (h.within hσ).2) heq
  obtain ⟨hown, houter⟩ := append_inj hindex (by simp)
  rw [map_map, map_map]
  refine map_congr_left fun q hq => ?_
  rcases mem_append.1 ((Free.mem_merge h.merged).1 hq) with hq | hq
  · obtain ⟨⟨i, d⟩, hi, heq⟩ := mem_filterMap.1 hq
    cases i with
    | fixed n => cases heq
    | free j =>
      cases heq
      exact map_inj_left.1 hown _ (of_mem_zip hi).1
  · exact map_inj_left.1 houter q.1 (of_mem_zip hq).1

/-- The free indices of the tensor and of the multi-index have places. -/
lemma exists_places (h : Indexing a is free) :
    (∃ bound, a.freeIndices.mapM (placeOf (free.map (·.1))) = .ok bound) ∧
      ∃ parts, is.mapM (fun
        | .fixed n => pure (Sum.inl n)
        | .free c => do pure (Sum.inr (← placeOf (free.map (·.1)) c))) = (.ok parts : Outcome _) :=
          by
  have hmem : ∀ i d, (i, d) ∈ Expr.axes a.shape is ++ a.free → i ∈ free.map (·.1) := fun i d hq =>
    mem_map_of_mem (f := (·.1)) ((Free.mem_merge h.merged).2 hq)
  refine ⟨exists_mapM fun i hi => exists_placeOf ?_, exists_mapM fun i hi => ?_⟩
  · rw [← h.ranged.map_fst_free] at hi
    obtain ⟨q, hq, rfl⟩ := mem_map.1 hi
    exact hmem q.1 q.2 (mem_append_right _ hq)
  · cases i with
    | fixed n => exact ⟨_, rfl⟩
    | free j =>
      rw [← map_fst_zip (fits_iff.1 h.fits).1.le] at hi
      obtain ⟨⟨i, d⟩, hq, rfl⟩ := mem_map.1 hi
      obtain ⟨k, hk⟩ := exists_placeOf (hmem j d (mem_append_left _ (mem_filterMap.2 ⟨_, hq, rfl⟩)))
      exact ⟨.inr k, by dsimp only; rw [hk]; rfl⟩

/-- Every component of an indexed tensor has its place in the tensor. -/
lemma components (h : Indexing a is free) (hshape : a.shape ≠ []) :
    ∃ places, indexedComponents (item a is free) = .ok places ∧
      Places free (volume (totalShape a))
      (fun ρ => componentAt a (is.map (Index.resolve ρ)) ρ) places := by
  obtain ⟨⟨bound, hbound⟩, parts, hparts⟩ := h.exists_places
  refine (Places.exists_mapM (Free.sorted_merge h.merged).nodup_keys
    (fun ρ => componentAt a (is.map (Index.resolve ρ)) ρ) (fun p => do
      let own ← parts.mapM fun
        | .inl (n : Int) => pure n
        | .inr k => do let (i : Nat) ← itemAt p k; pure (i : Int)
      let outer ← bound.mapM fun k => do let (i : Nat) ← itemAt p k; pure (i : Int)
      if outer.length > a.indexDims.length then misfit .outOfRange
      let missing := List.replicate (a.indexDims.length - outer.length) none
      flatten (Dense.strides (totalShape a)) ((own ++ outer).map some ++ missing)) (fun ρ _ => ?_)
    (fun ρ hρ => Dense.position_lt (within_append (h.within hρ).1 (h.within hρ).2))
    fun ρ σ hρ hσ => h.injective hρ hσ).imp fun places ⟨hfound, hplaces⟩ => ⟨?_, hplaces⟩
  · refine bind₂_eq_ok.2 ⟨_, mapM_resolve (fun n => nonneg_of_fits h.fits) hparts ρ, _,
      mapM_values hbound ρ, ?_⟩
    -- every free index of the tensor is known, so no part of the index is missing
    have hlength : a.indexDims.length = (a.freeIndices.map fun i => (ρ i : Int)).length := by
      rw [length_map, h.ranged.length_eq]
    rw [if_neg (by omega)]
    have hflat := flatten_eq (totalShape a) (is.map (Index.resolve ρ) ++ a.freeIndices.map ρ)
    show flatten _ (_ ++ replicate (a.indexDims.length - _) none) = _
    rw [hlength, Nat.sub_self, replicate_zero, append_nil, map_append, map_map, map_map]
    rwa [map_append, map_map, map_map] at hflat
  · refine bind₂_eq_ok.2 ⟨(), require_eq_ok.2 rfl, (a, .terminal (.multiIndex is)), rfl, ?_⟩
    refine bind₅_eq_ok.2 ⟨(), require_eq_ok.2 rfl, (), require_eq_ok.2 (by simpa using hshape), (),
      require_eq_ok.2 (decide_eq_true hplaces.length_le), bound, hbound, is, rfl, ?_⟩
    exact bind₄_eq_ok.2
      ⟨parts, hparts, (), require_eq_ok.2 (beq_iff_eq.2 (fits_iff.1 h.fits).1.symm),
      places, hfound, (), require_eq_ok.2 (allDifferent_of_nodup hplaces.nodup), rfl⟩

end Indexing

/-! ## Building tensors -/

/-- An index filled in part by part. -/
lemma foldlM_fill {rank : Nat} {g : Nat → Int} {pairs : List (Nat × Option Nat)}
    (hg : ∀ i k, (i, some k) ∈ pairs → (i : Int) = g k) {start filled : List (Option Int)}
    (hstart : start.length = rank) (h : pairs.foldlM (fillPart rank) start = .ok filled) :
    filled.length = rank ∧ ∀ k, (start[k]? = some (some (g k)) ∨ ∃ i, (i, some k) ∈ pairs) →
      filled[k]? = some (some (g k)) := by
  induction pairs generalizing start with
  | nil =>
    cases h
    exact ⟨hstart, fun k hk => hk.resolve_right (by simp)⟩
  | cons p pairs ih =>
    obtain ⟨i, place⟩ := p
    rw [foldlM_cons, bind_eq_ok] at h
    obtain ⟨next, hnext, h⟩ := h
    cases place with
    | none => cases hnext
    | some k =>
      rw [fillPart] at hnext
      dsimp only at hnext
      split at hnext
      · next hk =>
        cases hnext
        have hi := hg i k mem_cons_self
        obtain ⟨hlength, hget⟩ :=
          ih (fun j l hl => hg j l (mem_cons_of_mem _ hl)) (by rw [length_set, hstart]) h
        refine ⟨hlength, fun l hl => hget l ?_⟩
        -- the part at `k` has just been set, and the others are as they were
        by_cases hkl : k = l
        · subst hkl
          left
          rw [getElem?_set_self (hstart ▸ hk), hi]
        · rw [getElem?_set_ne hkl]
          refine hl.imp_right fun ⟨j, hj⟩ => ⟨j, (mem_cons.1 hj).resolve_left fun heq => ?_⟩
          cases heq
          exact hkl rfl
      · cases hnext

/-- The index filled in is that of the values of all indices, where each has a place. -/
lemma filled_eq {inner : List Int} {places : List Nat} {σ : Int → Nat} {filled : List (Option Int)}
    (hinner : inner.Nodup) (hmem : ∀ i ∈ inner, i ∈ indices)
    (hplaces : indices.mapM (placeOf inner) = .ok places)
    (h : ((indices.map σ).zip (places.map some)).foldlM (fillPart inner.length)
      (replicate inner.length none) = .ok filled) : filled = inner.map fun i => some (σ i : Int) :=
        by
  have hall := mapM_eq_ok.1 hplaces
  have hpair : ∀ n k, (n, some k) ∈ (indices.map σ).zip (places.map some) →
      ∃ i, inner[k]? = some i ∧ n = σ i := by
    intro n k hnk
    rw [zip_map, mem_map] at hnk
    obtain ⟨⟨i, k'⟩, hik, heq⟩ := hnk
    obtain ⟨rfl, hk⟩ := Prod.mk.inj heq
    cases hk
    exact ⟨i, placeOf_eq_ok ((forall₂_iff_zip.1 hall).2 hik), rfl⟩
  obtain ⟨hlength, hget⟩ := foldlM_fill (g := fun k => (σ (inner.getD k 0) : Int))
    (fun n k hnk => by
      obtain ⟨i, hi, rfl⟩ := hpair n k hnk
      rw [getD_eq_getElem?_getD, hi]
      rfl) length_replicate h
  refine ext_getElem? fun k => ?_
  by_cases hk : k < inner.length
  · -- the index at a place stands among the indices that are given places
    have hi := getElem?_eq_getElem hk
    obtain ⟨m, hm⟩ := mem_iff_getElem?.1 (hmem _ (getElem_mem hk))
    obtain ⟨k', hk', hplace⟩ := getElem?_of_forall₂ hall hm
    obtain rfl : k' = k := by
      have hget := placeOf_eq_ok hplace
      obtain ⟨hlt, heq⟩ := List.getElem?_eq_some_iff.1 hget
      exact hinner.getElem_inj_iff.1 heq
    rw [hget k' (.inr ⟨σ inner[k'], mem_iff_getElem?.2 ⟨m, ?_⟩⟩), getElem?_map, hi,
      getD_eq_getElem?_getD, hi]
    · rfl
    · rw [getElem?_zip_eq_some, getElem?_map, getElem?_map, hm, hk']
      exact ⟨rfl, rfl⟩
  · rw [getElem?_eq_none (by omega), getElem?_eq_none (by rw [length_map]; omega)]

/-- The tensor of a scalar over some of its free indices. -/
def built (a : Expr) (js : List Int) : Expr :=
  let kept := a.free.filter fun q => !js.contains q.1
  .operator .componentTensor [a, .terminal (.multiIndex (js.map .free))] (js.map a.extent)
    (kept.map (·.1)) (kept.map (·.2))

/-- The free indices of a scalar in the order of the axes of a tensor: first those that are
    given. -/
def arranged (a : Expr) (js : List Int) : Free :=
  js.map (fun j => (j, a.extent j)) ++ a.free.filter fun q => !js.contains q.1

/-- A scalar and different free indices of it. -/
structure Building (a : Expr) (js : List Int) : Prop where
  ranged : a.Ranged
  shape_eq : a.shape = []
  nodup : js.Nodup
  mem : ∀ j ∈ js, j ∈ a.free.map (·.1)

namespace Building

lemma extent_eq (h : a.Ranged) {q : Int × Nat} (hq : q ∈ a.free) : a.extent q.1 = q.2 := by
  rw [Expr.extent, lookup_eq_some_of_mem h.sorted.nodup_keys (v := q.2) hq]
  rfl

lemma arranged_perm (h : Building a js) : arranged a js ~ a.free := by
  have hfree : a.free.Nodup := h.ranged.sorted.nodup_keys.of_map
  refine (perm_ext_iff_of_nodup ?_ hfree).2 fun q => ?_
  · refine (h.nodup.map fun _ _ hij => (Prod.mk.inj hij).1).append (hfree.filter _) ?_
    intro q hq hq'
    obtain ⟨j, hj, rfl⟩ := mem_map.1 hq
    simpa [hj] using (mem_filter.1 hq').2
  · rw [arranged, mem_append, mem_map, mem_filter]
    constructor
    · rintro (⟨j, hj, rfl⟩ | ⟨hq, -⟩)
      · obtain ⟨q, hq, rfl⟩ := mem_map.1 (h.mem j hj)
        rwa [extent_eq h.ranged hq]
      · exact hq
    · intro hq
      by_cases hj : q.1 ∈ js
      · exact .inl ⟨q.1, hj, by rw [extent_eq h.ranged hq]⟩
      · exact .inr ⟨hq, by simpa using hj⟩

lemma bounded_iff (h : Building a js) : (arranged a js).Bounded ρ ↔ a.free.Bounded ρ :=
  forall_congr' fun _ => by rw [h.arranged_perm.mem_iff]

lemma totalShape_built (a : Expr) (js : List Int) :
    totalShape (built a js) = (arranged a js).map (·.2) := by
  rw [arranged, map_append, map_map]
  rfl

lemma free_built (a : Expr) (js : List Int) :
    (built a js).free = a.free.filter fun q => !js.contains q.1 := by
  simp [built, Expr.free, Expr.freeIndices, Expr.indexDims, zip_map']

lemma componentAt_built (a : Expr) (js : List Int) (ρ : Int → Nat) :
    componentAt (built a js) ((js.map .free).map (Index.resolve ρ)) ρ =
      position ((arranged a js).map (·.2)) (((arranged a js).map (·.1)).map ρ) := by
  rw [componentAt, totalShape_built]
  congr 1
  simp [arranged, built, Expr.freeIndices, Function.comp_def, Index.resolve]

lemma volume_eq (h : Building a js) : volume ((arranged a js).map (·.2)) = volume (totalShape a) :=
  by
  rw [totalShape, h.shape_eq, nil_append, ← h.ranged.map_snd_free]
  exact volume_perm (h.arranged_perm.map _)

lemma within (h : Building a js) (hρ : (arranged a js).Bounded ρ) :
    Within (totalShape a) ([] ++ a.freeIndices.map ρ) := by
  rw [totalShape, h.shape_eq]
  exact h.ranged.bounded_iff.1 (h.bounded_iff.1 hρ)

/-- The number of the index that is filled in part by part. -/
lemma flatten_filled (h : Building a js) {own : List Nat}
    (hown : ((arranged a js).map (·.1)).mapM (placeOf a.freeIndices) = .ok own) (ρ : Int → Nat) :
    ((((arranged a js).map (·.1)).map ρ).zip (own.map some)).foldlM (fillPart (totalShape a).length)
      (replicate (totalShape a).length none) >>= flatten (Dense.strides (totalShape a)) =
        .ok (componentAt a [] ρ : Int) := by
  have hrank : (totalShape a).length = a.freeIndices.length := by
    rw [totalShape, h.shape_eq, nil_append, h.ranged.length_eq]
  rw [hrank]
  obtain ⟨filled, hfilled⟩ : ∃ filled,
      ((((arranged a js).map (·.1)).map ρ).zip (own.map some)).foldlM
      (fillPart a.freeIndices.length) (replicate a.freeIndices.length none) = .ok filled := by
    refine exists_foldlM fun q hq index => ?_
    obtain ⟨k, hk, hplace⟩ := mem_map.1 (of_mem_zip hq).2
    obtain ⟨i, -, hi⟩ := exists_of_mapM hown hk
    obtain ⟨hlt, -⟩ := List.getElem?_eq_some_iff.1 (placeOf_eq_ok hi)
    rw [fillPart, ← hplace]
    exact ⟨_, if_pos hlt⟩
  have hmem : ∀ i ∈ a.freeIndices, i ∈ (arranged a js).map (·.1) := fun i hi => by
    rwa [(h.arranged_perm.map (·.1)).mem_iff, h.ranged.map_fst_free]
  have hflat := flatten_eq (totalShape a) (a.freeIndices.map ρ)
  rw [map_map] at hflat
  rwa [hfilled, filled_eq h.ranged.nodup_freeIndices hmem hown hfilled]

/-- Every component of a tensor that is built has its place in the scalar. -/
lemma components (h : Building a js) (hjs : js ≠ []) :
    ∃ places, tensorComponents (built a js) = .ok places ∧
      Places (arranged a js) (volume (totalShape a)) (componentAt a []) places := by
  have hkeys : ((arranged a js).map (·.1)).Nodup :=
    (h.arranged_perm.map _).nodup_iff.2 h.ranged.sorted.nodup_keys
  have hmem : ∀ i ∈ (arranged a js).map (·.1), i ∈ a.freeIndices := by
    intro i hi
    rwa [(h.arranged_perm.map (·.1)).mem_iff, h.ranged.map_fst_free] at hi
  have hkept : ∀ i ∈ (built a js).freeIndices, i ∈ a.freeIndices := fun i hi =>
    hmem i (by rw [arranged, map_append]; exact mem_append_right _ hi)
  obtain ⟨own, hown⟩ : ∃ own, js.mapM (placeOf a.freeIndices) = .ok own :=
    exists_mapM fun j hj => exists_placeOf (h.ranged.map_fst_free ▸ h.mem j hj)
  obtain ⟨outer, houter⟩ : ∃ outer, (built a js).freeIndices.mapM (placeOf a.freeIndices) =
      .ok outer :=
    exists_mapM fun i hi => exists_placeOf (hkept i hi)
  have hall : ((arranged a js).map (·.1)).mapM (placeOf a.freeIndices) = .ok (own ++ outer) := by
    rw [arranged, map_append, map_map]
    exact mapM_eq_ok.2 (rel_append (by simpa using mapM_eq_ok.1 hown) (mapM_eq_ok.1 houter))
  have hlength : outer.length = (built a js).indexDims.length := by
    rw [← (mapM_eq_ok.1 houter).length_eq]
    simp [built, Expr.indexDims, Expr.freeIndices]
  refine (Places.exists_mapM hkeys (componentAt a []) (fun p => do
      let places :=
        (own ++ outer).map some ++ replicate ((built a js).indexDims.length - outer.length) none
      let filled ← (p.zip places).foldlM (fillPart (totalShape a).length)
        (replicate (totalShape a).length none)
      flatten (Dense.strides (totalShape a)) filled) (fun ρ _ => ?_)
    (fun ρ hρ => Dense.position_lt (h.within hρ)) fun ρ σ hρ hσ heq => ?_).imp
      fun places hp => ⟨?_, hp.2⟩
  · dsimp only
    rw [hlength, Nat.sub_self, replicate_zero, append_nil]
    exact h.flatten_filled hall ρ
  · have hvalues := Dense.position_inj (h.within hρ) (h.within hσ) heq
    exact map_congr_left fun i hi => map_inj_left.1 hvalues i (hmem i hi)
  · have hfilter : (js.map Index.free).filter (!·.isFixed) = js.map .free :=
      filter_eq_self.2 fun i hi => by
        obtain ⟨j, -, rfl⟩ := mem_map.1 hi
        rfl
    refine bind₂_eq_ok.2
      ⟨(), require_eq_ok.2 rfl, (a, .terminal (.multiIndex (js.map .free))), rfl, ?_⟩
    refine bind₅_eq_ok.2 ⟨js.map .free, rfl, (), require_eq_ok.2 (by rw [h.shape_eq]; rfl), (),
      require_eq_ok.2 (by simpa [built, Expr.shape] using hjs), (),
      require_eq_ok.2 (by rw [hfilter]; exact beq_self_eq_true _), (),
      require_eq_ok.2 (beq_iff_eq.2 ?_), ?_⟩
    · rw [totalShape_built, h.volume_eq]
    refine bind₄_eq_ok.2
      ⟨(), require_eq_ok.2 ?_, (), require_eq_ok.2 (all_eq_true.2 fun i hi => ?_), (),
      require_eq_ok.2 (by simp [built, Expr.shape]), outer, houter, ?_⟩
    · obtain ⟨j, js, rfl⟩ := exists_cons_of_ne_nil hjs
      simpa using ne_nil_of_mem (h.ranged.map_fst_free ▸ h.mem j mem_cons_self)
    · simpa using hkept i hi
    rw [if_neg (by omega)]
    refine bind₃_eq_ok.2
      ⟨own, ?_, places, ?_, (), require_eq_ok.2 (allDifferent_of_nodup hp.2.nodup), rfl⟩
    · rw [hfilter, mapM_eq_ok, forall₂_map_left_iff]
      exact mapM_eq_ok.1 hown
    · rw [totalShape_built]
      exact hp.1

/-- The tensor can be indexed by the indices it is built over. -/
lemma indexing (h : Building a js) : Indexing (built a js) (js.map .free) a.free where
  ranged := by
    refine ⟨by simp [built, Expr.freeIndices, Expr.indexDims], ?_⟩
    rw [free_built]
    exact h.ranged.sorted.filter _
  fits := fits_iff.2 ⟨by simp [built, Expr.shape], fun n d hq => by simpa using (of_mem_zip hq).1⟩
  merged := by
    refine Free.merge_eq_some h.ranged.sorted fun q => ?_
    rw [free_built, ← h.arranged_perm.mem_iff, arranged]
    suffices Expr.axes (built a js).shape (js.map .free) =
        js.map fun j => (j, a.extent j) by rw [this]
    show Expr.axes (js.map a.extent) (js.map .free) = _
    rw [Expr.axes, zip_map', filterMap_map]
    exact congrFun filterMap_eq_map' js

end Building

/-- The tensor of a scalar over some of its free indices has the components of the scalar in another
    order, and indexing it by these indices puts them back.  Every component of a tensor that is
    indexed in any way has its place in the tensor. -/
theorem indexing_undoes_building :
    (∀ (a : Expr) (js : List Int), Building a js → js ≠ [] → ∃ places back,
      Indexing (built a js) (js.map .free) a.free ∧
      tensorComponents (built a js) = .ok places ∧
      indexedComponents (item (built a js) (js.map .free) a.free) = .ok back ∧
      volume (totalShape (built a js)) = volume (totalShape a) ∧
      places ~ (range (volume (totalShape a))).map (fun n : Nat => (n : Int)) ∧
      back ~ (range (volume (totalShape a))).map (fun n : Nat => (n : Int)) ∧
      ∀ n < volume (totalShape a), ∃ k : Nat, back[n]? = some (k : Int) ∧
        places[k]? = some (n : Int)) ∧
    ∀ (a : Expr) (is : List Index) (free : Free), Indexing a is free → a.shape ≠ [] →
      ∃ places, indexedComponents (item a is free) = .ok places ∧
        Places free (volume (totalShape a))
        (fun ρ => componentAt a (is.map (Index.resolve ρ)) ρ) places := by
  refine ⟨fun a js h hjs => ?_, fun a is free h hshape => h.components hshape⟩
  have hvolume : volume (totalShape (built a js)) = volume (totalShape a) := by
    rw [Building.totalShape_built, h.volume_eq]
  have hfree : totalShape a = a.free.map (·.2) := by
    rw [totalShape, h.shape_eq, nil_append, h.ranged.map_snd_free]
  obtain ⟨places, hplaces, hbuilt⟩ := h.components hjs
  obtain ⟨back, hback, hindexed⟩ := h.indexing.components (by simpa [built, Expr.shape] using hjs)
  refine ⟨places, back, h.indexing, hplaces, hback, hvolume, hbuilt.perm h.volume_eq.symm,
    hvolume ▸ hindexed.perm (by rw [hvolume, hfree]), fun n hn => ?_⟩
  -- the values of the free indices at the component
  obtain ⟨p, hp⟩ : ∃ p, (indicesOf (a.free.map (·.2)))[n]? = some p :=
    ⟨_, getElem?_eq_getElem (by rwa [length_indicesOf, ← hfree])⟩
  obtain ⟨hwithin, rfl⟩ := getElem?_indicesOf_iff.1 hp
  obtain ⟨ρ, hρ, rfl⟩ := Places.exists_values h.ranged.sorted.nodup_keys hwithin
  refine ⟨_, hindexed.get ρ hρ, ?_⟩
  rw [Building.componentAt_built, hbuilt.get ρ (h.bounded_iff.2 hρ), componentAt, hfree,
    h.ranged.map_fst_free]
  rfl

/-- A matrix is transposed and put back, and the diagonal of a slice is taken. -/
theorem indexing_undoes_building_transposed :
    (∃ a js places back, Building a js ∧ js = [2, 1] ∧ tensorComponents (built a js) = .ok places ∧
      places = [0, 3, 1, 4, 2, 5] ∧
      indexedComponents (item (built a js) (js.map .free) a.free) = .ok back ∧
        back = [0, 2, 4, 1, 3, 5] ∧
      ∀ n : Nat, n < 6 → ∃ k : Nat, back[n]? = some (k : Int) ∧ places[k]? = some (n : Int)) ∧
    ∃ a is free, Indexing a is free ∧ is = [.free 1, .fixed 1, .free 1] ∧
      indexedComponents (item a is free) = .ok [2, 9] := by
  refine ⟨?_, ?_⟩
  · have h : Building (item (.terminal (.constant false 0 none [2, 3])) [.free 1, .free 2]
        [(1, 2), (2, 3)]) [2, 1] := ⟨⟨rfl, by decide⟩, rfl, by decide, by decide⟩
    obtain ⟨places, back, -, hplaces, hback, -, -, -, hundo⟩ :=
      indexing_undoes_building.1 _ [2, 1] h (by decide)
    refine ⟨_, _, places, back, h, rfl, hplaces, ?_, hback, ?_, hundo⟩
    · exact Except.ok.inj (hplaces.symm.trans (by decide +kernel))
    · exact Except.ok.inj (hback.symm.trans (by decide +kernel))
  · have h : Indexing (.terminal (.constant false 0 none [2, 3, 2])) [.free 1, .fixed 1, .free 1]
        [(1, 2)] := ⟨⟨rfl, by decide⟩, by decide, by decide⟩
    obtain ⟨places, hplaces, -⟩ := indexing_undoes_building.2 _ _ _ h (by decide)
    obtain rfl : places = [2, 9] := Except.ok.inj (hplaces.symm.trans (by decide +kernel))
    exact ⟨_, _, _, h, rfl, hplaces⟩

end FormKernel.Scalar
