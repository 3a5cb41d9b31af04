import FormKernel.Proofs.Table.Entries

/-!
# What the kind of a table says

The kind of a table is decided by comparing entries: all entries with zero and one, and the entries
of the first permutation with those of an identity matrix, of the first point and of the first
entity.  `HasKind` says so for each kind, and `IsReduction` says which entries are left when the
axes that the kind promises to be constant are cut.
-/

namespace FormKernel.Table

open List

section Promises

variable (c : Comparison) (a : Dense Float)

/-- All entries are close to a number. -/
def AllNear (N E P D : Nat) (x : Float) : Prop :=
  ∀ p < N, ∀ e < E, ∀ q < P, ∀ d < D, c.close (entry a p e q d) x = true

/-- On each entity the points of the first permutation and the degrees of freedom form an
    identity matrix. -/
def IsIdentity (E P D : Nat) : Prop :=
  P = D ∧ ∀ e < E, ∀ q < P, ∀ d < D, c.close (entry a 0 e q d) (if q = d then 1.0 else 0.0) = true

/-- For a permutation, the entries of the first point are close to those of all others. -/
def SamePoints (E P D p : Nat) : Prop :=
  ∀ q < P, 0 < q → ∀ e < E, ∀ d < D, c.close (entry a p e 0 d) (entry a p e q d) = true

/-- For a permutation, the entries of the first entity are close to those of all others. -/
def SameEntities (E P D p : Nat) : Prop :=
  ∀ e < E, 0 < e → ∀ q < P, ∀ d < D, c.close (entry a p 0 q d) (entry a p e q d) = true

/-- The entries of the first permutation are close to those of all others. -/
def SamePermutations (N E P D : Nat) : Prop :=
  ∀ p < N, 0 < p → ∀ e < E, ∀ q < P, ∀ d < D, c.close (entry a 0 e q d) (entry a p e q d) = true

/-- What a table of each kind looks like.  The kinds are tried in this order. -/
def HasKind (N E P D : Nat) : TableKind → Prop
  | .zeros => AllNear c a N E P D 0.0
  | .ones => ¬AllNear c a N E P D 0.0 ∧ AllNear c a N E P D 1.0
  | .quadrature => ¬AllNear c a N E P D 0.0 ∧ ¬AllNear c a N E P D 1.0 ∧ IsIdentity c a E P D
  | .fixed => ¬AllNear c a N E P D 0.0 ∧ ¬AllNear c a N E P D 1.0 ∧ ¬IsIdentity c a E P D ∧
      SamePoints c a E P D 0 ∧ SameEntities c a E P D 0
  | .piecewise => ¬AllNear c a N E P D 0.0 ∧ ¬AllNear c a N E P D 1.0 ∧ ¬IsIdentity c a E P D ∧
      SamePoints c a E P D 0 ∧ ¬SameEntities c a E P D 0
  | .uniform => ¬AllNear c a N E P D 0.0 ∧ ¬AllNear c a N E P D 1.0 ∧ ¬IsIdentity c a E P D ∧
      ¬SamePoints c a E P D 0 ∧ SameEntities c a E P D 0
  | .varying => ¬AllNear c a N E P D 0.0 ∧ ¬AllNear c a N E P D 1.0 ∧ ¬IsIdentity c a E P D ∧
      ¬SamePoints c a E P D 0 ∧ ¬SameEntities c a E P D 0

end Promises

variable {c : Comparison} {a : Dense Float} {N E P D : Nat}

/-! ## The tests -/

section Tests

variable (h : IsTable a N E P D)

include h

lemma isZeros_iff : isZeros c a = true ↔ AllNear c a N E P D 0.0 := by
  rw [isZeros, Bool.or_eq_true, h.all_data, beq_iff_eq, h.shape]
  refine ⟨fun hz => hz.elim (fun hvolume p hp e he q hq d hd => ?_) id, .inr⟩
  -- an index within the shape shows that the table is not empty
  have hpos := Dense.position_lt (within_four.2 ⟨p, e, q, d, rfl, hp, he, hq, hd⟩)
  omega

lemma isOnes_iff : isOnes c a = true ↔ AllNear c a N E P D 1.0 := h.all_data

lemma isPiecewiseTable_eq_ok (hN : 0 < N) : ∃ b, isPiecewiseTable c a = .ok b ∧
    (b = true ↔ SamePoints c a E P D 0) := by
  obtain ⟨b, hb, hsame⟩ := sameSlices_eq_ok c fun q hq => slice_point h.shape hN hq
  simp only [forall_mem_ranges] at hsame
  exact ⟨b, by simpa [isPiecewiseTable, axisLength, orMisfit, h.shape, bind, Except.bind] using hb,
    hsame⟩

lemma isUniformTable_eq_ok (hN : 0 < N) : ∃ b, isUniformTable c a = .ok b ∧
    (b = true ↔ SameEntities c a E P D 0) := by
  obtain ⟨b, hb, hsame⟩ := sameSlices_eq_ok c fun e he => slice_entity h.shape hN he
  simp only [forall_mem_ranges] at hsame
  exact ⟨b, by simpa [isUniformTable, axisLength, orMisfit, h.shape, bind, Except.bind] using hb,
    hsame⟩

lemma isPermuted_eq_ok : ∃ b, isPermuted c a = .ok b ∧
    (b = false ↔ SamePermutations c a N E P D) := by
  obtain ⟨b, hb, hsame⟩ := sameSlices_eq_ok c fun p hp => slice_permutation h.shape hp
  have hentries : ∀ p, (∀ i ∈ range E ×ˢ range P ×ˢ range D,
      c.close (entry a 0 i.1 i.2.1 i.2.2) (entry a p i.1 i.2.1 i.2.2) = true) ↔
      ∀ e < E, ∀ q < P, ∀ d < D, c.close (entry a 0 e q d) (entry a p e q d) = true := by
    intro p
    simp only [Prod.forall, mem_product, mem_range, and_imp]
    exact ⟨fun h e he q hq d hd => h e q d he hq hd, fun h e q d he hq hd => h e he q hq d hd⟩
  simp only [hentries] at hsame
  refine ⟨!b, ?_, by rw [Bool.not_eq_false']; exact hsame⟩
  simp [isPermuted, axisLength, orMisfit, h.shape, bind, Except.bind, hb, pure, Except.pure]

lemma isQuadrature_eq_ok (hN : 0 < N) : ∃ b, isQuadrature c a = .ok b ∧
    (b = true ↔ IsIdentity c a E P D) := by
  by_cases hPD : P = D
  · subst hPD
    let near (e : Nat) : Bool := (range P ×ˢ range P).all fun i =>
      c.close (entry a 0 e i.1 i.2) (if i.1 = i.2 then 1.0 else 0.0)
    have hidentity : identity P =
        (range P ×ˢ range P).map fun i => if i.1 = i.2 then 1.0 else 0.0 := by
      simp [identity, SProd.sprod, product, map_flatMap, Function.comp_def]
    have hgo : ∀ l : List Nat, (∀ e ∈ l, e < E) →
        isQuadrature.go c a P l = .ok (l.all near) := by
      intro l
      induction l with
      | nil => exact fun _ => rfl
      | cons e l ih =>
        intro hl
        rw [forall_mem_cons] at hl
        rw [isQuadrature.go, slice_entity h.shape hN hl.1, hidentity, all_cons]
        simp only [bind, Except.bind, allClose_map]
        cases hnear : near e with
        | true =>
          rw [if_pos hnear]
          exact ih hl.2
        | false =>
          rw [if_neg (fun hyes => Bool.false_ne_true (hnear.symm.trans hyes))]
          rfl
    refine ⟨(range E).all near, ?_, ?_⟩
    rotate_left
    · simp only [all_eq_true, mem_range, near, forall_mem_ranges]
      exact ⟨fun hall => ⟨rfl, hall⟩, fun hid => hid.2⟩
    rw [isQuadrature, h.shape]
    simpa using hgo (range E) fun e he => mem_range.1 he
  · refine ⟨false, ?_, by simp [IsIdentity, hPD]⟩
    rw [isQuadrature, h.shape]
    simp [hPD, pure, Except.pure]

lemma exists_kind (hN : 0 < N) : ∃ k, TableKind.of c a = .ok k ∧ HasKind c a N E P D k := by
  obtain ⟨quadrature, hq, hquadrature⟩ := isQuadrature_eq_ok (c := c) h hN
  obtain ⟨piecewise, hp, hpiecewise⟩ := isPiecewiseTable_eq_ok (c := c) h hN
  obtain ⟨uniform, hu, huniform⟩ := isUniformTable_eq_ok (c := c) h hN
  by_cases hzeros : isZeros c a = true
  · exact ⟨.zeros, by simp [TableKind.of, hzeros, pure, Except.pure], (isZeros_iff h).1 hzeros⟩
  have hnotZeros := mt (isZeros_iff (c := c) h).2 hzeros
  by_cases hones : isOnes c a = true
  · refine ⟨.ones, ?_, hnotZeros, (isOnes_iff h).1 hones⟩
    simp [TableKind.of, hzeros, hones, pure, Except.pure]
  have hnotOnes := mt (isOnes_iff (c := c) h).2 hones
  cases quadrature with
  | true =>
    refine ⟨.quadrature, ?_, hnotZeros, hnotOnes, hquadrature.1 rfl⟩
    simp [TableKind.of, hzeros, hones, hq, bind, Except.bind, pure, Except.pure]
  | false =>
    have hnotIdentity : ¬IsIdentity c a E P D := by simpa using hquadrature
    refine ⟨match piecewise, uniform with
      | true, true => .fixed
      | true, false => .piecewise
      | false, true => .uniform
      | false, false => .varying, ?_, ?_⟩
    · simp only [TableKind.of, hzeros, hones, hq, hp, hu, bind, Except.bind, pure, Except.pure]
      cases piecewise <;> cases uniform <;> rfl
    · cases piecewise <;> cases uniform <;>
        exact ⟨hnotZeros, hnotOnes,
          hnotIdentity, by simpa using hpiecewise, by simpa using huniform⟩

end Tests

/-! ## Reduction -/

/-- The table that is left of a table with the given extents. -/
structure IsReduction (c : Comparison) (a : Dense Float) (N E P D : Nat) (r : Reduced) : Prop where
  kind : HasKind c a N E P D r.kind
  table : IsTable r.values (extentAfter (!r.permuted) N) (extentAfter r.kind.isUniform E)
    (extentAfter r.kind.isPiecewise P) D
  entry_eq : ∀ p < extentAfter (!r.permuted) N, ∀ e < extentAfter r.kind.isUniform E,
    ∀ q < extentAfter r.kind.isPiecewise P, ∀ d < D, entry r.values p e q d = entry a p e q d
  permuted : r.permuted = false ↔ SamePermutations c a N (extentAfter r.kind.isUniform E)
    (extentAfter r.kind.isPiecewise P) D

lemma isTable_reduceIf (h : IsTable a N E P D) (b : Bool) (axis : Nat) :
    IsTable (if b then reduceAxis axis a else a) (extentAfter (b && 0 == axis) N)
      (extentAfter (b && 1 == axis) E) (extentAfter (b && 2 == axis) P)
      (extentAfter (b && 3 == axis) D) := by
  cases b with
  | true => exact isTable_reduceAxis axis h.shape
  | false => exact h

lemma entry_reduceIf (h : IsTable a N E P D) (b : Bool) {axis p e q d : Nat}
    (hp : p < extentAfter (b && 0 == axis) N) (he : e < extentAfter (b && 1 == axis) E)
    (hq : q < extentAfter (b && 2 == axis) P) (hd : d < extentAfter (b && 3 == axis) D) :
    entry (if b then reduceAxis axis a else a) p e q d = entry a p e q d := by
  cases b with
  | true => exact entry_reduceAxis h.shape hp he hq hd
  | false => rfl

lemma exists_reduction (h : IsTable a N E P D) (hN : 0 < N) :
    ∃ r, reduce c a = .ok r ∧ IsReduction c a N E P D r := by
  obtain ⟨k, hk, hkind⟩ := exists_kind (c := c) h hN
  -- points first, then entities, then permutations
  have hpoints := isTable_reduceIf h k.isPiecewise 2
  simp only [Nat.reduceBEq, Bool.and_false, Bool.and_true, extentAfter_false] at hpoints
  have hentities := isTable_reduceIf hpoints k.isUniform 1
  simp only [Nat.reduceBEq, Bool.and_false, Bool.and_true, extentAfter_false] at hentities
  obtain ⟨permuted, hp, hpermuted⟩ := isPermuted_eq_ok (c := c) hentities
  let points := if k.isPiecewise then reduceAxis 2 a else a
  let values := if k.isUniform then reduceAxis 1 points else points
  have hkept : ∀ p < N, ∀ e < extentAfter k.isUniform E, ∀ q < extentAfter k.isPiecewise P,
      ∀ d < D, entry values p e q d = entry a p e q d := by
    intro p hp e he q hq d hd
    have hpoint : entry points p e q d = entry a p e q d :=
      entry_reduceIf h k.isPiecewise (by simpa using hp)
        (by simpa using he.trans_le (extentAfter_le _ _)) (by simpa using hq)
        (by simpa using hd)
    rw [← hpoint]
    exact entry_reduceIf hpoints k.isUniform (by simpa using hp) (by simpa using he)
      (by simpa using hq) (by simpa using hd)
  have hsame : permuted = false ↔ SamePermutations c a N (extentAfter k.isUniform E)
      (extentAfter k.isPiecewise P) D := by
    refine hpermuted.trans
      ⟨fun hall p hp hpos e he q hq d hd => ?_, fun hall p hp hpos e he q hq d hd => ?_⟩
    · rw [← hkept 0 hN e he q hq d hd, ← hkept p hp e he q hq d hd]
      exact hall p hp hpos e he q hq d hd
    · rw [hkept 0 hN e he q hq d hd, hkept p hp e he q hq d hd]
      exact hall p hp hpos e he q hq d hd
  have hlast := isTable_reduceIf hentities (!permuted) 0
  simp only [Nat.reduceBEq, Bool.and_false, Bool.and_true, extentAfter_false] at hlast
  refine ⟨⟨if !permuted then reduceAxis 0 values else values, k, permuted⟩, ?_, hkind, hlast,
    fun p hp e he q hq d hd => ?_, hsame⟩
  · have hrun : reduce c a = .ok ⟨if permuted then values else reduceAxis 0 values, k, permuted⟩ :=
      bind_eq_ok.2 ⟨k, hk, bind_eq_ok.2 ⟨permuted, hp, rfl⟩⟩
    rw [hrun]
    cases permuted <;> rfl
  · rw [← hkept p (hp.trans_le (extentAfter_le _ _)) e he q hq d hd]
    exact entry_reduceIf hentities (!permuted) (by simpa using hp) (by simpa using he)
      (by simpa using hq) (by simpa using hd)

end FormKernel.Table
