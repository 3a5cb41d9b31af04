import FormKernel.Proofs.Table.Access

/-!
# What compression keeps

A table is compressed by cutting the axes along which its kind says that it is constant.  What a
kernel then reads is compared here with the entry of the full table.

With one permutation nothing is lost beyond the comparison that decided the kind: the entry that is
read is linked to the full one by at most two comparisons.  With several permutations the kind
speaks of the first permutation only, but all of them are cut.
-/

namespace FormKernel.Table

open Binding (Reads reads_entry)

def Comparison.exact : Comparison := ⟨fun x y => decide (x = y)⟩

@[simp] lemma Comparison.exact_close {x y : Float} : Comparison.exact.close x y = true ↔ x = y := by
  simp [Comparison.exact]

/-- A reference to what is left of a table. -/
structure Refers (t : TableRef) (r : Reduced) : Prop where
  name : Kernel.isSymbolName t.name = true
  values : t.values = r.values
  kind : t.kind = r.kind
  piecewise : t.piecewise = r.kind.isPiecewise
  uniform : t.uniform = r.kind.isUniform
  permuted : t.permuted = r.permuted

/-- Entries of a table that are the same, that are close, or between which there is an entry close
    to both. -/
def Linked (c : Comparison) (a : Dense Float) (x y : Float) : Prop :=
  x ∈ a.data ∧ y ∈ a.data ∧
    (x = y ∨ c.close x y = true ∨ ∃ z ∈ a.data, c.close x z = true ∧ c.close z y = true)

/-- A reference to what is left of a table, under the name of a first element's values. -/
def Reduced.reference (r : Reduced) : TableRef where
  name := "FE0"
  values := r.values
  kind := r.kind
  permuted := r.permuted

lemma Reduced.refers_reference (r : Reduced) : Refers r.reference r :=
  ⟨(by decide +kernel : Kernel.isSymbolName "FE0" = true), rfl, rfl, rfl, rfl, rfl⟩

variable {c : Comparison} {a : Dense Float} {N E P D : Nat} {r : Reduced} {d e p q : Nat}

lemma kind_of_reduce (h : reduce c a = .ok r) : TableKind.of c a = .ok r.kind := by
  obtain ⟨k, hk, permuted, -, h⟩ := bind₂_eq_ok.1 h
  rw [hk, ← pure_eq_ok.1 h]

/-- What is read of a reduced table is an entry of the full table. -/
lemma IsReduction.reads {t : TableRef} (h : IsReduction c a N E P D r) (ht : Refers t r)
    (hN : 0 < N) (hp : p < N ∨ r.permuted = false) (he : e < E) (hq : q < P) (hd : d < D) :
    Reads t p e q d (entry a (if r.permuted then p else 0) (if r.kind.isUniform then 0 else e)
      (if r.kind.isPiecewise then 0 else q) d) := by
  have hp' : (if r.permuted then p else 0) < extentAfter (!r.permuted) N := by
    cases hr : r.permuted with
    | true => simpa [hr] using hp
    | false => simpa using extentAfter_pos hN
  have he' : (if r.kind.isUniform then 0 else e) < extentAfter r.kind.isUniform E :=
    place_lt_extentAfter he
  have hq' : (if r.kind.isPiecewise then 0 else q) < extentAfter r.kind.isPiecewise P :=
    place_lt_extentAfter hq
  rw [← h.entry_eq _ hp' _ he' _ hq' _ hd, ← ht.values, ← ht.permuted, ← ht.uniform, ← ht.piecewise]
  rw [← ht.permuted] at hp'
  rw [← ht.uniform] at he'
  rw [← ht.piecewise] at hq'
  refine reads_entry ht.name ?_ hp' he' hq' hd
  rw [ht.values, ht.permuted, ht.uniform, ht.piecewise]
  exact h.table

/-! ## One permutation -/

lemma IsReduction.not_permuted (h : IsReduction c a 1 E P D r) : r.permuted = false := by
  rw [h.permuted]
  intro p hp hpos
  omega

lemma linked_entry (h : IsTable a 1 E P D) {e' q' : Nat} (he : e < E) (he' : e' < E) (hq : q < P)
    (hq' : q' < P) (hd : d < D) (hlink : entry a 0 e' q' d = entry a 0 e q d ∨
      c.close (entry a 0 e' q' d) (entry a 0 e q d) = true ∨
      ∃ x ∈ a.data, c.close (entry a 0 e' q' d) x = true ∧ c.close x (entry a 0 e q d) = true) :
    Linked c a (entry a 0 e' q' d) (entry a 0 e q d) :=
  ⟨h.mem_data.2 ⟨0, e', q', d, Nat.one_pos, he', hq', hd, rfl⟩,
    h.mem_data.2 ⟨0, e, q, d, Nat.one_pos, he, hq, hd, rfl⟩, hlink⟩

/-- Compression of a table with one permutation: every place that a kernel reads has an entry.  It
    is the entry of the full table or linked to it, and in a table of zeros or of ones both are
    close to that number. -/
theorem reduced_entry_linked (c : Comparison) (h : IsTable a 1 E P D) :
    ∃ r, reduce c a = .ok r ∧ TableKind.of c a = .ok r.kind ∧
      ∀ t, Refers t r → ∀ p, ∀ e < E, ∀ q < P, ∀ d < D, ∃ y, Reads t p e q d y ∧
        match r.kind with
        | .zeros => c.close y 0.0 = true ∧ c.close (entry a 0 e q d) 0.0 = true
        | .ones => c.close y 1.0 = true ∧ c.close (entry a 0 e q d) 1.0 = true
        | _ => Linked c a y (entry a 0 e q d) := by
  obtain ⟨r, hr, hred⟩ := exists_reduction (c := c) h Nat.one_pos
  refine ⟨r, hr, kind_of_reduce hr, fun t ht p e he q hq d hd => ⟨_, hred.reads ht Nat.one_pos
    (.inr hred.not_permuted) he hq hd, ?_⟩⟩
  have hE : 0 < E := by omega
  have hP : 0 < P := by omega
  rw [hred.not_permuted]
  have hpromise := hred.kind
  generalize r.kind = k at hpromise
  have hfirst : entry a 0 0 q d ∈ a.data := h.mem_data.2 ⟨0, 0, q, d, Nat.one_pos, hE, hq, hd, rfl⟩
  cases k with
  | zeros => exact ⟨hpromise 0 Nat.one_pos 0 hE 0 hP d hd, hpromise 0 Nat.one_pos e he q hq d hd⟩
  | ones => exact ⟨hpromise.2 0 Nat.one_pos 0 hE 0 hP d hd, hpromise.2 0 Nat.one_pos e he q hq d hd⟩
  | quadrature => exact linked_entry h he he hq hq hd (.inl rfl)
  | varying => exact linked_entry h he he hq hq hd (.inl rfl)
  | piecewise =>
    refine linked_entry h he he hq hP hd ?_
    rcases Nat.eq_zero_or_pos q with rfl | hpos
    · exact .inl rfl
    · exact .inr (.inl (hpromise.2.2.2.1 q hq hpos e he d hd))
  | uniform =>
    refine linked_entry h he hE hq hq hd ?_
    rcases Nat.eq_zero_or_pos e with rfl | hpos
    · exact .inl rfl
    · exact .inr (.inl (hpromise.2.2.2.2 e he hpos q hq d hd))
  | fixed =>
    -- from the first point of the first entity along the points, then along the entities
    refine linked_entry h he hE hq hP hd ?_
    rcases Nat.eq_zero_or_pos q with rfl | hq0 <;> rcases Nat.eq_zero_or_pos e with rfl | he0
    · exact .inl rfl
    · exact .inr (.inl (hpromise.2.2.2.2 e he he0 0 hq d hd))
    · exact .inr (.inl (hpromise.2.2.2.1 q hq hq0 0 he d hd))
    · exact .inr (.inr ⟨_, hfirst, hpromise.2.2.2.1 q hq hq0 0 hE d hd,
        hpromise.2.2.2.2 e he he0 q hq d hd⟩)

/-- A table that is constant up to the tolerance, with two entities and two points. -/
def nearlyFixed : Dense Float := ⟨[1, 2, 2, 1], #[0.5, 0.5000000001, 0.4999999999, 0.5]⟩

/-- The last point of the last entity of `nearlyFixed` is read from the first of the first. -/
theorem reduced_entry_linked_nearlyFixed : IsTable nearlyFixed 1 2 2 1 ∧
    ∃ r t y, reduce tableTolerance nearlyFixed = .ok r ∧ r.kind = .fixed ∧ Refers t r ∧
      Reads t 0 1 1 0 y ∧ Linked tableTolerance nearlyFixed y 0.5 := by
  have htable : IsTable nearlyFixed 1 2 2 1 := ⟨rfl, rfl⟩
  obtain ⟨r, hr, hkind, hall⟩ := reduced_entry_linked tableTolerance htable
  have hfixed : TableKind.of tableTolerance nearlyFixed = .ok .fixed := by decide +kernel
  obtain hk : r.kind = .fixed := Except.ok.inj (hkind.symm.trans hfixed)
  obtain ⟨y, hy, hlinked⟩ := hall _ r.refers_reference 0 1 (by decide) 1 (by decide) 0 (by decide)
  rw [hk] at hlinked
  exact ⟨htable, r, _, y, hr, hk, r.refers_reference, hy, hlinked⟩

/-! ## Several permutations -/

/-- What is left of a table whose permutations are all constant along the axes that are cut. -/
lemma IsReduction.entry_place (h : IsReduction .exact a N E P D r)
    (hpoints : r.kind.isPiecewise = true → ∀ p < N, SamePoints .exact a E P D p)
    (hentities : r.kind.isUniform = true → ∀ p < N, SameEntities .exact a E P D p) (hp : p < N)
    (he : e < E) (hq : q < P) (hd : d < D) :
    entry a (if r.permuted then p else 0) (if r.kind.isUniform then 0 else e)
      (if r.kind.isPiecewise then 0 else q) d = entry a p e q d := by
  have hperm : entry a (if r.permuted then p else 0) (if r.kind.isUniform then 0 else e)
      (if r.kind.isPiecewise then 0 else q) d = entry a p (if r.kind.isUniform then 0 else e)
      (if r.kind.isPiecewise then 0 else q) d := by
    cases hperm : r.permuted with
    | true => rfl
    | false =>
      rcases Nat.eq_zero_or_pos p with rfl | hpos
      · rfl
      · exact Comparison.exact_close.1 (h.permuted.1 hperm p hp hpos _
          (place_lt_extentAfter he) _ (place_lt_extentAfter hq) d hd)
  have hpoint : ∀ e' < E, entry a p e' (if r.kind.isPiecewise then 0 else q) d =
      entry a p e' q d := by
    intro e' he'
    cases hk : r.kind.isPiecewise with
    | false => rfl
    | true =>
      rcases Nat.eq_zero_or_pos q with rfl | hpos
      · rfl
      · exact Comparison.exact_close.1 (hpoints hk p hp q hq hpos e' he' d hd)
  have hentity : entry a p (if r.kind.isUniform then 0 else e) q d = entry a p e q d := by
    cases hk : r.kind.isUniform with
    | false => rfl
    | true =>
      rcases Nat.eq_zero_or_pos e with rfl | hpos
      · rfl
      · exact Comparison.exact_close.1 (hentities hk p hp e he hpos q hq d hd)
  rw [hperm, hpoint _ ((place_lt_extentAfter he).trans_le (extentAfter_le _ _)), hentity]

/-- Compression of a table with any number of permutations, when entries are compared by equality:
    every place is read right exactly if each permutation is constant along the axes that are
    cut. -/
theorem reduce_lossless_iff (h : IsTable a N E P D) (hN : 0 < N) :
    ∃ r, reduce .exact a = .ok r ∧ ∀ t, Refers t r →
      ((∀ p < N, ∀ e < E, ∀ q < P, ∀ d < D, Reads t p e q d (entry a p e q d)) ↔
        (r.kind.isPiecewise = true → ∀ p < N, SamePoints .exact a E P D p) ∧
        (r.kind.isUniform = true → ∀ p < N, SameEntities .exact a E P D p)) := by
  obtain ⟨r, hr, hred⟩ := exists_reduction (c := .exact) h hN
  refine ⟨r, hr, fun t ht => ⟨fun hall => ⟨fun hk p hp q hq hpos e he d hd => ?_,
    fun hk p hp e he hpos q hq d hd => ?_⟩, fun ⟨hpoints, hentities⟩ p hp e he q hq d hd => ?_⟩⟩
  · -- the first point and the point `q` are read at one place
    have hq0 := (hall p hp e he 0 (by omega) d hd).unique
      (hred.reads ht hN (.inl hp) he (by omega) hd)
    have hq' := (hall p hp e he q hq d hd).unique (hred.reads ht hN (.inl hp) he hq hd)
    rw [hk] at hq0 hq'
    exact Comparison.exact_close.2 (hq0.trans hq'.symm)
  · have he0 := (hall p hp 0 (by omega) q hq d hd).unique
      (hred.reads ht hN (.inl hp) (by omega) hq hd)
    have he' := (hall p hp e he q hq d hd).unique (hred.reads ht hN (.inl hp) he hq hd)
    rw [hk] at he0 he'
    exact Comparison.exact_close.2 (he0.trans he'.symm)
  · rw [← hred.entry_place hpoints hentities hp he hq hd]
    exact hred.reads ht hN (.inl hp) he hq hd

/-- The values of two functions at two points of a facet, and at the same points seen from the
    other side. -/
def mirroredTable : Dense Float := ⟨[2, 1, 2, 2], #[0.75, 0.25, 0.25, 0.75, 0.25, 0.75, 0.75, 0.25]⟩

/-- Nothing is lost of `mirroredTable`. -/
theorem reduce_lossless_mirroredTable : IsTable mirroredTable 2 1 2 2 ∧
    ∃ r t, reduce .exact mirroredTable = .ok r ∧ Refers t r ∧
      ∀ p < 2, ∀ e < 1, ∀ q < 2, ∀ d < 2, Reads t p e q d (entry mirroredTable p e q d) := by
  have htable : IsTable mirroredTable 2 1 2 2 := ⟨rfl, rfl⟩
  obtain ⟨r, hr, hall⟩ := reduce_lossless_iff htable (by decide)
  have huniform : TableKind.of .exact mirroredTable = .ok .uniform := by decide +kernel
  have hk : r.kind = .uniform := Except.ok.inj ((kind_of_reduce hr).symm.trans huniform)
  have ht := r.refers_reference
  refine ⟨htable, r, _, hr, ht, (hall _ ht).2 ⟨fun hpoints => ?_, fun _ p _ e he hpos => ?_⟩⟩
  · rw [hk] at hpoints
    exact absurd hpoints (by decide)
  · omega

/-- A table with two permutations, of which the first is constant over the points and the second is
    not. -/
def skewTable : Dense Float := ⟨[2, 2, 2, 1], #[0.25, 0.25, 0.5, 0.5, 0.75, 0.25, 0.5, 0.5]⟩

/-- At the second point of the first entity the second permutation of `skewTable` is 0.25, but the
    entry of the first point is read, which is 0.75. -/
theorem reduce_lossy_skewTable : IsTable skewTable 2 2 2 1 ∧
    ∃ r t, reduce .exact skewTable = .ok r ∧ Refers t r ∧ Reads t 1 0 1 0 0.75 ∧
      entry skewTable 1 0 1 0 = 0.25 ∧ (0.75 : Float) ≠ 0.25 := by
  have htable : IsTable skewTable 2 2 2 1 := ⟨rfl, rfl⟩
  obtain ⟨r, hr, hred⟩ := exists_reduction (c := .exact) htable (by decide)
  have hpiecewise : TableKind.of .exact skewTable = .ok .piecewise := by decide +kernel
  have hk : r.kind = .piecewise := Except.ok.inj ((kind_of_reduce hr).symm.trans hpiecewise)
  have hpermuted : r.permuted = true := by
    rw [← Bool.not_eq_false, hred.permuted]
    intro hall
    have h := hall 1 (by decide) (by decide) 0 (by rw [hk]; decide) 0 (by rw [hk]; decide) 0
      (by decide)
    exact absurd h (by decide +kernel)
  have ht := r.refers_reference
  have hread := hred.reads ht (by decide) (.inl (by decide : 1 < 2)) (by decide : 0 < 2)
    (by decide : 1 < 2) (by decide : 0 < 1)
  rw [hpermuted, hk] at hread
  exact ⟨htable, r, _, hr, ht, hread, rfl, by decide +kernel⟩

end FormKernel.Table
