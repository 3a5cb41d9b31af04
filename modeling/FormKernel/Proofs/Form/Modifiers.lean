import FormKernel.Proofs.Form.Equality
import FormKernel.Proofs.List
import FormKernel.Proofs.RowMajor

/-!
# Terminals under modifiers

Modifiers can be nested around a terminal in many ways.  Reading them off from the outside gives the
same result for all of them: each gradient takes the last index that is left, so it depends on the
gradients outside of it which index that is.
-/

namespace FormKernel.Form.ModifiedTerminal

open List

/-- A modifier other than an index; a gradient is known by the direction that it takes. -/
inductive Wrapper where
  | grad (d : Int)
  | referenceGrad (d : Int)
  | restricted (side : Side)
  | averaged (extent : Average)
  | referenceValue
  deriving DecidableEq

namespace Wrapper

def operator : Wrapper → Operator
  | .grad _ => .grad
  | .referenceGrad _ => .referenceGrad
  | .restricted .plus => .positiveRestricted
  | .restricted .minus => .negativeRestricted
  | .averaged .cell => .cellAvg
  | .averaged _ => .facetAvg
  | .referenceValue => .referenceValue

/-- Whether a modifier can be taken after what has been read. -/
def Admitted (layers : Layers) : Wrapper → Prop
  | .grad d | .referenceGrad d => ∃ c, layers.component = some (c ++ [d])
  | .restricted _ => layers.restriction = none
  | .averaged extent => layers.averaged = none ∧ (extent = .cell ∨ extent = .facet)
  | .referenceValue => layers.reference = false

/-- What has been read after a modifier has been taken. -/
def apply (layers : Layers) : Wrapper → Layers
  | .grad d => { layers with
      component := layers.component.map dropLast, globalDerivatives :=
      layers.globalDerivatives ++ [d] }
  | .referenceGrad d => { layers with
      component := layers.component.map dropLast, localDerivatives :=
      layers.localDerivatives ++ [d] }
  | .restricted side => { layers with restriction := some side }
  | .averaged extent => { layers with averaged := some extent }
  | .referenceValue => { layers with reference := true }

def global? : Wrapper → Option Int
  | .grad d => some d
  | _ => none

def local? : Wrapper → Option Int
  | .referenceGrad d => some d
  | _ => none

def direction? (w : Wrapper) : Option Int := w.global?.or w.local?

def side? : Wrapper → Option Side
  | .restricted side => some side
  | _ => none

def extent? : Wrapper → Option Average
  | .averaged extent => some extent
  | _ => none

def reference? : Wrapper → Option Unit
  | .referenceValue => some ()
  | _ => none

end Wrapper

/-- The modifiers that have been read, in one of their orders. -/
def Layers.wrappers (m : Layers) : List Wrapper :=
  m.globalDerivatives.map .grad ++ m.localDerivatives.map .referenceGrad ++
    m.restriction.toList.map .restricted ++ m.averaged.toList.map .averaged ++
    replicate m.reference.toNat .referenceValue

/-- Everything that one step of reading can do. -/
inductive Takes (layers : Layers) : Operator → List Expr → Layers → Prop
  | indexed {a i : Expr} {is : List Index} (hnone : layers.component = none)
    (hi : i.indices? = some is)
      (hfixed : is.all Index.isFixed = true) :
      Takes layers .indexed [a, i] { layers with component := some (is.map Index.number) }
  | wrapper {a : Expr} (w : Wrapper) (h : w.Admitted layers) : Takes layers w.operator [a]
    (w.apply layers)

variable {layers next : Layers} {e : Expr} {op : Operator} {ops : List Expr} {t : Terminal}

lemma derivative_eq_ok {c : List Int} {d : Int} :
    layers.derivative = .ok (c, d) ↔ layers.component = some (c ++ [d]) := by
  unfold Layers.derivative
  split
  · next is his =>
    rw [his]
    split
    · next d' hd =>
      obtain ⟨c', rfl⟩ := getLast?_eq_some_iff.1 hd
      simp
    · next hnone => simp [getLast?_eq_none_iff.1 hnone]
  · next hnone => simp [hnone]

lemma single_eq_ok : single ops = .ok () ↔ ∃ a, ops = [a] := by
  unfold single
  split
  · simp
  · next hnot => simpa using fun a h => hnot a h

lemma restrict_eq_ok {side : Side} : layers.restrict side = .ok next ↔
    layers.restriction = none ∧ next = { layers with restriction := some side } := by
  unfold Layers.restrict
  cases layers.restriction <;> simp [eq_comm]

lemma average_eq_ok {extent : Average} : layers.average extent = .ok next ↔
    layers.averaged = none ∧ next = { layers with averaged := some extent } := by
  unfold Layers.average
  cases layers.averaged <;> simp [eq_comm]

lemma takes_of_restrict (side : Side)
    (h : (layers.restrict side >>= fun l => single ops >>= fun _ => pure l) = .ok next) :
    Takes layers (Wrapper.restricted side).operator ops next := by
  obtain ⟨_, hr, _, hsingle, hnext⟩ := bind₂_eq_ok.1 h
  obtain ⟨a, rfl⟩ := single_eq_ok.1 hsingle
  obtain ⟨hnone, rfl⟩ := restrict_eq_ok.1 hr
  rw [← pure_eq_ok.1 hnext]
  exact .wrapper (.restricted side) hnone

lemma takes_of_average {extent : Average} (hextent : extent = .cell ∨ extent = .facet)
    (h : (layers.average extent >>= fun l => single ops >>= fun _ => pure l) = .ok next) :
    Takes layers (Wrapper.averaged extent).operator ops next := by
  obtain ⟨_, hr, _, hsingle, hnext⟩ := bind₂_eq_ok.1 h
  obtain ⟨a, rfl⟩ := single_eq_ok.1 hsingle
  obtain ⟨hnone, rfl⟩ := average_eq_ok.1 hr
  rw [← pure_eq_ok.1 hnext]
  exact .wrapper (.averaged extent) ⟨hnone, hextent⟩

lemma takes_of_take (h : layers.take e op ops = .ok next) : Takes layers op ops next := by
  cases op with
  | indexed =>
    unfold Layers.take at h
    dsimp only at h
    split at h
    · cases h
    · next hnone =>
      split at h
      · next a i =>
        split at h
        · next is his =>
          obtain ⟨hfixed, h⟩ := ite_throw_eq_ok h
          rw [← pure_eq_ok.1 h]
          exact .indexed (by simpa using hnone) his (by simpa using hfixed)
        · cases h
      · cases h
  | referenceValue =>
    unfold Layers.take at h
    obtain ⟨hreference, h⟩ := ite_throw_eq_ok h
    obtain ⟨_, hsingle, hnext⟩ := bind_eq_ok.1 h
    obtain ⟨a, rfl⟩ := single_eq_ok.1 hsingle
    rw [← pure_eq_ok.1 hnext]
    exact .wrapper .referenceValue (Bool.eq_false_iff.2 hreference)
  | referenceGrad =>
    obtain ⟨⟨c, d⟩, hd, _, hsingle, hnext⟩ := bind₂_eq_ok.1 h
    obtain ⟨a, rfl⟩ := single_eq_ok.1 hsingle
    rw [derivative_eq_ok] at hd
    have hstep := Takes.wrapper (a := a) (.referenceGrad d) ⟨c, hd⟩
    rw [Wrapper.apply, hd, Option.map_some, dropLast_concat] at hstep
    exact pure_eq_ok.1 hnext ▸ hstep
  | grad =>
    obtain ⟨⟨c, d⟩, hd, _, hsingle, hnext⟩ := bind₂_eq_ok.1 h
    obtain ⟨a, rfl⟩ := single_eq_ok.1 hsingle
    rw [derivative_eq_ok] at hd
    have hstep := Takes.wrapper (a := a) (.grad d) ⟨c, hd⟩
    rw [Wrapper.apply, hd, Option.map_some, dropLast_concat] at hstep
    exact pure_eq_ok.1 hnext ▸ hstep
  | positiveRestricted => exact takes_of_restrict .plus h
  | negativeRestricted => exact takes_of_restrict .minus h
  | cellAvg => exact takes_of_average (.inl rfl) h
  | facetAvg => exact takes_of_average (.inr rfl) h
  | restricted =>
    unfold Layers.take at h
    dsimp only at h
    split at h
    · cases h
    · cases h
  | _ => cases h

lemma take_of_takes (h : Takes layers op ops next) : layers.take e op ops = .ok next := by
  cases h with
  | indexed hnone hi hfixed => simp [Layers.take, hnone, hi, hfixed]
  | wrapper w hw =>
    cases w with
    | grad d | referenceGrad d =>
      obtain ⟨c, hc⟩ := hw
      refine bind₂_eq_ok.2 ⟨(c, d), derivative_eq_ok.2 hc, (), rfl, ?_⟩
      rw [Wrapper.apply, hc, Option.map_some, dropLast_concat]
      rfl
    | restricted side =>
      cases side <;> exact bind₂_eq_ok.2 ⟨_, restrict_eq_ok.2 ⟨hw, rfl⟩, (), rfl, rfl⟩
    | averaged extent =>
      obtain ⟨hnone, rfl | rfl⟩ := hw <;>
        exact bind₂_eq_ok.2 ⟨_, average_eq_ok.2 ⟨hnone, rfl⟩, (), rfl, rfl⟩
    | referenceValue =>
      simp [Wrapper.operator, Layers.take, show layers.reference = false from hw, single,
        Wrapper.apply]

/-- The operators that are read off, from the outside. -/
def modifiers : Expr → List Operator
  | .operator op (e :: _) .. => op :: modifiers e
  | .operator op [] .. => [op]
  | .terminal _ => []

/-- What can be taken only once. -/
inductive Kind where
  | index | restriction | average | reference

def kind? : Operator → Option Kind
  | .indexed => some .index
  | .positiveRestricted | .negativeRestricted => some .restriction
  | .cellAvg | .facetAvg => some .average
  | .referenceValue => some .reference
  | _ => none

/-- Whether a kind has been taken. -/
def Layers.has (layers : Layers) : Kind → Prop
  | .index => layers.component ≠ none
  | .restriction => layers.restriction ≠ none
  | .average => layers.averaged ≠ none
  | .reference => layers.reference = true

lemma Takes.has (h : Takes layers op ops next) :
    (∀ k ∈ kind? op, ¬ layers.has k ∧ next.has k) ∧ ∀ k, layers.has k → next.has k := by
  cases h with
  | indexed hnone =>
    refine ⟨fun k hk => ?_, fun k hk => ?_⟩
    · cases hk
      exact ⟨fun hhas => hhas hnone, Option.some_ne_none _⟩
    · cases k with
      | index => exact Option.some_ne_none _
      | _ => exact hk
  | wrapper w hw =>
    refine ⟨fun k hk => ?_, fun k hk => ?_⟩
    · rcases w with d | d | ⟨⟨⟩⟩ | extent | _
      · cases hk
      · cases hk
      · cases hk
        exact ⟨fun hhas => hhas hw, Option.some_ne_none _⟩
      · cases hk
        exact ⟨fun hhas => hhas hw, Option.some_ne_none _⟩
      · obtain ⟨hnone, rfl | rfl⟩ := hw <;> cases hk <;>
          exact ⟨fun hhas => hhas hnone, Option.some_ne_none _⟩
      · cases hk
        exact ⟨Bool.eq_false_iff.1 hw, rfl⟩
    · cases w <;> cases k <;> simp_all [Layers.has, Wrapper.apply]

lemma nodup_of_read : ∀ {e : Expr} {layers layers' : Layers}, layers.read e = .ok (layers', t) →
    (∀ k ∈ (modifiers e).filterMap kind?, ¬ layers.has k) ∧ ((modifiers e).filterMap kind?).Nodup
  | .terminal _, _, _, _ => ⟨by simp [modifiers], .nil⟩
  | .operator op [] .., _, _, h => by
    obtain ⟨next, -, h⟩ := bind_eq_ok.1 h
    cases h
  | .operator op (e :: rest) .., layers, _, h => by
    obtain ⟨next, hnext, h⟩ := bind_eq_ok.1 h
    obtain ⟨hnew, hkept⟩ := (takes_of_take hnext).has
    obtain ⟨hrest, hnodup⟩ := nodup_of_read h
    rw [modifiers, filterMap_cons]
    cases hkind : kind? op with
    | none => exact ⟨fun k hk hhas => hrest k hk (hkept k hhas), hnodup⟩
    | some k =>
      obtain ⟨hk, hk'⟩ := hnew k hkind
      refine ⟨forall_mem_cons.2 ⟨hk, fun l hl hhas => hrest l hl (hkept l hhas)⟩, ?_⟩
      exact nodup_cons.2 ⟨fun hmem => hrest k hmem hk', hnodup⟩

/-! ## Nestings -/

/-- A terminal under modifiers, which are listed from the outside. -/
inductive Wrapped (t : Terminal) : List Wrapper → Expr → Prop
  | terminal : Wrapped t [] (.terminal t)
  | wrap (w : Wrapper) {ws : List Wrapper} {e : Expr} {shape : List Nat} {fi : List Int}
    {dims : List Nat}
      (h : Wrapped t ws e) : Wrapped t (w :: ws) (.operator w.operator [e] shape fi dims)

/-- Modifiers are nested around a terminal, in any order, with the index outside of them.  The
    outermost gradient takes the last index. -/
inductive Nests (m : Layers) (t : Terminal) : Expr → Prop
  | bare {ws : List Wrapper} {e : Expr} (hws : ws.Perm m.wrappers) (he : Wrapped t ws e)
      (hc : m.component = none) (hd : ws.filterMap Wrapper.direction? = []) : Nests m t e
  | indexed {ws : List Wrapper} {c : List Int} {e i : Expr} {shape : List Nat} {fi : List Int}
      {dims : List Nat} (hws : ws.Perm m.wrappers) (he : Wrapped t ws e) (hc : m.component = some c)
      (hi : i.indices? = some ((c ++ (ws.filterMap Wrapper.direction?).reverse).map .fixed)) :
      Nests m t (.operator .indexed [e, i] shape fi dims)

variable {m m' : Layers} {w : Wrapper} {ws : List Wrapper}

lemma filterMap_wrappers (m : Layers) :
    m.wrappers.filterMap Wrapper.global? = m.globalDerivatives ∧
      m.wrappers.filterMap Wrapper.local? = m.localDerivatives ∧
      m.wrappers.filterMap Wrapper.side? = m.restriction.toList ∧
      m.wrappers.filterMap Wrapper.extent? = m.averaged.toList ∧
      m.wrappers.filterMap Wrapper.reference? = replicate m.reference.toNat () := by
  simp [Layers.wrappers, filterMap_map, Function.comp_def, filterMap_replicate, Wrapper.global?,
    Wrapper.local?, Wrapper.side?, Wrapper.extent?, Wrapper.reference?]

lemma eq_of_toList_perm {α : Type} {o o' : Option α} (h : o.toList.Perm o'.toList) : o = o' := by
  cases o <;> cases o' <;> simp_all

/-- The order of the modifiers matters only for that of the derivatives. -/
lemma same_of_perm (h : m.wrappers.Perm m'.wrappers) :
    m.globalDerivatives.Perm m'.globalDerivatives ∧ m.localDerivatives.Perm m'.localDerivatives ∧
      m.restriction = m'.restriction ∧ m.averaged = m'.averaged ∧ m.reference = m'.reference := by
  obtain ⟨hglobal, hlocal, hside, hextent, hreference⟩ := filterMap_wrappers m
  obtain ⟨hglobal', hlocal', hside', hextent', hreference'⟩ := filterMap_wrappers m'
  refine ⟨hglobal ▸ hglobal' ▸ h.filterMap _, hlocal ▸ hlocal' ▸ h.filterMap _,
    eq_of_toList_perm (hside ▸ hside' ▸ h.filterMap _),
    eq_of_toList_perm (hextent ▸ hextent' ▸ h.filterMap _), ?_⟩
  have hlength := (h.filterMap Wrapper.reference?).length_eq
  rw [hreference, hreference', length_replicate, length_replicate] at hlength
  revert hlength
  cases m.reference <;> cases m'.reference <;> simp

lemma wrappers_apply (h : w.Admitted layers) :
    (w.apply layers).wrappers.Perm (w :: layers.wrappers) := by
  refine perm_iff_count.2 fun x => ?_
  cases w <;> simp_all [Layers.wrappers, Wrapper.apply, Wrapper.Admitted, count_cons] <;> omega

/-- Modifiers can be taken one after the other to read `m`: they are those that are missing, and the
    indices that are left are the component and the directions. -/
structure Ready (m layers : Layers) (ws : List Wrapper) : Prop where
  component : layers.component = m.component.map fun c => c ++
    (ws.filterMap Wrapper.direction?).reverse
  bare : m.component = none → ws.filterMap Wrapper.direction? = []
  missing : (layers.wrappers ++ ws).Perm m.wrappers

lemma none_of_perm {α : Type} {o o' : Option α} {a : α} {l : List α}
    (h : (o.toList ++ a :: l).Perm o'.toList) : o = none ∧ o' = some a := by
  have hlength := h.length_eq
  cases o <;> cases o' <;> simp at hlength
  subst hlength
  exact ⟨rfl, congrArg some (perm_singleton.1 h.symm |> cons.inj).1⟩

lemma Ready.admitted (h : Ready m layers (w :: ws))
    (hextent : ∀ x ∈ m.averaged, x = .cell ∨ x = .facet) : w.Admitted layers := by
  obtain ⟨-, -, hside, hextents, hreference⟩ := filterMap_wrappers layers
  obtain ⟨-, -, hside', hextents', hreference'⟩ := filterMap_wrappers m
  cases w with
  | grad d | referenceGrad d =>
    cases hm : m.component with
    | none => exact absurd (h.bare hm) (cons_ne_nil _ _)
    | some c =>
      refine ⟨c ++ (ws.filterMap Wrapper.direction?).reverse, ?_⟩
      rw [h.component, hm, append_assoc, ← reverse_cons]
      rfl
  | restricted side =>
    have hperm := h.missing.filterMap Wrapper.side?
    rw [filterMap_append, hside, hside'] at hperm
    exact (none_of_perm hperm).1
  | averaged extent =>
    have hperm := h.missing.filterMap Wrapper.extent?
    rw [filterMap_append, hextents, hextents'] at hperm
    obtain ⟨hnone, hm⟩ := none_of_perm hperm
    exact ⟨hnone, hextent _ hm⟩
  | referenceValue =>
    have hlength := (h.missing.filterMap Wrapper.reference?).length_eq
    have hcons : (Wrapper.referenceValue :: ws).filterMap Wrapper.reference? =
      () :: ws.filterMap Wrapper.reference? := rfl
    rw [filterMap_append, hreference, hreference', hcons, length_append, length_cons,
      length_replicate, length_replicate] at hlength
    have hle := Bool.toNat_le m.reference
    cases hr : layers.reference with
    | false => exact hr
    | true =>
      rw [hr, Bool.toNat_true] at hlength
      omega

lemma Ready.step (h : Ready m layers (w :: ws))
    (hw : w.Admitted layers) : Ready m (w.apply layers) ws := by
  obtain ⟨hcomponent, hbare, hmissing⟩ := h
  have hmissing' : ((w.apply layers).wrappers ++ ws).Perm m.wrappers :=
    ((wrappers_apply hw).append_right ws).trans (perm_middle.symm.trans hmissing)
  cases w with
  | grad d | referenceGrad d =>
    refine ⟨?_, fun hm => absurd (hbare hm) (cons_ne_nil _ _), hmissing'⟩
    show layers.component.map dropLast = _
    rw [hcomponent, Option.map_map]
    congr 1
    funext c
    show (c ++ (d :: ws.filterMap Wrapper.direction?).reverse).dropLast = _
    rw [reverse_cons, ← append_assoc, dropLast_concat]
  | _ => exact ⟨hcomponent, hbare, hmissing'⟩

/-- Reading the missing modifiers one after the other. -/
lemma Ready.read (h : Ready m layers ws) (he : Wrapped t ws e)
    (hextent : ∀ x ∈ m.averaged, x = .cell ∨ x = .facet) : ∃ final, layers.read e = .ok (final, t) ∧
      final.component = m.component ∧ final.wrappers.Perm m.wrappers := by
  induction he generalizing layers with
  | terminal =>
    refine ⟨layers, rfl, ?_, by simpa using h.missing⟩
    rw [h.component]
    simp
  | wrap w _ ih =>
    have hw := h.admitted hextent
    obtain ⟨final, hread, hfinal⟩ := ih (h.step hw)
    exact ⟨final, bind_eq_ok.2 ⟨_, take_of_takes (.wrapper w hw), hread⟩, hfinal⟩

/-- Reading nested modifiers gives what they stand for, however they are nested. -/
lemma Nests.read (h : Nests m t e) (hextent : ∀ x ∈ m.averaged, x = .cell ∨ x = .facet) :
    ∃ final, Layers.read {} e = .ok (final, t) ∧ final.component = m.component ∧
      final.wrappers.Perm m.wrappers := by
  cases h with
  | bare hws he hc hd =>
    exact Ready.read ⟨by rw [hc]; rfl, fun _ => hd, hws⟩ he hextent
  | @indexed ws c e i shape fi dims hws he hc hi =>
    have htake :=
      @Takes.indexed {} e i _ rfl hi (by rw [all_map]; exact all_eq_true.2 fun _ _ => rfl)
    rw [map_map, show Index.number ∘ Index.fixed = id from rfl, map_id] at htake
    have hready :
        Ready m { component := some (c ++ (ws.filterMap Wrapper.direction?).reverse) } ws :=
      ⟨by rw [hc]; rfl, fun hnone => by simp [hc] at hnone, hws⟩
    obtain ⟨final, hread, hfinal⟩ := hready.read he hextent
    exact ⟨final, bind_eq_ok.2 ⟨_, take_of_takes htake, hread⟩, hfinal⟩

/-! ## Numbers of components -/

section Numbers

variable {shape : List Nat} {symmetry : List (List Nat × List Nat)}

def ownComponents (shape : List Nat) (symmetry : List (List Nat × List Nat)) : List (List Nat) :=
  (Table.indicesOf shape).filter fun c => (symmetry.lookup c).isNone

/-- The component that a component is equal to. -/
def representative (symmetry : List (List Nat × List Nat)) (c : List Nat) : List Nat :=
  (symmetry.lookup c).getD c

/-- Components are equal to components that stand for themselves. -/
def IsSymmetry (shape : List Nat) (symmetry : List (List Nat × List Nat)) : Prop :=
  ∀ c ∈ Table.indicesOf shape, representative symmetry c ∈ ownComponents shape symmetry

lemma representative_own {c : List Nat} (h : c ∈ ownComponents shape symmetry) :
    representative symmetry c = c := by
  rw [representative, Option.isNone_iff_eq_none.1 (mem_filter.1 h).2, Option.getD_none]

/-- The numbers that are known are those of representatives, and these have numbers. -/
structure Numbered (shape : List Nat) (symmetry : List (List Nat × List Nat))
    (numbers : List (List Nat × Nat)) : Prop where
  eq : ∀ {c n}, numbers.lookup c = some n →
    n = (ownComponents shape symmetry).idxOf (representative symmetry c)
  own : ∀ c ∈ ownComponents shape symmetry, (numbers.lookup c).isSome = true

lemma numbered_own : Numbered shape symmetry
    ((ownComponents shape symmetry).zip (range (ownComponents shape symmetry).length)) := by
  have hkeys :
      ((ownComponents shape symmetry).zip (range (ownComponents shape symmetry).length)).map (·.1) =
      ownComponents shape symmetry := map_fst_zip (by simp)
  refine ⟨fun {c n} h => ?_, fun c hc => ?_⟩
  · obtain ⟨i, hi, heq⟩ := getElem_of_mem (mem_of_lookup_eq_some h)
    rw [getElem_zip, getElem_range] at heq
    obtain ⟨rfl, rfl⟩ := Prod.mk.inj heq
    rw [representative_own (getElem_mem _)]
    exact (((nodup_indicesOf shape).filter _).idxOf_getElem _ _).symm
  · rw [← hkeys] at hc
    obtain ⟨p, hp, rfl⟩ := mem_map.1 hc
    exact isSome_lookup_of_mem hp

/-- Numbers a component that is equal to another. -/
def numberStep (symmetry : List (List Nat × List Nat)) (numbers : List (List Nat × Nat))
    (c : List Nat) : Outcome (List (List Nat × Nat)) :=
  match symmetry.lookup c with
  | none => .ok numbers
  | some m =>
    match numbers.lookup m with
    | some n => .ok (numbers ++ [(c, n)])
    | none => misfit .noEntry

lemma numberStep_eq_ok (h : IsSymmetry shape symmetry) {numbers : List (List Nat × Nat)}
    (hnumbers : Numbered shape symmetry numbers) {c : List Nat} (hc : c ∈ Table.indicesOf shape) :
    ∃ out, numberStep symmetry numbers c = .ok out ∧ Numbered shape symmetry out ∧
      ∀ k, (numbers.lookup k).isSome = true ∨ k = c → (out.lookup k).isSome = true := by
  have hown := h c hc
  unfold numberStep
  cases hm : symmetry.lookup c with
  | none =>
    refine ⟨numbers, rfl, hnumbers, fun k hk => hk.elim id ?_⟩
    rintro rfl
    rw [representative, hm] at hown
    exact hnumbers.own _ hown
  | some m =>
    rw [representative, hm, Option.getD_some] at hown
    obtain ⟨n, hn⟩ := Option.isSome_iff_exists.1 (hnumbers.own m hown)
    dsimp only
    rw [hn]
    have hlookup : ∀ k, (numbers ++ [(c, n)]).lookup k =
        (numbers.lookup k).or (if k = c then some n else none) := fun k => by
      rw [lookup_append, lookup_cons, lookup_nil]
      split <;> simp_all
    refine ⟨_, rfl, ⟨fun {k l} hk => ?_, fun k hk => ?_⟩, fun k hk => ?_⟩
    · rw [hlookup, Option.or_eq_some_iff] at hk
      rcases hk with hk | ⟨-, hk⟩
      · exact hnumbers.eq hk
      · split at hk
        · next hkc =>
          rw [← Option.some.inj hk, hnumbers.eq hn, hkc, representative_own hown,
            representative, hm]
          rfl
        · cases hk
    · rw [hlookup, Option.isSome_or, hnumbers.own k hk, Bool.true_or]
    · rw [hlookup, Option.isSome_or]
      rcases hk with hk | rfl
      · rw [hk, Bool.true_or]
      · simp

lemma numberSteps_eq_ok (h : IsSymmetry shape symmetry) {cs : List (List Nat)}
    {numbers : List (List Nat × Nat)} (hcs : ∀ c ∈ cs, c ∈ Table.indicesOf shape)
    (hnumbers : Numbered shape symmetry numbers) :
    ∃ out, cs.foldlM (numberStep symmetry) numbers = .ok out ∧ Numbered shape symmetry out ∧
      ∀ k, (numbers.lookup k).isSome = true ∨ k ∈ cs → (out.lookup k).isSome = true := by
  induction cs generalizing numbers with
  | nil => exact ⟨numbers, rfl, hnumbers, by simp⟩
  | cons c cs ih =>
    rw [forall_mem_cons] at hcs
    obtain ⟨mid, hmid, hnumbered, hknown⟩ := numberStep_eq_ok h hnumbers hcs.1
    obtain ⟨out, hout, hnumbered', hknown'⟩ := ih hcs.2 hnumbered
    refine ⟨out, bind_eq_ok.2 ⟨mid, hmid, hout⟩, hnumbered', fun k hk => hknown' k ?_⟩
    rw [mem_cons, ← or_assoc] at hk
    exact hk.imp_left (hknown k)

lemma componentNumbers_eq_ok (h : IsSymmetry shape symmetry) :
    ∃ numbers, componentNumbers shape symmetry = .ok numbers ∧ ∀ c ∈ Table.indicesOf shape,
      numbers.lookup c = some ((ownComponents shape symmetry).idxOf (representative symmetry c)) :=
      by
  obtain ⟨out, hout, hnumbered, hknown⟩ := numberSteps_eq_ok h (fun _ hc => hc) numbered_own
  refine ⟨out, hout, fun c hc => ?_⟩
  obtain ⟨n, hn⟩ := Option.isSome_iff_exists.1 (hknown c (.inr hc))
  rw [hn, hnumbered.eq hn]

end Numbers

lemma beq_iff {a b : ModifiedTerminal} : (a == b) = true ↔ (a.terminal == b.terminal) = true ∧
    a.reference = b.reference ∧ a.flatComponent = b.flatComponent ∧
    a.globalDerivatives = b.globalDerivatives ∧ a.localDerivatives = b.localDerivatives ∧
    a.averaged = b.averaged ∧ a.restriction = b.restriction := by
  show a.equal b = true ↔ _
  simp [equal, and_assoc]

lemma mergeSort_eq_iff {as bs : List Int} : as.mergeSort = bs.mergeSort ↔ as.Perm bs := by
  have hsorted : ∀ l : List Int, l.mergeSort.Pairwise (· ≤ ·) := fun l => by
    have hpairs := @pairwise_mergeSort Int (fun a b => decide (a ≤ b))
      (by simpa using fun _ _ _ => Int.le_trans) (by simpa using Int.le_total) l
    simpa using hpairs
  constructor
  · intro h
    exact (mergeSort_perm as _).symm.trans (h ▸ mergeSort_perm bs _)
  · intro h
    have hperm := (mergeSort_perm as (· ≤ ·)).trans (h.trans (mergeSort_perm bs (· ≤ ·)).symm)
    exact hperm.eq_of_pairwise (fun _ _ _ _ => Int.le_antisymm) (hsorted as) (hsorted bs)

/-- A component lies within a shape. -/
def InShape (c : List Int) (shape : List Nat) : Prop :=
  Forall₂ (fun (i : Int) (n : Nat) => 0 ≤ i ∧ i < n) c shape

lemma InShape.mem {c : List Int} {shape : List Nat} (h : InShape c shape) :
    c.map Int.toNat ∈ Table.indicesOf shape := by
  have hwithin : Within shape (c.map Int.toNat) := by
    rw [Within, forall₂_map_left_iff]
    exact h.imp fun i n hi => by omega
  exact mem_of_getElem? (getElem?_indicesOf hwithin)

lemma inShape_iff {c : List Int} {shape : List Nat} : InShape c shape ↔
    c.length = shape.length ∧ (c.zip shape).all (fun (i, n) => 0 ≤ i && i < n) = true := by
  rw [InShape, forall₂_iff_zip, all_eq_true]
  simp

/-- Modifiers that a terminal can have. -/
structure Fits (m : Layers) (t : Terminal) : Prop where
  component : InShape (m.component.getD []) (base t m.reference).1
  derivatives : freelyDifferentiable t = false →
    (m.localDerivatives ≠ [] → m.reference = true) ∧
      (m.globalDerivatives ≠ [] → m.reference = false)
  extent : ∀ x ∈ m.averaged, x = .cell ∨ x = .facet
  symmetry : IsSymmetry (base t m.reference).1 (base t m.reference).2

/-- The component that stands for the one that is taken. -/
def Layers.own (m : Layers) (t : Terminal) : List Nat :=
  representative (base t m.reference).2 ((m.component.getD []).map Int.toNat)

/-- The canonical form of a terminal under modifiers. -/
def Layers.result (m : Layers) (t : Terminal) : ModifiedTerminal where
  terminal := t
  reference := m.reference
  baseShape := (base t m.reference).1
  baseSymmetry := (base t m.reference).2
  component := m.component.getD []
  flatComponent :=
  ((ownComponents (base t m.reference).1 (base t m.reference).2).idxOf (m.own t) : Nat)
  globalDerivatives := m.globalDerivatives.mergeSort
  localDerivatives := m.localDerivatives.mergeSort
  averaged := m.averaged
  restriction := m.restriction

lemma Fits.checkDerivatives (h : Fits m t) (hreference : layers.reference = m.reference)
    (hglobals : layers.globalDerivatives.Perm m.globalDerivatives)
    (hlocals : layers.localDerivatives.Perm m.localDerivatives) :
    layers.checkDerivatives t = .ok () := by
  unfold Layers.checkDerivatives
  cases hfree : freelyDifferentiable t with
  | true => rfl
  | false =>
    obtain ⟨hlocal, hglobal⟩ := h.derivatives hfree
    rw [hreference]
    cases hr : m.reference with
    | false =>
      have hnil : m.localDerivatives = [] := by simpa [hr] using hlocal
      rw [hnil] at hlocals
      rw [hlocals.eq_nil, Bool.and_false]
      rfl
    | true =>
      have hnil : m.globalDerivatives = [] := by simpa [hr] using hglobal
      rw [hnil] at hglobals
      rw [hglobals.eq_nil, Bool.not_true, Bool.and_false]
      rfl

/-- Reading a nesting gives the canonical form. -/
lemma Fits.of_nests (hm : Fits m t) (h : Nests m t e) : of e = .ok (m.result t) := by
  obtain ⟨final, hread, hcomponent, hperm⟩ := h.read hm.extent
  obtain ⟨hglobals, hlocals, hrestriction, haveraged, hreference⟩ := same_of_perm hperm
  obtain ⟨numbers, hnumbers, hlookup⟩ := componentNumbers_eq_ok hm.symmetry
  obtain ⟨hlength, hrange⟩ := inShape_iff.1 hm.component
  refine bind_eq_ok.2 ⟨(final, t), hread,
    bind_eq_ok.2 ⟨(), hm.checkDerivatives hreference hglobals hlocals, ?_⟩⟩
  dsimp only
  rw [hcomponent, hreference, if_neg (by simpa using hlength), hrange]
  refine bind_eq_ok.2 ⟨numbers, hnumbers, ?_⟩
  rw [hlookup _ hm.component.mem, mergeSort_eq_iff.2 hglobals, mergeSort_eq_iff.2 hlocals,
    hrestriction, haveraged]
  rfl

/-- Two terminals under modifiers have the same data, up to the order of derivatives and to
    symmetry. -/
structure Same (m : Layers) (t : Terminal) (m' : Layers) (t' : Terminal) : Prop where
  terminal : (t == t') = true
  reference : m.reference = m'.reference
  own : m.own t = m'.own t'
  globals : m.globalDerivatives.Perm m'.globalDerivatives
  locals : m.localDerivatives.Perm m'.localDerivatives
  averaged : m.averaged = m'.averaged
  restriction : m.restriction = m'.restriction

lemma result_beq_iff {t' : Terminal} (hm : Fits m t)
    (hbase : (t == t') = true → base t m.reference = base t' m.reference) :
    (m.result t == m'.result t') = true ↔ Same m t m' t' := by
  rw [beq_iff]
  simp only [Layers.result, mergeSort_eq_iff, Int.natCast_inj]
  constructor
  · rintro ⟨hterminal, hreference, hflat, hglobals, hlocals, haveraged, hrestriction⟩
    rw [← hreference, ← hbase hterminal] at hflat
    have hown := (idxOf_inj (hm.symmetry _ hm.component.mem)).1 hflat
    exact ⟨hterminal, hreference, hown, hglobals, hlocals, haveraged, hrestriction⟩
  · rintro ⟨hterminal, hreference, hown, hglobals, hlocals, haveraged, hrestriction⟩
    refine ⟨hterminal, hreference, ?_, hglobals, hlocals, haveraged, hrestriction⟩
    rw [hown, ← hreference, ← hbase hterminal]

def hashKey {H : Type} (hash : Terminal → H) (a : ModifiedTerminal) :
    H × Bool × Int × List Int × List Int × Option Average × Option Side :=
  (hash a.terminal, a.reference, a.flatComponent, a.globalDerivatives,
    a.localDerivatives, a.averaged, a.restriction)

lemma of_eq_ok {a : ModifiedTerminal} (h : of e = .ok a) :
    ∃ layers : Layers, Layers.read {} e = .ok (layers, a.terminal) ∧
      InShape (layers.component.getD []) (base a.terminal layers.reference).1 ∧
      a.localDerivatives = layers.localDerivatives.mergeSort ∧
      a.globalDerivatives = layers.globalDerivatives.mergeSort ∧
      (a.baseShape, a.baseSymmetry) = base a.terminal layers.reference ∧
        a.reference = layers.reference ∧
      a.averaged = layers.averaged ∧ a.component = layers.component.getD [] ∧
      ∃ numbers, componentNumbers (base a.terminal layers.reference).1
        (base a.terminal layers.reference).2 =
          .ok numbers ∧
        (numbers.lookup (a.component.map Int.toNat)).map Int.ofNat = some a.flatComponent := by
  obtain ⟨⟨layers, t⟩, hread, _, -, h⟩ := bind₂_eq_ok.1 h
  dsimp only at h
  obtain ⟨hlength, h⟩ := ite_throw_eq_ok h
  obtain ⟨hrange, h⟩ := ite_throw_eq_ok h
  obtain ⟨numbers, hnumbers, h⟩ := bind_eq_ok.1 h
  split at h
  · cases h
  · next hflat =>
    cases h
    exact ⟨layers, hread, inShape_iff.2 ⟨by simpa using hlength, by simpa using hrange⟩, rfl,
      rfl, rfl, rfl,
      rfl, rfl, numbers, hnumbers, by rw [hflat]; rfl⟩

lemma averaged_of_read : ∀ {e : Expr} {layers layers' : Layers},
    (∀ a ∈ layers.averaged, a = .cell ∨ a = .facet) → layers.read e = .ok (layers', t) →
      ∀ a ∈ layers'.averaged, a = .cell ∨ a = .facet
  | .terminal _, _, _, hextent, h => by
    cases h
    exact hextent
  | .operator op [] .., _, _, _, h => by
    obtain ⟨next, -, h⟩ := bind_eq_ok.1 h
    cases h
  | .operator op (e :: rest) .., layers, _, hextent, h => by
    obtain ⟨next, hnext, h⟩ := bind_eq_ok.1 h
    refine averaged_of_read ?_ h
    cases takes_of_take hnext with
    | indexed => exact hextent
    | wrapper w hw =>
      cases w with
      | averaged extent => rintro _ ⟨⟩; exact hw.2
      | _ => exact hextent

lemma exists_error {α : Type} {x : Outcome α} (h : ∀ a, x ≠ .ok a) : ∃ fault, x = .error fault := by
  cases x with
  | ok a => exact absurd rfl (h a)
  | error fault => exact ⟨fault, rfl⟩

/-- The canonical form of terminals under modifiers.  However the modifiers are nested, reading them
    gives the terminal with its component, the number of that component and the sorted derivatives,
    so the results are equal just if the data are.  Nothing is read that has a modifier twice, or a
    component out of range. -/
theorem of_canonical {m m' : Layers} {t t' : Terminal} {e e' : Expr} (hm : Fits m t)
    (hm' : Fits m' t') (he : Nests m t e) (he' : Nests m' t' e')
    (hbase : (t == t') = true → base t m.reference = base t' m.reference) :
    of e = .ok (m.result t) ∧ of e' = .ok (m'.result t') ∧
    (∃ numbers, componentNumbers (base t m.reference).1 (base t m.reference).2 = .ok numbers ∧
      (numbers.lookup ((m.component.getD []).map Int.toNat)).map Int.ofNat =
        some (m.result t).flatComponent) ∧
    ((m.result t == m'.result t') = true ↔ Same m t m' t') ∧
    (Same m t m' t' → ∀ (H : Type) (hash : Terminal → H),
      (∀ s s', (s == s') = true → hash s = hash s') →
      hashKey hash (m.result t) = hashKey hash (m'.result t')) ∧
    (∀ x, ¬ ((modifiers x).filterMap kind?).Nodup → ∃ fault, of x = .error fault) ∧
    ∀ n s x, Nests n s x → (∀ a ∈ n.averaged, a = .cell ∨ a = .facet) →
      ¬ InShape (n.component.getD []) (base s n.reference).1 → ∃ fault, of x = .error fault := by
  have hequal : _ ↔ Same m t m' t' := result_beq_iff hm hbase
  refine ⟨hm.of_nests he, hm'.of_nests he', ?_, hequal, fun hsame H hash hhash => ?_,
    fun x hx => ?_, fun n s x hx hextent hshape => ?_⟩
  · obtain ⟨numbers, hnumbers, hlookup⟩ := componentNumbers_eq_ok hm.symmetry
    exact ⟨numbers, hnumbers, by rw [hlookup _ hm.component.mem]; rfl⟩
  · obtain ⟨hterminal, hreference, hflat, hglobals, hlocals, haveraged, hrestriction⟩ :=
      beq_iff.1 (hequal.2 hsame)
    rw [hashKey, hashKey, hhash _ _ hterminal, hreference, hflat, hglobals, hlocals, haveraged,
      hrestriction]
  · refine exists_error fun a ha => hx ?_
    obtain ⟨final, hread, -⟩ := of_eq_ok ha
    exact (nodup_of_read hread).2
  · refine exists_error fun a ha => hshape ?_
    obtain ⟨final, hread, hinside, -⟩ := of_eq_ok ha
    obtain ⟨final', hread', hcomponent, hperm⟩ := hx.read hextent
    obtain ⟨rfl, hterminal⟩ := Prod.mk.inj (Except.ok.inj (hread.symm.trans hread'))
    rwa [hterminal, hcomponent, (same_of_perm hperm).2.2.2.2] at hinside

/-! ## Two nestings -/

/-- A symmetric tensor.  Its values have four components, of which two are equal, and its reference
    values have three. -/
def sampleTensor : Terminal :=
  let element :=
    { (default : Element) with shape := [3], symmetry := [([1, 0], [0, 1])] }
  .coefficient false 0 ⟨0, element, none, [2, 2]⟩ none

/-- A mixed derivative of a component, on one side of a facet. -/
def sampleLayers (i j : Int) : Layers where
  component := some [i, j]
  globalDerivatives := [0, 1]
  restriction := some .plus

/-- Gradients around a restriction, with an index outside of them. -/
def sampleNesting (indices : List Int) : Expr :=
  .node .indexed [.node .grad [.node .grad [.node .positiveRestricted [.terminal sampleTensor]]],
    .terminal (.multiIndex (indices.map .fixed))]

/-- A mixed derivative of a reference value, on the other side. -/
def referenceLayers : Layers where
  component := some [2]
  localDerivatives := [0, 1]
  restriction := some .minus
  reference := true

def referenceNesting (indices : List Int) : Expr :=
  .node .indexed [.node .referenceGrad [.node .referenceGrad [.node .negativeRestricted
    [.node .referenceValue [.terminal sampleTensor]]]],
    .terminal (.multiIndex (indices.map .fixed))]

/-- The derivatives can be taken in either order, and equal components give equal results. -/
theorem of_canonical_sample :
    of (sampleNesting [1, 0, 1, 0]) = .ok ((sampleLayers 1 0).result sampleTensor) ∧
    of (sampleNesting [0, 1, 0, 1]) = .ok ((sampleLayers 0 1).result sampleTensor) ∧
    ((sampleLayers 1 0).result sampleTensor == (sampleLayers 0 1).result sampleTensor) = true ∧
    of (referenceNesting [2, 1, 0]) = .ok (referenceLayers.result sampleTensor) ∧
    of (referenceNesting [2, 0, 1]) = .ok (referenceLayers.result sampleTensor) := by
  have hsymmetry : IsSymmetry [2, 2] [([1, 0], [0, 1])] ∧ IsSymmetry [3] [] := by
    unfold IsSymmetry
    decide
  have hfits : ∀ i j : Int, 0 ≤ i ∧ i < 2 → 0 ≤ j ∧ j < 2 → Fits (sampleLayers i j) sampleTensor :=
    fun i j hi hj => ⟨.cons hi (.cons hj .nil), fun _ => ⟨fun h => absurd rfl h, fun _ => rfl⟩,
      nofun, hsymmetry.1⟩
  have hfirst : Nests (sampleLayers 1 0) sampleTensor (sampleNesting [1, 0, 1, 0]) :=
    .indexed (.refl _) (.wrap _ (.wrap _ (.wrap _ .terminal))) rfl rfl
  have hsecond : Nests (sampleLayers 0 1) sampleTensor (sampleNesting [0, 1, 0, 1]) :=
    .indexed (.swap _ _ _) (.wrap _ (.wrap _ (.wrap _ .terminal))) rfl rfl
  have hreference : Fits referenceLayers sampleTensor :=
    ⟨.cons ⟨by decide, by decide⟩ .nil, fun _ => ⟨fun _ => rfl, fun h => absurd rfl h⟩,
      nofun, hsymmetry.2⟩
  have hthird : Nests referenceLayers sampleTensor (referenceNesting [2, 1, 0]) :=
    .indexed (.refl _) (.wrap _ (.wrap _ (.wrap _ (.wrap _ .terminal)))) rfl rfl
  have hfourth : Nests referenceLayers sampleTensor (referenceNesting [2, 0, 1]) :=
    .indexed (.swap _ _ _) (.wrap _ (.wrap _ (.wrap _ (.wrap _ .terminal)))) rfl rfl
  have hvalues := of_canonical (hfits 1 0 (by decide) (by decide))
    (hfits 0 1 (by decide) (by decide)) hfirst hsecond fun _ => rfl
  have hreferences := of_canonical hreference hreference hthird hfourth fun _ => rfl
  refine ⟨hvalues.1, hvalues.2.1, hvalues.2.2.2.1.2 ?_, hreferences.1, hreferences.2.1⟩
  exact ⟨rfl, rfl, by decide, .refl _, .refl _, rfl, rfl⟩

end FormKernel.Form.ModifiedTerminal
