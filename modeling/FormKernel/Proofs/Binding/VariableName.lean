import FormKernel.Binding.Names
import FormKernel.Factor.Graph
import FormKernel.Proofs.Table.Name

/-!
# Names of variables

The name of the variable of a terminal starts with the kind of the terminal, and a part follows for
the average, the side, the derivatives and the component, where there are any.  A part starts with a
mark of its own.  Numbers of derivatives follow each other without a mark between them, so they can
be told apart as long as each of them is a single digit.
-/

namespace FormKernel.Binding

open Factor (FactorVertex)
open Form (ModifiedTerminal Side)
open Kernel (DType Symbol)
open List

/-! ## What a name is made of -/

/-- What a terminal is that is computed in a variable. -/
inductive VariableBase where
  | coefficient (n : Int) | jacobian | coordinate
  deriving DecidableEq

def VariableBase.text : VariableBase → String
  | .coefficient n => s!"w{n}"
  | .jacobian => "J"
  | .coordinate => "x"

/-- How a terminal is modified, as far as the name of its variable tells. -/
structure VariableParts where
  averaged : Option String
  side : Option Side
  globals : List Int
  locals : Option (List Nat)
  component : Option Int
  deriving DecidableEq

def VariableParts.of (m : ModifiedTerminal) : VariableParts where
  averaged := m.averaged.map (·.name)
  side := m.restriction
  globals := m.globalDerivatives
  locals := if m.localDerivatives.isEmpty then none else m.terminal.domain?.map fun d =>
    (range d.gdim).map fun (i : Nat) => m.localDerivatives.count (i : Int)
  component := if m.component.isEmpty then none else some m.flatComponent

/-- The terminals that are computed in a variable. -/
def baseOf (l : Layout) (m : ModifiedTerminal) : Outcome VariableBase :=
  match m.terminal with
  | .coefficient .. => do return .coefficient (← entryOf l.coefficientNumbers m.terminal)
  | .quantity .jacobian .. => .ok .jacobian
  | .quantity .spatialCoordinate .. => .ok .coordinate
  | _ => misfit .noMember

def variableOf (l : Layout) (m : ModifiedTerminal) : Outcome Symbol :=
  match m.terminal with
  | .coefficient .. => coefficientVariable l m
  | .quantity .jacobian .. => jacobianVariable m
  | .quantity .spatialCoordinate .. => coordinateVariable m
  | _ => misfit .noMember

/-- An optional part of a name, which starts with a mark. -/
def markedPart (mark : String) : Option (List Char) → List Char
  | none => []
  | some body => mark.toList ++ body

namespace VariableParts

variable (p : VariableParts)

def averageText : List Char := markedPart "_a" (p.averaged.map String.toList)

def sideText : List Char := markedPart "_r" (p.side.map fun
  | .plus => ['0']
  | .minus => ['1'])

/-- The derivatives along the axes of space in a name. -/
def globalText : List Char := markedPart "_deriv_" (if p.globals.isEmpty then none else
  some (p.globals.flatMap fun d => (toString d).toList))

/-- The derivatives along the axes of the reference cell in a name. -/
def localText : List Char := markedPart "_d" (p.locals.map fun ns =>
  ns.flatMap fun n => (toString n).toList)

def componentText : List Char := markedPart "_c" (p.component.map fun c => (toString c).toList)

/-- All that follows the start of a name. -/
def text : List Char :=
  p.averageText ++ (p.sideText ++ (p.globalText ++ (p.localText ++ p.componentText)))

end VariableParts

lemma toList_joined (a b c d e f : String) : (a ++ b ++ c ++ d ++ e ++ f).toList =
    a.toList ++ (b.toList ++ (c.toList ++ (d.toList ++ (e.toList ++ f.toList)))) := by
  simp only [String.toList_append, append_assoc]

variable {m : ModifiedTerminal} {s : Symbol} {l : Layout}

/-- The name of a variable is its base with the marks of the terminal behind it. -/
lemma toList_variableName {base name : String} (h : variableName base m = .ok name) :
    name.toList = base.toList ++ (VariableParts.of m).text := by
  have haveraged : (VariableParts.of m).averageText = (averageMark m.averaged).toList := by
    rw [VariableParts.averageText, VariableParts.of]
    cases m.averaged with
    | none => rfl
    | some a => exact (String.toList_append ..).symm
  have hside : (VariableParts.of m).sideText = (restrictionMark m.restriction).toList := by
    rw [VariableParts.sideText, VariableParts.of]
    rcases m.restriction with _ | _ | _ <;> rfl
  have hglobals : (VariableParts.of m).globalText =
      (if m.globalDerivatives.isEmpty then "" else
        s!"_deriv_{String.join (m.globalDerivatives.map toString)}").toList := by
    rw [VariableParts.globalText, VariableParts.of]
    dsimp only
    split
    · rfl
    · rw [String.toList_append]
      change _ = _ ++ (String.join (m.globalDerivatives.map toString)).toList
      rw [String.toList_join, flatMap_map]
      rfl
  have hcomponent : (VariableParts.of m).componentText =
      (if m.component.isEmpty then "" else s!"_c{m.flatComponent}").toList := by
    rw [VariableParts.componentText, VariableParts.of]
    dsimp only
    split
    · rfl
    · exact (String.toList_append ..).symm
  rw [variableName] at h
  dsimp only at h
  rw [VariableParts.text, haveraged, hside, hglobals, hcomponent]
  split at h
  case' isTrue => obtain ⟨_, -, h⟩ := bind_eq_ok.1 h
  all_goals
    split at h
    · next hlocals =>
      have hnone : (VariableParts.of m).localText = [] := by
        rw [VariableParts.localText, VariableParts.of]
        dsimp only
        rw [if_pos hlocals]
        rfl
      cases h
      simp only [String.toList_append, hnone, append_assoc]
      rfl
    · next hlocals =>
      split at h
      · cases h
      · next d hd =>
        have hcounts : (VariableParts.of m).localText = ("_d" ++ String.join
            (((range d.gdim).map fun (i : Nat) => m.localDerivatives.count (i : Int)).map
              toString)).toList := by
          rw [VariableParts.localText, VariableParts.of]
          dsimp only
          rw [if_neg hlocals, hd, String.toList_append, String.toList_join, flatMap_map]
          rfl
        cases h
        rw [hcounts]
        exact toList_joined ..

/-! ## Telling parts apart -/

/-- A text that is at its end or goes on with a mark. -/
def Continues (rest : List Char) : Prop := ∀ c ∈ rest.head?, c = '_'

section Marks

variable {xs xs' rest rest' : List Char} {mark mark' : String} {body body' : Option (List Char)}

/-- A text is split where the first mark stands, if there is one. -/
lemma append_inj_of_continues (hxs : '_' ∉ xs) (hxs' : '_' ∉ xs') (hrest : Continues rest)
    (hrest' : Continues rest') (h : xs ++ rest = xs' ++ rest') : xs = xs' ∧ rest = rest' := by
  cases rest with
  | nil =>
    cases rest' with
    | nil => exact ⟨by simpa using h, rfl⟩
    | cons c rest' =>
      obtain rfl := hrest' c rfl
      rw [append_nil] at h
      exact absurd (h ▸ mem_append_right _ mem_cons_self) hxs
  | cons c rest =>
    obtain rfl := hrest c rfl
    cases rest' with
    | nil =>
      rw [append_nil] at h
      exact absurd (h ▸ mem_append_right _ mem_cons_self) hxs'
    | cons c' rest' =>
      obtain rfl := hrest' c' rfl
      obtain ⟨rfl, rfl⟩ := Table.append_mark_inj hxs hxs' h
      exact ⟨rfl, rfl⟩

lemma continues_markedPart (hmark : mark.toList.head? = some '_') (hrest : Continues rest) :
    Continues (markedPart mark body ++ rest) := by
  cases body with
  | none => exact hrest
  | some cs =>
    intro c hc
    rw [markedPart, append_assoc, head?_append, hmark] at hc
    exact (Option.some.inj hc).symm

/-- An optional part is told from what follows by its mark. -/
lemma markedPart_inj (hbody : ∀ cs ∈ body, '_' ∉ cs) (hbody' : ∀ cs ∈ body', '_' ∉ cs)
    (hrest : Continues rest) (hrest' : Continues rest') (hmark : ¬mark.toList <+: rest)
    (hmark' : ¬mark.toList <+: rest')
    (h : markedPart mark body ++ rest = markedPart mark body' ++ rest') :
    body = body' ∧ rest = rest' := by
  cases body with
  | none =>
    cases body' with
    | none => exact ⟨rfl, h⟩
    | some cs' =>
      refine absurd ⟨cs' ++ rest', ?_⟩ hmark
      rw [← append_assoc]
      exact h.symm
  | some cs =>
    cases body' with
    | none =>
      refine absurd ⟨cs ++ rest, ?_⟩ hmark'
      rwa [← append_assoc]
    | some cs' =>
      rw [markedPart, markedPart, append_assoc, append_assoc] at h
      obtain ⟨rfl, rfl⟩ := append_inj_of_continues (hbody cs rfl) (hbody' cs' rfl) hrest hrest'
        (append_cancel_left h)
      exact ⟨rfl, rfl⟩

/-- A part with another mark does not start with this one. -/
lemma not_prefix_markedPart (hmark : ¬mark.toList <+: mark'.toList)
    (hmark' : ¬mark'.toList <+: mark.toList) (hrest : ¬mark.toList <+: rest) :
    ¬mark.toList <+: markedPart mark' body ++ rest := by
  cases body with
  | none => exact hrest
  | some cs =>
    intro hprefix
    rw [markedPart, append_assoc] at hprefix
    rcases prefix_or_prefix_of_prefix hprefix (prefix_append ..) with h | h
    · exact hmark h
    · exact hmark' h

end Marks

namespace VariableParts

/-- Parts of a name that can be told apart: the average has no mark in its name, and numbers of
    derivatives are single digits. -/
structure Legible (p : VariableParts) : Prop where
  averaged : ∀ a ∈ p.averaged, '_' ∉ a.toList
  globals : ∀ d ∈ p.globals, 0 ≤ d ∧ d ≤ 9
  locals : ∀ ns ∈ p.locals, ∀ n ∈ ns, n ≤ 9

instance (p : VariableParts) : Decidable p.Legible :=
  decidable_of_iff ((∀ a ∈ p.averaged, '_' ∉ a.toList) ∧ (∀ d ∈ p.globals, 0 ≤ d ∧ d ≤ 9) ∧
    ∀ ns ∈ p.locals, ∀ n ∈ ns, n ≤ 9) ⟨fun h => ⟨h.1, h.2.1, h.2.2⟩, fun h => ⟨h.1, h.2, h.3⟩⟩

lemma digits_of_mem_flatMap {ns : List Nat} {c : Char}
    (h : c ∈ ns.flatMap fun n => (toString n).toList) : c.isDigit = true := by
  obtain ⟨n, -, hc⟩ := mem_flatMap.1 h
  rw [Nat.toString_eq_repr, Nat.toList_repr] at hc
  exact Nat.isDigit_of_mem_toDigits (by decide) (by decide) hc

lemma globals_injective {ds ds' : List Int} (hds : ∀ d ∈ ds, 0 ≤ d ∧ d ≤ 9)
    (hds' : ∀ d ∈ ds', 0 ≤ d ∧ d ≤ 9)
    (h : ds.flatMap (fun d => (toString d).toList) = ds'.flatMap fun d => (toString d).toList) :
    ds = ds' := by
  -- numbers that are not negative are written as natural numbers
  have hnat : ∀ {ds : List Int}, (∀ d ∈ ds, 0 ≤ d ∧ d ≤ 9) →
      ∃ ns : List Nat, ds = ns.map Int.ofNat ∧ ∀ n ∈ ns, n ≤ 9 := by
    intro ds hds
    refine ⟨ds.map Int.toNat, ?_, ?_⟩
    · rw [map_map]
      conv_lhs => rw [← map_id ds]
      refine map_congr_left fun d hd => ?_
      exact (Int.toNat_of_nonneg (hds d hd).1).symm
    · intro n hn
      obtain ⟨d, hd, rfl⟩ := mem_map.1 hn
      have := hds d hd
      omega
  obtain ⟨ns, rfl, hns⟩ := hnat hds
  obtain ⟨ns', rfl, hns'⟩ := hnat hds'
  rw [flatMap_map, flatMap_map] at h
  rw [Table.digits_injective hns hns' h]

section Text

variable {p q : VariableParts}

lemma continues_componentText (p : VariableParts) : Continues p.componentText := by
  rw [componentText, ← append_nil (markedPart _ _)]
  exact continues_markedPart rfl (by simp [Continues])

lemma continues_localText (p : VariableParts) : Continues (p.localText ++ p.componentText) :=
  continues_markedPart rfl p.continues_componentText

lemma continues_globalText (p : VariableParts) :
    Continues (p.globalText ++ (p.localText ++ p.componentText)) :=
  continues_markedPart rfl p.continues_localText

lemma continues_sideText (p : VariableParts) :
    Continues (p.sideText ++ (p.globalText ++ (p.localText ++ p.componentText))) :=
  continues_markedPart rfl p.continues_globalText

lemma continues_text (p : VariableParts) : Continues p.text :=
  continues_markedPart rfl p.continues_sideText

lemma not_prefix_componentText {mark : String} (hmark : ¬mark.toList <+: "_c".toList)
    (hmark' : ¬"_c".toList <+: mark.toList) (hne : mark.toList ≠ []) (p : VariableParts) :
    ¬mark.toList <+: p.componentText := by
  rw [componentText, ← append_nil (markedPart _ _)]
  exact not_prefix_markedPart hmark hmark' (by simpa using hne)

/-- What is marked as a number of derivatives along the axes of the reference cell is not taken for
    derivatives along the axes of space: digits follow. -/
lemma not_prefix_localText (p : VariableParts) :
    ¬"_deriv_".toList <+: p.localText ++ p.componentText := by
  rw [localText]
  cases p.locals with
  | none => exact not_prefix_componentText (by decide) (by decide) (by decide) p
  | some ns =>
    rintro ⟨rest, hrest⟩
    have hnext : (ns.flatMap fun n => (toString n).toList) ++ p.componentText =
        'e' :: ("riv_".toList ++ rest) := by
      simpa [markedPart] using hrest.symm
    cases hdigits : ns.flatMap fun n => (toString n).toList with
    | nil =>
      rw [hdigits, nil_append] at hnext
      have hmark := p.continues_componentText 'e' (by rw [hnext]; rfl)
      cases hmark
    | cons c cs =>
      rw [hdigits, cons_append] at hnext
      obtain ⟨rfl, -⟩ := cons.inj hnext
      have hdigit := digits_of_mem_flatMap (hdigits ▸ mem_cons_self)
      exact absurd hdigit (by decide)

lemma not_prefix_globalText {mark : String} (hne : mark.toList ≠ [])
    (hmark : ∀ other ∈ ["_deriv_", "_d", "_c"],
      ¬mark.toList <+: other.toList ∧ ¬other.toList <+: mark.toList) (p : VariableParts) :
    ¬mark.toList <+: p.globalText ++ (p.localText ++ p.componentText) := by
  simp only [forall_mem_cons] at hmark
  obtain ⟨hglobal, hlocal, hcomponent, -⟩ := hmark
  refine not_prefix_markedPart hglobal.1 hglobal.2 (not_prefix_markedPart hlocal.1 hlocal.2 ?_)
  exact not_prefix_componentText hcomponent.1 hcomponent.2 hne p

lemma mark_notMem_side (p : VariableParts) :
    ∀ cs ∈ p.side.map fun | .plus => ['0'] | .minus => ['1'], '_' ∉ cs := by
  rcases p.side with _ | _ | _ <;> simp

lemma mark_notMem_globals (p : VariableParts) :
    ∀ cs ∈ (if p.globals.isEmpty then none else
      some (p.globals.flatMap fun d => (toString d).toList)), '_' ∉ cs := by
  intro cs hcs hmem
  split at hcs
  · cases hcs
  · obtain rfl := Option.some.inj hcs
    obtain ⟨d, -, hmem⟩ := mem_flatMap.1 hmem
    exact Table.underscore_notMem_int d hmem

lemma mark_notMem_locals (p : VariableParts) :
    ∀ cs ∈ p.locals.map fun ns => ns.flatMap fun n => (toString n).toList, '_' ∉ cs := by
  intro cs hcs hmem
  obtain ⟨ns, -, rfl⟩ := Option.map_eq_some_iff.1 hcs
  exact absurd (digits_of_mem_flatMap hmem) (by decide)

lemma mark_notMem_component (p : VariableParts) :
    ∀ cs ∈ p.component.map fun c => (toString c).toList, '_' ∉ cs := by
  intro cs hcs hmem
  obtain ⟨c, -, rfl⟩ := Option.map_eq_some_iff.1 hcs
  exact Table.underscore_notMem_int c hmem

/-- The parts can be read off the text one by one, from the left: each starts with a mark that no
    part before it contains. -/
lemma text_injective (hp : p.Legible) (hq : q.Legible) (h : p.text = q.text) : p = q := by
  obtain ⟨haveraged, h⟩ := markedPart_inj (by simpa using hp.averaged) (by simpa using hq.averaged)
    p.continues_sideText q.continues_sideText
    (not_prefix_markedPart (by decide) (by decide)
      (p.not_prefix_globalText (by decide) (by decide)))
    (not_prefix_markedPart (by decide) (by decide)
      (q.not_prefix_globalText (by decide) (by decide))) h
  obtain ⟨hside, h⟩ := markedPart_inj p.mark_notMem_side q.mark_notMem_side p.continues_globalText
    q.continues_globalText (p.not_prefix_globalText (by decide) (by decide))
    (q.not_prefix_globalText (by decide) (by decide)) h
  obtain ⟨hglobals, h⟩ := markedPart_inj p.mark_notMem_globals q.mark_notMem_globals
    p.continues_localText q.continues_localText p.not_prefix_localText q.not_prefix_localText h
  obtain ⟨hlocals, h⟩ := markedPart_inj p.mark_notMem_locals q.mark_notMem_locals
    p.continues_componentText q.continues_componentText
    (p.not_prefix_componentText (by decide) (by decide) (by decide))
    (q.not_prefix_componentText (by decide) (by decide) (by decide)) h
  rw [componentText, componentText, ← append_nil (markedPart _ _),
    ← append_nil (markedPart _ (q.component.map _))] at h
  obtain ⟨hcomponent, -⟩ := markedPart_inj p.mark_notMem_component q.mark_notMem_component
    (by simp [Continues]) (by simp [Continues]) (by decide) (by decide) h
  -- equal texts of a part come from equal parts
  have haveragedEq : p.averaged = q.averaged :=
    Option.map_injective (fun _ _ h => String.toList_injective h) haveraged
  have hsideEq : p.side = q.side := by
    rcases hps : p.side with _ | _ | _ <;> rcases hqs : q.side with _ | _ | _ <;>
      simp [hps, hqs] at hside ⊢
  have hglobalsEq : p.globals = q.globals := by
    split at hglobals
    · next hnil =>
      split at hglobals
      · next hnil' => rw [isEmpty_iff.1 hnil, isEmpty_iff.1 hnil']
      · cases hglobals
    · split at hglobals
      · cases hglobals
      · exact globals_injective hp.globals hq.globals (Option.some.inj hglobals)
  have hlocalsEq : p.locals = q.locals := by
    cases hpl : p.locals with
    | none =>
      cases hql : q.locals with
      | none => rfl
      | some ns' => simp [hpl, hql] at hlocals
    | some ns =>
      cases hql : q.locals with
      | none => simp [hpl, hql] at hlocals
      | some ns' =>
        rw [hpl, hql] at hlocals
        rw [Table.digits_injective (hp.locals ns hpl) (hq.locals ns' hql) (Option.some.inj hlocals)]
  have hcomponentEq : p.component = q.component := by
    refine Option.map_injective (fun c c' h => ?_) hcomponent
    refine Int.repr_inj.1 (String.toList_inj.1 ?_)
    simpa only [Int.toString_eq_repr] using h
  cases p
  cases q
  simp_all

end Text

end VariableParts

/-! ## Variables of terminals -/

/-- The start of a name holds no mark and tells what the terminal is. -/
lemma VariableBase.text_injective {b b' : VariableBase}
    (h : b.text.toList = b'.text.toList) : b = b' := by
  have hcoefficient : ∀ n : Int, (VariableBase.coefficient n).text.toList =
      'w' :: (toString n).toList := fun n => String.toList_append ..
  cases b with
  | coefficient n =>
    cases b' with
    | coefficient n' =>
      rw [hcoefficient, hcoefficient] at h
      have hdigits := String.toList_inj.1 (cons.inj h).2
      rw [Int.toString_eq_repr, Int.toString_eq_repr] at hdigits
      rw [Int.repr_inj.1 hdigits]
    | jacobian | coordinate =>
      rw [hcoefficient] at h
      exact absurd (cons.inj h).1 (by decide)
  | jacobian | coordinate =>
    cases b' with
    | coefficient n' =>
      rw [hcoefficient] at h
      exact absurd (cons.inj h).1 (by decide)
    | jacobian | coordinate => first | rfl | exact absurd h (by decide)

lemma VariableBase.mark_notMem (b : VariableBase) : '_' ∉ b.text.toList := by
  cases b with
  | coefficient n =>
    rw [text, String.toList_append, mem_append, not_or]
    exact ⟨by decide, Table.underscore_notMem_int n⟩
  | jacobian | coordinate => decide

lemma name_symbolOf {name : String} {t : Option DType}
    (h : Symbol.of name t = .ok s) : s.name = name := by
  obtain ⟨_, -, h⟩ := bind_eq_ok.1 h
  rw [← pure_eq_ok.1 h]

lemma toList_variableOf (h : variableOf l m = .ok s) :
    ∃ b, baseOf l m = .ok b ∧ s.name.toList = b.text.toList ++ (VariableParts.of m).text := by
  rw [variableOf] at h
  rw [baseOf]
  split at h
  · next hterminal =>
    obtain ⟨n, hn, name, hname, h⟩ := bind₂_eq_ok.1 h
    rw [name_symbolOf h, hn]
    exact ⟨.coefficient n, rfl, toList_variableName hname⟩
  · obtain ⟨name, hname, h⟩ := bind_eq_ok.1 h
    rw [name_symbolOf h]
    exact ⟨.jacobian, rfl, toList_variableName hname⟩
  · obtain ⟨name, hname, h⟩ := bind_eq_ok.1 h
    rw [name_symbolOf h]
    exact ⟨.coordinate, rfl, toList_variableName hname⟩
  · cases h

/-- Variables of one name belong to terminals of one kind and number that are modified in the same
    way. -/
lemma variableOf_injective {m' : ModifiedTerminal} {s' : Symbol} (hm : (VariableParts.of m).Legible)
    (hm' : (VariableParts.of m').Legible) (hs : variableOf l m = .ok s)
    (hs' : variableOf l m' = .ok s') (h : s.name = s'.name) :
    (∃ b, baseOf l m = .ok b ∧ baseOf l m' = .ok b) ∧ VariableParts.of m = VariableParts.of m' := by
  obtain ⟨b, hb, htext⟩ := toList_variableOf hs
  obtain ⟨b', hb', htext'⟩ := toList_variableOf hs'
  rw [h, htext'] at htext
  obtain ⟨hbase, hparts⟩ := append_inj_of_continues b'.mark_notMem b.mark_notMem
    (VariableParts.continues_text _) (VariableParts.continues_text _) htext
  obtain rfl := VariableBase.text_injective hbase
  exact ⟨⟨b', hb, hb'⟩, (VariableParts.text_injective hm' hm hparts).symm⟩

/-! ## Variables of factors -/

/-- The name of the variable that a factor is computed in. -/
def computedIn (l : Layout) (v : FactorVertex) : Option String := do
  return (← (variableOf l (← v.terminal)).toOption).name

/-- What the name of the variable of a factor tells. -/
def identity (l : Layout) (v : FactorVertex) : Option (VariableBase × VariableParts) := do
  let m ← v.terminal
  return (← (baseOf l m).toOption, .of m)

section Factors

variable {v : FactorVertex} {x : String}

lemma computedIn_eq_some {s : Symbol} (hm : v.terminal = some m) (hs : variableOf l m = .ok s) :
    computedIn l v = some s.name := by
  rw [computedIn, hm]
  simp [hs, Except.toOption]

lemma exists_of_computedIn (h : computedIn l v = some x) :
    ∃ m s, v.terminal = some m ∧ variableOf l m = .ok s ∧ s.name = x := by
  obtain ⟨m, hm, h⟩ := Option.bind_eq_some_iff.1 h
  obtain ⟨s, hs, h⟩ := Option.bind_eq_some_iff.1 h
  refine ⟨m, s, hm, ?_, by simpa using h⟩
  cases hvariable : variableOf l m with
  | error e =>
    rw [hvariable] at hs
    cases hs
  | ok t =>
    rw [hvariable] at hs
    rw [Option.some.inj hs]

lemma identity_eq_some {b : VariableBase} (hm : v.terminal = some m) (hb : baseOf l m = .ok b) :
    identity l v = some (b, .of m) := by
  rw [identity, hm]
  simp [hb, Except.toOption]

end Factors

/-- Factors with variables of which the names can be read, and that are equal if the names tell no
    difference. -/
def TerminalsDiffer (l : Layout) (vertices : List FactorVertex) : Prop :=
  ∀ v ∈ vertices, ∀ x ∈ identity l v, x.2.Legible ∧
    ∀ w ∈ vertices, identity l w = some x → (v.expr == w.expr) = true

instance (l : Layout) (vertices : List FactorVertex) : Decidable (TerminalsDiffer l vertices) :=
  inferInstanceAs (Decidable (∀ v ∈ vertices, ∀ x ∈ identity l v, x.2.Legible ∧
    ∀ w ∈ vertices, identity l w = some x → (v.expr == w.expr) = true))

/-- Variables of one name hold the same expression. -/
lemma TerminalsDiffer.expr_eq {vertices : List FactorVertex} {x : String}
    (h : TerminalsDiffer l vertices)
    {v w : FactorVertex} (hv : v ∈ vertices) (hw : w ∈ vertices) (hvx : computedIn l v = some x)
    (hwx : computedIn l w = some x) : (v.expr == w.expr) = true := by
  obtain ⟨m, s, hm, hs, rfl⟩ := exists_of_computedIn hvx
  obtain ⟨n, t, hn, ht, hname⟩ := exists_of_computedIn hwx
  obtain ⟨b, hb, -⟩ := toList_variableOf hs
  obtain ⟨c, hc, -⟩ := toList_variableOf ht
  have hvid := identity_eq_some hm hb
  have hwid := identity_eq_some hn hc
  obtain ⟨⟨d, hbd, hcd⟩, hparts⟩ := variableOf_injective (h v hv _ hvid).1 (h w hw _ hwid).1 hs ht
    hname.symm
  obtain rfl := Except.ok.inj (hb.symm.trans hbd)
  obtain rfl := Except.ok.inj (hc.symm.trans hcd)
  exact (h v hv _ hvid).2 w hw (by rw [hwid, hparts])

lemma TerminalsDiffer.refl {vertices : List FactorVertex} (h : TerminalsDiffer l vertices) :
    ∀ v ∈ vertices, (computedIn l v).isSome → (v.expr == v.expr) = true := by
  intro v hv hsome
  obtain ⟨x, hx⟩ := Option.isSome_iff_exists.1 hsome
  exact h.expr_eq hv hv hx hx

lemma TerminalsDiffer.subset {vs ws : List FactorVertex} (h : TerminalsDiffer l ws)
    (hsub : vs ⊆ ws) : TerminalsDiffer l vs :=
  fun v hv x hx => ⟨(h v (hsub hv) x hx).1, fun w hw => (h v (hsub hv) x hx).2 w (hsub hw)⟩

end FormKernel.Binding
