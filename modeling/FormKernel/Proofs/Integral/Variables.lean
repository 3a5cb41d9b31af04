import FormKernel.Integral.Partition
import FormKernel.Proofs.Binding.VariableName
import FormKernel.Proofs.Form.Equality
import FormKernel.Proofs.Kernel.Scopes

/-!
# Variables of a kernel

A terminal that is no item of an argument or a table is computed in a variable.  A factor is
computed only if no equal one has been computed before, so each variable is declared for one
expression.
-/

namespace FormKernel.Binding

open Form (ModifiedTerminal)
open Kernel (Expr MultiIndex Operand Stmt Symbol)
open Quadrature (Rule)
open Table (TableRef)

/-! ## Definitions -/

variable {s : Stmt} {value : Operand} {declared : List String} {l : Layout} {m : ModifiedTerminal}
  {rule : Option Rule} {table : Option TableRef}

/-- A section that sums into a variable declares it and nothing else. -/
lemma declares_sumSection {name : String} {dof table : Expr} {index : MultiIndex}
    {input : List Symbol} (h : sumSection name value dof table index input = .ok s) :
    ∃ v, value = .expr (.symbol v) ∧ s.declares = [v.name] ∧ s.Shallow := by
  obtain ⟨v, hv, declaration, hdeclaration, term, -, e, -, o, hloops, h⟩ := bind₅_eq_ok.1 h
  obtain ⟨ranges, -, hloops⟩ := bind_eq_ok.1 hloops
  obtain ⟨hdeclares, hinner, hannotations, -⟩ := Kernel.scopes_ofPart h
  obtain ⟨hname, -⟩ := Kernel.declares_ofVariable hdeclaration
  obtain ⟨hnone, hsilent⟩ := Kernel.scopes_wrapLoops hloops
  have hvalue : value = .expr (.symbol v) := by
    cases value with
    | expr e =>
      cases e with
      | symbol s => rw [Except.ok.inj hv]
      | _ => cases hv
    | _ => cases hv
  refine ⟨v, hvalue, ?_, ?_, by rw [hannotations]; rfl⟩
  · simp [hdeclares, Operand.declaresAll, Operand.declares, hname]
  · -- the loops hold one assignment
    have hbody : o.declares = [] := by simpa [Operand.declares, Operand.declaresAll] using hnone
    have hscopes : ∀ scope ∈ o.inner, scope = [] := by
      simpa [Operand.declares, Operand.declaresAll, Operand.inner, Operand.innerAll] using hsilent
    rw [hinner, List.forall_mem_cons]
    simpa [Operand.declaresAll, Operand.innerAll, hbody] using hscopes

lemma declares_coefficientDefinition (hvalue : coefficientAccess l m table = .ok value)
    (h : coefficientDefinition l declared m table rule value = .ok (some s)) :
    ∃ v, coefficientVariable l m = .ok v ∧ s.declares = [v.name] ∧ s.Shallow := by
  obtain ⟨point, -, h⟩ := bind_eq_ok.1 h
  cases table with
  | none => cases h
  | some t =>
    obtain ⟨dof, -, dofs, hdofs, h⟩ := bind₂_eq_ok.1 h
    dsimp only at h
    split at h
    · cases pure_eq_ok.1 h
    · split at h
      · cases pure_eq_ok.1 h
      · next hspan =>
        obtain ⟨_, -, ⟨e, tables⟩, -, _, -, _, -, _, -, h⟩ := bind₅_eq_ok.1 h
        obtain ⟨s', hs, h⟩ := bind_eq_ok.1 h
        obtain rfl := Option.some.inj (pure_eq_ok.1 h)
        obtain ⟨v, rfl, hdeclares, hshallow⟩ := declares_sumSection hs
        obtain ⟨_, -, _, hdofs', hvalue⟩ := bind₂_eq_ok.1 hvalue
        obtain rfl := Except.ok.inj (hdofs.symm.trans hdofs')
        rw [if_neg hspan] at hvalue
        obtain ⟨w, hw, hvalue⟩ := bind_eq_ok.1 hvalue
        obtain rfl : w = v := by simpa using pure_eq_ok.1 hvalue
        exact ⟨w, hw, hdeclares, hshallow⟩

lemma declares_coordinateDefinition {v : Symbol}
    (h : coordinateDefinition l declared m table rule (.expr (.symbol v)) = .ok (some s)) :
    s.declares = [v.name] ∧ s.Shallow := by
  obtain ⟨d, -, h⟩ := bind_eq_ok.1 h
  dsimp only at h
  split at h
  · cases h
  · cases h
  · obtain ⟨_, -, _, -, _, -, _, -, _, -, h⟩ := bind₅_eq_ok.1 h
    obtain ⟨_, -, ⟨e, tables⟩, -, _, -, _, -, _, -, h⟩ := bind₅_eq_ok.1 h
    obtain ⟨_, -, s', hs, h⟩ := bind₂_eq_ok.1 h
    obtain rfl := Option.some.inj (pure_eq_ok.1 h)
    obtain ⟨w, hw, hdeclares, hshallow⟩ := declares_sumSection hs
    obtain rfl : v = w := by simpa using hw
    exact ⟨hdeclares, hshallow⟩

/-- A definition declares the variable of its terminal and nothing else. -/
lemma declares_definition (hvalue : access l m table rule = .ok value)
    (h : definition l declared m table rule value = .ok (some s)) :
    ∃ v, variableOf l m = .ok v ∧ s.declares = [v.name] ∧ s.Shallow := by
  rw [access] at hvalue
  rw [definition] at h
  rw [variableOf]
  cases hterminal : m.terminal with
  | coefficient =>
    rw [hterminal] at h hvalue
    exact declares_coefficientDefinition hvalue h
  | constant =>
    rw [hterminal] at h
    cases Except.ok.inj h
  | quantity q d shape =>
    rw [hterminal] at h hvalue
    cases q with
    | jacobian =>
      dsimp only at hvalue h ⊢
      split at hvalue
      · cases hvalue
      · obtain ⟨v, hv, hvalue⟩ := bind_eq_ok.1 hvalue
        cases hvalue
        exact ⟨v, hv, declares_coordinateDefinition h⟩
    | spatialCoordinate =>
      dsimp only at hvalue h ⊢
      split at h
      · cases Except.ok.inj h
      · next hkind =>
        rw [coordinateAccess] at hvalue
        obtain ⟨-, hvalue⟩ := ite_throw_eq_ok hvalue
        obtain ⟨-, hvalue⟩ := ite_throw_eq_ok hvalue
        rw [if_neg hkind] at hvalue
        obtain ⟨v, hv, hvalue⟩ := bind_eq_ok.1 hvalue
        cases hvalue
        exact ⟨v, hv, declares_coordinateDefinition h⟩
    | _ => first | cases Except.ok.inj h | cases h
  | _ =>
    rw [hterminal] at h
    cases h

end FormKernel.Binding

namespace FormKernel.Integral

open Binding (Layout computedIn)
open Factor (FactorVertex Status)
open Form (Expr)
open Kernel (Operand Stmt numbered)
open Quadrature (Rule)
open List

/-! ## New variables -/

/-- The entries that are made inside of the loops over points, or before them. -/
def Variables.entries (v : Variables) (perPoint : Bool) : List (Expr × Operand) :=
  if perPoint then v.own else v.common

lemma Variables.entries_put (v : Variables) (perPoint : Bool) (e : Expr) (o : Operand) :
    (v.put perPoint e o).entries perPoint = assign e o (v.entries perPoint) ∧
      (v.put perPoint e o).entries (!perPoint) = v.entries (!perPoint) := by
  cases perPoint <;> exact ⟨rfl, rfl⟩

/-- An expression that is not found has no entry. -/
lemma Variables.lookup_eq_none {v : Variables} {e : Expr} (h : v.find? e = .ok none)
    (perPoint : Bool) : (v.entries perPoint).lookup e = none := by
  rw [find?.eq_def] at h
  split at h
  · obtain ⟨_, -, h⟩ := bind_eq_ok.1 h
    cases pure_eq_ok.1 h
  · obtain ⟨_, -, h⟩ := bind_eq_ok.1 h
    cases pure_eq_ok.1 h
  · have hnone := Option.or_eq_none_iff.1 (Except.ok.inj h)
    cases perPoint
    · exact hnone.2
    · exact hnone.1

/-- The factors that are given a variable between two states of the entries, with its name: none has
    an entry before, all have one after, and no two are equal. -/
structure Fresh (l : Layout) (start stop : List (Expr × Operand))
    (fresh : List (FactorVertex × String)) : Prop where
  named : ∀ p ∈ fresh, computedIn l p.1 = some p.2
  unknown : ∀ p ∈ fresh, start.lookup p.1.expr = none
  known : ∀ p ∈ fresh, (stop.lookup p.1.expr).isSome
  distinct : fresh.Pairwise fun p q => (p.1.expr == q.1.expr) = false
  grows : ∀ e, (start.lookup e).isSome → (stop.lookup e).isSome

namespace Fresh

variable {l : Layout} {start middle stop : List (Expr × Operand)}
  {fresh fresh' : List (FactorVertex × String)}

lemma refl (l : Layout) (start : List (Expr × Operand)) : Fresh l start start [] :=
  ⟨by simp, by simp, by simp, .nil, fun _ h => h⟩

lemma assign (l : Layout) (start : List (Expr × Operand)) (e : Expr) (o : Operand) :
    Fresh l start (FormKernel.assign e o start) [] :=
  ⟨by simp, by simp, by simp, .nil, fun k hk => by rw [isSome_lookup_assign, hk, Bool.or_true]⟩

lemma single {v : FactorVertex} {x : String} (hx : computedIn l v = some x)
    (hrefl : (v.expr == v.expr) = true) (hnone : start.lookup v.expr = none) (o : Operand) :
    Fresh l start (FormKernel.assign v.expr o start) [(v, x)] where
  named := by simpa using hx
  unknown := by simpa using hnone
  known := by simp [isSome_lookup_assign, hrefl]
  distinct := pairwise_singleton _ _
  grows := (assign l start v.expr o).grows

lemma trans (h : Fresh l start middle fresh) (h' : Fresh l middle stop fresh') :
    Fresh l start stop (fresh ++ fresh') where
  named := forall_mem_append.2 ⟨h.named, h'.named⟩
  unknown := by
    refine forall_mem_append.2 ⟨h.unknown, fun p hp => ?_⟩
    have hnone := h'.unknown p hp
    cases hstart : start.lookup p.1.expr with
    | none => rfl
    | some o =>
      have hsome := h.grows p.1.expr (by rw [hstart]; rfl)
      rw [hnone] at hsome
      cases hsome
  known := forall_mem_append.2 ⟨fun p hp => h'.grows _ (h.known p hp), h'.known⟩
  distinct := by
    refine pairwise_append.2 ⟨h.distinct, h'.distinct, fun p hp q hq => ?_⟩
    -- an equal expression would have had its entry
    cases heq : p.1.expr == q.1.expr with
    | false => rfl
    | true =>
      have hknown := h.known p hp
      rw [lookup_congr heq, h'.unknown q hq] at hknown
      cases hknown
  grows := fun e he => h'.grows e (h.grows e he)

end Fresh

/-! ## Factors of one status -/

/-- What code for factors declares, where `fresh` are the factors that it computes in variables. -/
structure Partition.Declares (l : Layout) (name : String) (perPoint : Bool) (start : Variables)
    (fresh : List (FactorVertex × String)) (p : Partition) : Prop where
  new : Fresh l (start.entries perPoint) (p.values.entries perPoint) fresh
  kept : p.values.entries (!perPoint) = start.entries (!perPoint)
  shallow : ∀ d ∈ p.definitions, d.Shallow
  definitions : (Stmt.declaresAll p.definitions).Perm (fresh.map (·.2))
  intermediates : Stmt.declaresAll p.intermediates =
    (range p.intermediates.length).map (numbered (name ++ "_"))
  silent : Stmt.innerAll p.intermediates = []

variable {declared : List String} {l : Layout} {name : String} {p : Partition} {rule : Option Rule}

/-- A factor of the graph adds at most one variable, that of a terminal or the next
    intermediate. -/
lemma Partition.Declares.addFactor {start : Variables} {fresh : List (FactorVertex × String)}
    {p' : Partition} {v : FactorVertex} (hp : p.Declares l name rule.isSome start fresh)
    (hrefl : (computedIn l v).isSome → (v.expr == v.expr) = true)
    (h : addFactor l declared name rule p v = .ok p') :
    ∃ fresh', (∀ q ∈ fresh', q ∈ fresh ∨ q.1 = v) ∧
      p'.Declares l name rule.isSome start fresh' := by
  obtain ⟨found, hfound, h⟩ := bind_eq_ok.1 h
  dsimp only at h
  split at h
  · cases h
    exact ⟨fresh, fun q hq => .inl hq, hp⟩
  · next hnone =>
    obtain rfl : found = none := by simpa using hnone
    have hunknown := Variables.lookup_eq_none hfound rule.isSome
    split at h
    · next m hm =>
      obtain ⟨value, hvalue, definition, hdefinition, known, -, h⟩ := bind₃_eq_ok.1 h
      cases h
      obtain ⟨hput, hother⟩ := Variables.entries_put p.values rule.isSome v.expr value
      have hsame : Fresh l (start.entries rule.isSome)
          ((p.values.put rule.isSome v.expr value).entries rule.isSome) fresh := by
        simpa [hput] using hp.new.trans (.assign l _ v.expr value)
      cases known with
      -- its section is in the code already
      | true =>
        exact ⟨fresh, fun q hq => .inl hq, hsame, hother.trans hp.kept, hp.shallow, hp.definitions,
          hp.intermediates, hp.silent⟩
      | false =>
        cases definition with
        | none =>
          refine ⟨fresh, fun q hq => .inl hq, hsame, hother.trans hp.kept, ?_, ?_, hp.intermediates,
            hp.silent⟩
          · exact forall_mem_append.2 ⟨hp.shallow, by simpa using Kernel.shallow_empty⟩
          · simpa [Kernel.declaresAll_append, Stmt.declaresAll, Stmt.declares] using hp.definitions
        | some d =>
          obtain ⟨x, hx, hdeclares, hshallow⟩ := Binding.declares_definition hvalue hdefinition
          have hnamed := Binding.computedIn_eq_some hm hx
          refine ⟨fresh ++ [(v, x.name)], fun q hq => ?_, ?_, hother.trans hp.kept, ?_, ?_,
            hp.intermediates, hp.silent⟩
          · rcases mem_append.1 hq with hq | hq
            · exact .inl hq
            · exact .inr (by rw [mem_singleton.1 hq])
          · rw [hput]
            exact hp.new.trans (.single hnamed (hrefl (by rw [hnamed]; rfl)) hunknown value)
          · exact forall_mem_append.2 ⟨hp.shallow, by simpa using hshallow⟩
          · rw [map_append]
            simpa [Kernel.declaresAll_append, Stmt.declaresAll, hdeclares] using
              hp.definitions.append_right [x.name]
    -- an operator is computed in the next intermediate
    · next hterminal =>
      obtain ⟨operands, -, dtype, -, value, -, symbol, hsymbol, s, hs, h⟩ := bind₅_eq_ok.1 h
      cases h
      obtain ⟨hput, hother⟩ := Variables.entries_put p.values rule.isSome v.expr
        (.expr (.symbol symbol))
      obtain ⟨hdeclares, hinner⟩ := Kernel.declares_ofVariable hs
      have hname : symbol.name = numbered (name ++ "_") p.intermediates.length := by
        obtain ⟨_, -, hsymbol⟩ := bind_eq_ok.1 hsymbol
        rw [← pure_eq_ok.1 hsymbol]
        rfl
      refine ⟨fresh, fun q hq => .inl hq, ?_, hother.trans hp.kept, hp.shallow,
        hp.definitions, ?_, ?_⟩
      · simpa [hput] using hp.new.trans (.assign l _ v.expr _)
      · rw [Kernel.declaresAll_append, hp.intermediates, length_append, length_singleton,
          range_succ, map_append]
        simp [Stmt.declaresAll, hdeclares, hname]
      · simp [Stmt.innerAll, hp.silent, hinner]

/-- What the factors of one status declare: the variables of factors that have not been computed
    before, and numbered intermediates. -/
lemma partition_declares {status : Status} {g : Graph Nat FactorVertex} {values : Variables}
    (hrefl : ∀ v ∈ g.nodes.map (·.2), (computedIn l v).isSome → (v.expr == v.expr) = true)
    (h : partition l declared name status rule g values = .ok p) :
    ∃ fresh, (∀ q ∈ fresh, q.1 ∈ g.nodes.map (·.2)) ∧
      p.Declares l name rule.isSome values fresh := by
  obtain ⟨done, hdone, definitions, hdefinitions, h⟩ := bind₂_eq_ok.1 h
  cases h
  obtain ⟨fresh, hfresh, hdeclares⟩ : ∃ fresh, (∀ q ∈ fresh, q.1 ∈ g.nodes.map (·.2)) ∧
      done.Declares l name rule.isSome values fresh := by
    refine foldlM_induction (fun p : Partition => ∃ fresh, (∀ q ∈ fresh, q.1 ∈ g.nodes.map (·.2)) ∧
      p.Declares l name rule.isSome values fresh) ?_ ?_ hdone
    · exact ⟨[], by simp, .refl l _, rfl, by simp, .refl _, rfl, rfl⟩
    · rintro p v p' hv ⟨fresh, hfresh, hp⟩ hstep
      have hv := mem_of_mem_filter hv
      obtain ⟨fresh', hmem, hp'⟩ := hp.addFactor (hrefl v hv) hstep
      refine ⟨fresh', fun q hq => ?_, hp'⟩
      rcases hmem q hq with hq | hq
      · exact hfresh q hq
      · exact hq ▸ hv
  -- joining definitions keeps what they declare
  rw [← append_nil done.definitions] at hdefinitions
  obtain ⟨joined, rest, rfl, hshallow, hnames, hrest⟩ :=
    Kernel.shallow_optimize hdeclares.shallow (by simp) hdefinitions
  rw [mapM_nil] at hrest
  cases hrest
  rw [append_nil]
  exact ⟨fresh, hfresh, hdeclares.new, hdeclares.kept, hshallow,
    hnames.trans hdeclares.definitions, hdeclares.intermediates, hdeclares.silent⟩

end FormKernel.Integral
