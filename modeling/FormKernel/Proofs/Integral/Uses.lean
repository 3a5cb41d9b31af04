import FormKernel.Integral.Kernel
import FormKernel.Integral.PointKernel
import FormKernel.Proofs.Binding.Uses
import FormKernel.Proofs.Integral.Names
import FormKernel.Proofs.Kernel.OptimizedUses

/-!
# Names that kernels use

The code of a kernel uses arguments of the kernel, loop indices, weights, tables of basis functions,
variables and temporaries, and the tables of the reference cell that its factors are read from.
-/

namespace FormKernel.Integral

open Binding Kernel List
open Factor (FactorVertex Status)
open Form (Cell)
open Quadrature (Rule)
open Table (TableRef)

variable {P : String → Nat → Prop}

/-! ## Local names -/

/-- Whether a name is that of the element tensor, of a loop index, of a factor times a weight or of
    a temporary array. -/
def isLocal (name : String) : Bool :=
  match name.toList with
  | ['A'] => true
  | 'i' :: 'n' :: _ => false
  | 'i' :: _ | 'j' :: _ | 'k' :: _ | 'l' :: _ | 'f' :: _ | 't' :: 'e' :: 'm' :: _ => true
  | _ => false

lemma isLocal_temporary (c : Nat) : isLocal (temporary c).name = true := by
  have hname : (temporary c).name.toList = ['t', 'e', 'm', 'p', '_'] ++ (toString c).toList :=
    String.toList_append ..
  rw [isLocal, hname]
  rfl

/-! ## Tables of the reference cell -/

/-- Whether a name starts with that of a cell, as the tables of a reference cell do. -/
def isCellTable (name : String) : Bool :=
  Cell.all.any fun c => (c.name ++ "_").toList.isPrefixOf name.toList

variable {x : String} {declared : List String} {task : KernelTask}

lemma exists_of_isCellTable (h : isCellTable x = true) :
    ∃ (c : Cell) (rest : List Char), x.toList = c.name.toList ++ '_' :: rest := by
  obtain ⟨c, -, hc⟩ := any_eq_true.1 h
  obtain ⟨rest, hrest⟩ := isPrefixOf_iff_prefix.1 hc
  exact ⟨c, rest, by rw [← hrest, String.toList_append]; simp⟩

lemma isCellTable_of_family (h : Family.of x ≠ .geometry) : isCellTable x = false := by
  rw [Bool.eq_false_iff]
  intro hx
  obtain ⟨c, rest, hrest⟩ := exists_of_isCellTable hx
  refine h ?_
  rw [Family.of, hrest]
  cases c <;> rfl

lemma isCellTable_of_isLocal (h : isLocal x = true) : isCellTable x = false := by
  rw [Bool.eq_false_iff]
  intro hx
  obtain ⟨c, rest, hrest⟩ := exists_of_isCellTable hx
  rw [isLocal, hrest] at h
  revert h
  cases c <;> exact Bool.false_ne_true

/-- A property holds of all names but those of tables of a reference cell, and of the tables that
    factors are read from; and what is declared are tables of basis functions. -/
structure CellTablesFit (P : String → Nat → Prop) (declared : List String)
    (vertices : List FactorVertex) : Prop where
  tables : ∀ x ∈ declared, Family.of x = .table
  others : ∀ x n, isCellTable x = false → P x n
  cells : ∀ v ∈ vertices, ∀ m, v.terminal = some m → ∀ q d shape,
    m.terminal = .quantity q (some d) shape → ∀ x n, cellTableOf q = some (x, n) →
      P (d.cell.name ++ "_" ++ x) n

/-- A number does not start with a letter. -/
lemma isLocal_index (k : Nat) : isLocal s!"i{k}" = true := by
  have hname : s!"i{k}".toList = 'i' :: (toString k).toList := String.toList_append ..
  rw [isLocal, hname]
  cases hdigits : (toString k).toList with
  | nil => rfl
  | cons c cs =>
    have hdigit : c.isDigit = true := by
      refine Nat.isDigit_of_mem_toDigits (b := 10) (n := k) (by decide) (by decide) ?_
      rw [← Nat.toList_repr, ← Nat.toString_eq_repr, hdigits]
      exact mem_cons_self
    split
    · next heq => simp at heq
    · next heq =>
      obtain ⟨rfl, -⟩ : c = 'n' ∧ _ := by simpa using heq
      exact absurd hdigit (by decide)
    all_goals simp_all

namespace CellTablesFit

variable {vertices : List FactorVertex}

lemma subset {vertices' : List FactorVertex} (h : CellTablesFit P declared vertices)
    (hsub : vertices' ⊆ vertices) : CellTablesFit P declared vertices' :=
  ⟨h.tables, h.others, fun v hv => h.cells v (hsub hv)⟩

lemma family (h : CellTablesFit P declared vertices) (hx : Family.of x ≠ .geometry)
    (n : Nat) : P x n :=
  h.others x n (isCellTable_of_family hx)

lemma isLocal (h : CellTablesFit P declared vertices) (hx : isLocal x = true) (n : Nat) : P x n :=
  h.others x n (isCellTable_of_isLocal hx)

lemma temporary (h : CellTablesFit P declared vertices) (c n : Nat) : P (temporary c).name n :=
  h.isLocal (isLocal_temporary c) n

lemma names (h : CellTablesFit P declared vertices) : NamesFit P declared where
  coordinates := h.others _ _ rfl
  entity := h.others _ _ rfl
  coefficients := h.others _ _ rfl
  constants := h.others _ _ rfl
  permutation := h.others _ _ rfl
  point := ⟨h.isLocal rfl 0, fun k => h.isLocal (by
    rw [Integral.isLocal, show s!"{pointIndex.name}{k}".toList =
      'i' :: 'q' :: (toString k).toList from String.toList_append ..]
    rfl) 0⟩
  dof := ⟨h.isLocal rfl 0, fun k => h.isLocal (by
    rw [Integral.isLocal, show s!"{dofSumIndex.name}{k}".toList =
      'i' :: 'c' :: (toString k).toList from String.toList_append ..]
    rfl) 0⟩
  tables := fun x hx n => h.family (by rw [h.tables x hx]; decide) n

lemma argumentIndex (h : CellTablesFit P declared vertices) {k : Int} {s : Symbol}
    (hs : Binding.argumentIndex k = .ok s) : IndexFits P s.name := by
  rw [Binding.argumentIndex] at hs
  generalize (if k < 0 then k + 4 else k) = place at hs
  split at hs
  · cases hs
  · split at hs
    · next name hname =>
      cases hs
      have hmem := mem_of_getElem? hname
      simp only [mem_cons, not_mem_nil, or_false] at hmem
      rcases hmem with rfl | rfl | rfl | rfl
      · exact ⟨h.isLocal rfl 0, fun k => h.isLocal (isLocal_index k) 0⟩
      all_goals
        refine ⟨h.isLocal rfl 0, fun k => h.isLocal ?_ 0⟩
        rw [Integral.isLocal, toString, instToStringString, String.toList_append]
        rfl
    · cases hs

end CellTablesFit

/-! ## Values of factors -/

/-- Kernel expressions of which all uses have a property. -/
def Variables.Fits (P : String → Nat → Prop) (v : Variables) : Prop :=
  ∀ perPoint, ∀ p ∈ v.entries perPoint, p.2.Fits P

namespace Variables.Fits

lemma empty : Variables.Fits P {} := fun perPoint => by cases perPoint <;> exact forall_mem_nil _

lemma get {v : Variables} {e : Form.Expr} {o : Operand} (hv : v.Fits P) (h : v.get e = .ok o) :
    o.Fits P := by
  obtain ⟨found, hfound, h⟩ := bind_eq_ok.1 h
  cases h
  rw [find?.eq_def] at hfound
  split at hfound
  · obtain ⟨o, ho, hfound⟩ := bind_eq_ok.1 hfound
    cases hfound
    exact fits_lower (forall_mem_nil _) ho
  · obtain ⟨o, ho, hfound⟩ := bind_eq_ok.1 hfound
    cases hfound
    exact fits_lower (forall_mem_nil _) ho
  · cases hfound
    cases hlookup : (v.own.lookup e).or (v.common.lookup e) with
    | none => simp [Operand.Fits, Operand.uses]
    | some o =>
      rcases Option.or_eq_some_iff.1 hlookup with hown | ⟨-, hcommon⟩
      · obtain ⟨p, hp, rfl⟩ := exists_mem_of_lookup_eq_some hown
        exact hv true p hp
      · obtain ⟨p, hp, rfl⟩ := exists_mem_of_lookup_eq_some hcommon
        exact hv false p hp

lemma lower {v : Variables} {es : List Form.Expr} {os : List Operand} {head : Form.Head}
    {value : Form.Number} {o : Operand} (hv : v.Fits P) (hos : es.mapM v.get = .ok os)
    (h : lower head value os = .ok o) : o.Fits P := by
  refine fits_lower (fun o ho => ?_) h
  obtain ⟨e, -, he⟩ := exists_of_mapM hos ho
  exact hv.get he

lemma put {v : Variables} {o : Operand} (hv : v.Fits P) (ho : o.Fits P) (perPoint : Bool)
    (e : Form.Expr) : (v.put perPoint e o).Fits P := by
  obtain ⟨hput, hother⟩ := Variables.entries_put v perPoint e o
  intro b p hp
  by_cases hb : b = perPoint
  · subst hb
    rw [hput] at hp
    rcases snd_of_mem_assign hp with hp | hp
    · rwa [hp]
    · exact hv b p hp
  · obtain rfl : b = !perPoint := by cases b <;> cases perPoint <;> simp_all
    rw [hother] at hp
    exact hv _ p hp

end Variables.Fits

/-- Code for factors of which all uses have a property. -/
structure Partition.Fits (P : String → Nat → Prop) (p : Partition) : Prop where
  values : p.values.Fits P
  definitions : ∀ s ∈ p.definitions, s.Fits P
  intermediates : ∀ s ∈ p.intermediates, s.Fits P

section Factors

variable {vertices : List FactorVertex} {l : Layout} {rule : Option Rule} {v : FactorVertex}
  {name : String} {p : Partition}

/-- The value of a terminal uses the table that it is read from. -/
lemma fits_terminal {m : Form.ModifiedTerminal} {o : Operand}
    (hfit : CellTablesFit P declared vertices)
    (hv : v ∈ vertices) (hm : v.terminal = some m)
    (h : access l m v.table rule = .ok o) : o.Fits P :=
  fits_access hfit.names.toArgumentsFit
    (fun _ => ⟨hfit.others _ _ rfl, hfit.isLocal rfl 0⟩)
    (fun s hs => hfit.family (by rw [family_variableOf hs]; decide) 0) (hfit.cells v hv m hm) h

variable (hname : ∀ k : Nat, Family.of s!"{name}_{k}" = .intermediate)

include hname

/-- A factor that is computed from others is held by a variable of its own. -/
lemma Variables.Fits.intermediate {values : Variables} {es : List Form.Expr} {os : List Operand}
    {head : Form.Head} {number : Form.Number} {value : Operand} {k : Nat} {type : Option DType}
    {symbol : Symbol}
    {s : Stmt} (hvalues : values.Fits P) (hfit : CellTablesFit P declared vertices)
    (hos : es.mapM values.get = .ok os) (hvalue : Kernel.lower head number os = .ok value)
    (hsymbol : Symbol.of s!"{name}_{k}" type = .ok symbol)
    (hs : Stmt.ofVariable symbol (some value) = .ok s) :
    (Operand.expr (.symbol symbol)).Fits P ∧ s.Fits P := by
  refine ⟨Operand.fits_expr (Expr.fits_symbol.2 ?_), fits_ofVariable (fun o ho => ?_) hs⟩
  · rw [name_symbolOf hsymbol]
    exact hfit.family (by rw [hname]; decide) 0
  · exact Option.some.inj ho ▸ hvalues.lower hos hvalue

lemma Partition.Fits.addFactor {p' : Partition} (hp : p.Fits P)
    (hfit : CellTablesFit P declared vertices) (hv : v ∈ vertices)
    (h : addFactor l declared name rule p v = .ok p') : p'.Fits P := by
  obtain ⟨found, -, h⟩ := bind_eq_ok.1 h
  dsimp only at h
  split at h
  · cases h
    exact hp
  · split at h
    · next m hm =>
      obtain ⟨value, hvalue, definition, hdefinition, known, -, h⟩ := bind₃_eq_ok.1 h
      cases h
      have hvalue := fits_terminal hfit hv hm hvalue
      refine ⟨hp.values.put hvalue _ _, ?_, hp.intermediates⟩
      dsimp only
      split
      · exact hp.definitions
      · refine forall_mem_append.2 ⟨hp.definitions, forall_mem_singleton.2 ?_⟩
        cases definition with
        | none => exact Stmt.fits_of_uses_eq_nil rfl
        | some d => exact fits_definition hfit.names hvalue hdefinition
    · obtain ⟨operands, hoperands, dtype, -, value, hvalue, symbol, hsymbol, s, hs, h⟩ :=
        bind₅_eq_ok.1 h
      cases h
      obtain ⟨hsymbol, hs⟩ := hp.values.intermediate hname hfit hoperands hvalue hsymbol hs
      exact ⟨hp.values.put hsymbol _ _, hp.definitions,
        forall_mem_append.2 ⟨hp.intermediates, forall_mem_singleton.2 hs⟩⟩

/-- The code for the factors of one status. -/
lemma fits_partition {status : Status} {g : Graph Nat FactorVertex} {values : Variables}
    (hvalues : values.Fits P) (hfit : CellTablesFit P declared (g.nodes.map (·.2)))
    (h : partition l declared name status rule g values = .ok p) : p.Fits P := by
  obtain ⟨done, hdone, definitions, hdefinitions, h⟩ := bind₂_eq_ok.1 h
  cases h
  have hdone : done.Fits P := by
    refine foldlM_induction (Partition.Fits P) ⟨hvalues, forall_mem_nil _, forall_mem_nil _⟩
      (fun p v p' hv hp hstep => ?_) hdone
    exact hp.addFactor hname hfit (mem_of_mem_filter hv) hstep
  exact ⟨hdone.values, fits_optimize hfit.temporary hdone.definitions hdefinitions,
    hdone.intermediates⟩

end Factors

/-! ## Blocks -/

/-- The computation of blocks of which all uses have a property. -/
structure BlockCode.Fits (P : String → Nat → Prop) (code : BlockCode) : Prop where
  known : ∀ p ∈ code.weighted.known, P p.2.name 0
  intermediates : ∀ x ∈ code.intermediates, P x.1.name 0 ∧ x.2.Fits P
  sections : ∀ s ∈ code.sections, s.Fits P

/-- What a group of blocks adds of which all uses have a property. -/
structure GroupCode.Fits (P : String → Nat → Prop) (code : GroupCode) : Prop where
  done : code.done.Fits P
  additions : ∀ a ∈ code.additions, (∀ e ∈ a.1, e.Fits P) ∧ ∀ o ∈ a.2, o.Fits P
  loops : ∀ m ∈ code.loops, m.Fits P

section Blocks

variable {i : Integrand} {v : Variables} {point : MultiIndex}
  {vertices : List FactorVertex} {e : Expr} {l : Layout} {b : Block} {additions : Additions}

lemma fits_weightAt {rule : Rule} (hfit : CellTablesFit P declared vertices) (hpoint : point.Fits P)
    (h : weightAt l rule point = .ok e) : e.Fits P := by
  have hitem : ∀ table : Symbol, Family.of table.name = .weights →
      item table [.expr point.flat] = .ok e → e.Fits P := fun table htable =>
    fits_single (hfit.family (by rw [htable]; decide) _) hpoint.flat
  rw [weightAt] at h
  split at h
  · exact hitem _ rfl h
  · obtain ⟨table, htable, h⟩ := bind_eq_ok.1 h
    obtain ⟨id, -, htable⟩ := bind_eq_ok.1 htable
    cases htable
    refine hitem _ ?_ h
    rw [Family.of, toString, instToStringString, String.toList_append]
    rfl

lemma BlockCode.Fits.weightedFactor {b : Block} {done done' : BlockCode} {o : Operand}
    (hdone : done.Fits P) (hfit : CellTablesFit P declared vertices) (hv : v.Fits P)
    (hpoint : point.Fits P)
    (h : weightedFactor task i v b point done = .ok (o, done')) : o.Fits P ∧ done'.Fits P := by
  rw [Integral.weightedFactor] at h
  obtain ⟨-, h⟩ := ite_throw_eq_ok h
  dsimp only at h
  split at h
  · split at h
    · obtain ⟨f, hf, weight, hweight, product, hproduct, h⟩ := bind₃_eq_ok.1 h
      have hproduct : product.Fits P := by
        refine fits_product (forall_mem_cons.2 ⟨hv.get hf, ?_⟩) hproduct
        exact forall_mem_singleton.2 (fits_weightAt hfit hpoint hweight)
      split at h
      · split at h
        · next s hs =>
          cases h
          refine ⟨Expr.fits_symbol.2 ?_, hdone⟩
          exact hdone.known _ (mem_of_lookup_eq_some hs)
        · obtain ⟨symbol, hsymbol, h⟩ := bind_eq_ok.1 h
          cases h
          have hname : P symbol.name 0 := by
            rw [name_symbolOf hsymbol]
            refine hfit.isLocal ?_ 0
            rw [isLocal, toString, instToStringString, String.toList_append]
            rfl
          refine ⟨Expr.fits_symbol.2 hname, ?_, ?_, hdone.sections⟩
          · exact forall_mem_append.2 ⟨hdone.known, forall_mem_singleton.2 hname⟩
          · exact forall_mem_append.2
              ⟨hdone.intermediates, forall_mem_singleton.2 ⟨hname, hproduct⟩⟩
      · cases h
        exact ⟨hproduct, hdone⟩
    · cases h
  · cases h

lemma fits_argumentFactors {dofs : List MultiIndex} {factors : List Operand} {tables : List Symbol}
    (hnames : NamesFit P declared) (hpoint : point.Fits P) (hdofs : ∀ m ∈ dofs, m.Fits P)
    (h : argumentFactors l declared i b point dofs = .ok (factors, tables)) : ∀ o ∈ factors,
      o.Fits P := by
  obtain ⟨parts, hparts, h⟩ := bind_eq_ok.1 h
  obtain ⟨rfl, -⟩ := Prod.mk.inj (pure_eq_ok.1 h)
  intro o ho
  obtain ⟨part, hpart, rfl⟩ := mem_map.1 ho
  obtain ⟨⟨a, dof⟩, hmem, hstep⟩ := exists_of_mapM hparts hpart
  dsimp only at hstep
  split at hstep
  · cases hstep
  · obtain ⟨_, -, hstep⟩ := bind_eq_ok.1 hstep
    split at hstep
    · cases hstep
      exact fits_int 1
    · obtain ⟨⟨e, ts⟩, he, hstep⟩ := bind_eq_ok.1 hstep
      cases hstep
      exact fits_tableAccess hnames hpoint (hdofs dof (of_mem_zip hmem).2) he

lemma fits_addTerm {indices : List Expr} {term : Operand} (hindices : ∀ e ∈ indices, e.Fits P)
    (hterm : term.Fits P) (h : ∀ a ∈ additions, (∀ e ∈ a.1, e.Fits P) ∧ ∀ o ∈ a.2, o.Fits P) :
    ∀ a ∈ addTerm indices term additions, (∀ e ∈ a.1, e.Fits P) ∧ ∀ o ∈ a.2, o.Fits P := by
  induction additions with
  | nil => exact forall_mem_singleton.2 ⟨hindices, forall_mem_singleton.2 hterm⟩
  | cons a additions ih =>
    rw [forall_mem_cons] at h
    rw [addTerm]
    split
    · exact forall_mem_cons.2
        ⟨⟨h.1.1, forall_mem_append.2 ⟨h.1.2, forall_mem_singleton.2 hterm⟩⟩, h.2⟩
    · exact forall_mem_cons.2 ⟨h.1, ih h.2⟩

lemma fits_tensorIndex {dofs : List Int} {a : BlockArgument} {index : MultiIndex}
    (hindex : index.Fits P) (h : tensorIndex dofs a index = .ok e) : e.Fits P := by
  have hflat : (Operand.expr index.flat).Fits P := hindex.flat
  rw [tensorIndex] at h
  dsimp only at h
  split at h
  · obtain ⟨place, hplace, h⟩ := bind_eq_ok.1 h
    exact (fits_apply hflat (fits_int _) hplace).toExpr h
  · obtain ⟨x, hx, place, hplace, h⟩ := bind₂_eq_ok.1 h
    exact (fits_apply (fits_apply (fits_int _) hflat hx) (fits_int _)
      hplace).toExpr h

lemma GroupCode.Fits.addBlock {map : BlockMap} {group group' : GroupCode} (hgroup : group.Fits P)
    (hfit : CellTablesFit P declared vertices) (hv : v.Fits P)
    (hpoint : point.Fits P) (h : addBlock task declared i v map point group b = .ok group') :
    group'.Fits P := by
  obtain ⟨dofs, hdofs, h⟩ := bind_eq_ok.1 h
  obtain ⟨-, h⟩ := ite_throw_eq_ok h
  obtain ⟨⟨fw, done⟩, hfactor, read, -, h⟩ := bind₂_eq_ok.1 h
  obtain ⟨-, h⟩ := ite_throw_eq_ok h
  obtain ⟨⟨factors, tables⟩, hfactors, term, hterm, indices, hindices, h⟩ := bind₃_eq_ok.1 h
  cases h
  have hdofs : ∀ m ∈ dofs, m.Fits P := by
    intro m hm
    obtain ⟨k, -, hstep⟩ := exists_of_mapM hdofs hm
    split at hstep
    · obtain ⟨s, hs, hstep⟩ := bind_eq_ok.1 hstep
      exact fits_dofIndex (hfit.argumentIndex hs) hstep
    · cases hstep
  obtain ⟨hfw, hdone⟩ := hgroup.done.weightedFactor hfit hv hpoint hfactor
  refine ⟨hdone, fits_addTerm (fun e he => ?_) ?_ hgroup.additions, hdofs⟩
  · obtain ⟨⟨ds, a, index⟩, hmem, he⟩ := exists_of_mapM hindices he
    exact fits_tensorIndex (hdofs index (of_mem_zip (of_mem_zip hmem).2).2) he
  · exact fits_product (forall_mem_cons.2
      ⟨hfw, fits_argumentFactors hfit.names hpoint hdofs hfactors⟩) hterm

lemma fits_assignments {shape : List Int} {body : List Operand}
    (hfit : CellTablesFit P declared vertices)
    (hadditions : ∀ a ∈ additions, (∀ e ∈ a.1, e.Fits P) ∧ ∀ o ∈ a.2, o.Fits P)
    (h : assignments shape additions = .ok body) : ∀ o ∈ body, o.Fits P := by
  obtain ⟨parts, hparts, rfl⟩ := flatMapM_eq_ok h
  intro o ho
  obtain ⟨part, hpart, ho⟩ := mem_flatten.1 ho
  obtain ⟨⟨indices, terms⟩, ha, hstep⟩ := exists_of_forall₂_right hparts hpart
  obtain ⟨index, hindex, hstep⟩ := bind_eq_ok.1 hstep
  obtain ⟨term, hmem, hterm⟩ := exists_of_mapM hstep ho
  obtain ⟨entry, hentry, value, hvalue, hterm⟩ := bind₂_eq_ok.1 hterm
  cases hterm
  obtain ⟨hindices, hterms⟩ := hadditions _ ha
  have hindex := fits_ofExprs hindices hindex
  have hentry := fits_single (hfit.isLocal rfl 1) (Operand.fits_expr hindex.toExpr) hentry
  exact Operand.fits_expr (Expr.fits_assign.2 ⟨hentry, (hterms term hmem).toExpr hvalue⟩)

lemma BlockCode.Fits.groupSection {done done' : BlockCode} {group : BlockMap × List Block}
    (hdone : done.Fits P) (hfit : CellTablesFit P declared vertices)
    (hv : v.Fits P)
    (h : groupSection task declared i v done group = .ok done') : done'.Fits P := by
  obtain ⟨point, hpoint, code, hcode, body, hbody, loops, hloops, part, hpart, h⟩ := bind₅_eq_ok.1 h
  cases h
  have hpoint := fits_ruleIndex hfit.names.point hpoint
  have hcode : code.Fits P :=
    foldlM_induction (GroupCode.Fits P) ⟨hdone, forall_mem_nil _, forall_mem_nil _⟩
      (fun _ _ _ _ hgroup hstep => hgroup.addBlock hfit hv hpoint hstep) hcode
  have hloops : loops.Fits P := by
    refine fits_nestedLoops (fun m hm => hcode.loops m (mem_reverse.1 hm)) ?_ hloops
    exact Operand.fits_list.2 (fits_assignments hfit hcode.additions hbody)
  have hpart : part.Fits P := fits_ofPart (forall_mem_singleton.2 hloops) (forall_mem_nil _) hpart
  exact ⟨hcode.done.known, hcode.done.intermediates,
    forall_mem_append.2 ⟨hcode.done.sections, forall_mem_singleton.2 hpart⟩⟩

end Blocks

/-! ## Code of rules -/

lemma family_numbered {letter : String} {id : String} (hletter : letter = "sp" ∨ letter = "sv")
    (k : Nat) : Family.of s!"{letter}_{id}_{k}" = .intermediate := by
  rw [Family.of]
  rcases hletter with rfl | rfl
  all_goals
    simp only [toString, String.toList_append]
    rfl

variable {i : Integrand} {r : Representation}

lemma fits_pointLoop {v : Variables} {weighted count : Nat} {o : Operand} {q : Partition}
    (hv : v.Fits P) (hfit : CellTablesFit P declared (i.factors.nodes.map (·.2)))
    (h : pointLoop task declared i v weighted = .ok (o, q, count)) : o.Fits P ∧
      q.values.Fits P := by
  obtain ⟨id, -, p, hp, groups, -, code, hcode, inputs, -, h⟩ := bind₅_eq_ok.1 h
  obtain ⟨declarations, hdeclarations, intermediates, hintermediates, point, hpoint, parts, hparts,
      loop, hloop, h⟩ := bind₅_eq_ok.1 h
  obtain ⟨rfl, hrest⟩ := Prod.mk.inj (pure_eq_ok.1 h)
  obtain ⟨rfl, -⟩ := Prod.mk.inj hrest
  have hp := fits_partition (family_numbered (.inr rfl)) hv hfit hp
  have hcode : code.Fits P :=
    foldlM_induction (BlockCode.Fits P)
      ⟨forall_mem_nil _, forall_mem_nil _, forall_mem_nil _⟩
      (fun _ _ _ _ hdone hstep => hdone.groupSection hfit hp.values hstep) hcode
  have hintermediates : intermediates.Fits P := by
    refine fits_ofPart (forall_mem_append.2 ⟨?_, ?_⟩) (fun o ho => ?_) hintermediates
    · exact forall_mem_map.2 hp.intermediates
    · exact forall_mem_map.2 fun x hx => Operand.fits_expr (Expr.fits_assign.2
        ⟨Expr.fits_symbol.2 (hcode.intermediates x hx).1, (hcode.intermediates x hx).2⟩)
    · obtain ⟨x, -, ho⟩ := exists_of_mapM hdeclarations ho
      obtain ⟨s, hs, ho⟩ := bind_eq_ok.1 ho
      cases ho
      refine fits_ofVariable (fun o ho => ?_) hs
      obtain rfl := Option.some.inj ho
      exact fits_int 0
  have hparts : ∀ s ∈ parts, s.Fits P := by
    refine fits_optimize hfit.temporary (forall_mem_append.2 ⟨forall_mem_append.2
      ⟨hp.definitions, forall_mem_singleton.2 hintermediates⟩, hcode.sections⟩) hparts
  refine ⟨fits_nestedLoops (forall_mem_singleton.2
    (fits_ruleIndex hfit.names.point hpoint)) ?_ hloop, hp.values⟩
  exact Operand.fits_list.2 (forall_mem_map.2 fun s hs => hparts s hs)

/-- Code of rules of which all uses have a property. -/
structure RuleCode.Fits (P : String → Nat → Prop) (code : RuleCode) : Prop where
  values : code.values.Fits P
  before : ∀ o ∈ code.before, o.Fits P
  loops : ∀ o ∈ code.loops, o.Fits P

lemma fits_definitionCode {s : Stmt} (hs : s.Fits P) : (definitionCode s).Fits P := by
  rw [definitionCode.eq_def]
  split
  · exact Operand.fits_list.2 (forall_mem_nil _)
  · exact hs

lemma RuleCode.Fits.addRuleCode {done done' : RuleCode} (hdone : done.Fits P)
    (hfit : CellTablesFit P declared (i.factors.nodes.map (·.2)))
    (h : addRuleCode task declared done i = .ok done') : done'.Fits P := by
  obtain ⟨id, -, p, hp, ⟨loop, q, weighted⟩, hloop, h⟩ := bind₃_eq_ok.1 h
  cases h
  have hvalues : Variables.Fits P { done.values with own := [] } := by
    rintro (_ | _)
    · exact hdone.values false
    · exact forall_mem_nil _
  have hp := fits_partition (family_numbered (.inl rfl)) hvalues hfit hp
  obtain ⟨hloop, hq⟩ := fits_pointLoop hp.values hfit hloop
  refine ⟨hq, forall_mem_append.2 ⟨hdone.before, ?_⟩,
    forall_mem_append.2 ⟨hdone.loops, forall_mem_singleton.2 hloop⟩⟩
  refine forall_mem_cons.2 ⟨Operand.fits_list.2 (forall_mem_map.2 fun s hs =>
    fits_definitionCode (hp.definitions s hs)), forall_mem_singleton.2 ?_⟩
  exact Operand.fits_list.2
    (forall_mem_map.2 fun s hs => hp.intermediates s hs)

lemma fits_ruleCode {code : RuleCode} (hfit : CellTablesFit P declared r.vertices)
    (h : r.integrands.foldlM (addRuleCode task declared) {} = .ok code) : code.Fits P :=
  foldlM_induction (RuleCode.Fits P) ⟨.empty, forall_mem_nil _, forall_mem_nil _⟩
    (fun _ i _ hi hdone hstep => hdone.addRuleCode
      (hfit.subset fun _ hv => mem_flatMap.2 ⟨i, hi, hv⟩) hstep) h

/-! ## Expressions at points -/

/-- The parts of a kernel that evaluates an expression. -/
lemma pointKernel_eq_ok {task : PointTask} {code : List Stmt} (h : pointKernel task r = .ok code) :
    ∃ (i : Integrand) (tables geometry before varying : List Operand) (v v' : Variables)
    (rule : String)
        (blocks : List (List Operand)) (loop : List Operand),
      r.integrands = [i] ∧ declareTables r (tableNames r.tables) = .ok tables ∧
      pointGeometry task r = .ok geometry ∧
      pointPartition task.layout (tableNames r.tables) "sp" .piecewise i.factors {} =
        .ok (v, before) ∧
      pointPartition task.layout (tableNames r.tables) s!"sv_{rule}" .varying i.factors v =
        .ok (v', varying) ∧
      Forall₂ (fun b part => pointBlock task i v' b.1 b.2 = .ok part)
        ((i.blocks.mergeSort fun a b => (compare a.1 b.1).isLE).flatMap
          fun (map, bs) => bs.map fun b => (map, b)) blocks ∧
      (let body := Stmt.commented (Stmt.commented varying
          [s!"Unstructured varying computations for quadrature rule {rule}"])
          [s!"Points loop body setup quadrature loop {rule}"] ++ blocks.flatten;
        (body = [] ∧ loop = []) ∨ ∃ s, loop = [.stmt s] ∧
          Stmt.ofLoop (.symbol pointIndex) (.int 0) (.int i.rule.numPoints) body = .ok s) ∧
      Operand.toStmts (Stmt.commented tables
        ["Precomputed values of basis functions", "FE* dimensions: [entities][points][dofs]"] ++
          geometry ++
          Stmt.commented before ["Unstructured piecewise computations"] ++ loop) = .ok code := by
  rw [pointKernel] at h
  split at h
  · next i hi =>
    obtain ⟨tables, htables, geometry, hgeometry, ⟨v, before⟩, hbefore, rule, -,
        ⟨v', varying⟩, hvarying, h⟩ := bind₅_eq_ok.1 h
    obtain ⟨blocks, hblocks, h⟩ := bind_eq_ok.1 h
    obtain ⟨parts, hparts, rfl⟩ := flatMapM_eq_ok hblocks
    refine ⟨i, tables, geometry, before, varying, v, v', rule, parts, ?_⟩
    dsimp only at h ⊢
    split at h
    · next hempty =>
      exact ⟨[], hi, htables, hgeometry, hbefore, hvarying, hparts,
        .inl ⟨isEmpty_iff.1 hempty, rfl⟩, h⟩
    · obtain ⟨s, hs, h⟩ := bind_eq_ok.1 h
      exact ⟨[.stmt s], hi, htables, hgeometry, hbefore, hvarying, hparts, .inr ⟨s, rfl, hs⟩, h⟩
  · cases h

/-- Code that computes factors of an expression of which all uses have a property. -/
structure PointPartition.Fits (P : String → Nat → Prop) (p : PointPartition) : Prop where
  values : p.values.Fits P
  definitions : ∀ o ∈ p.definitions, o.Fits P
  intermediates : ∀ o ∈ p.intermediates, o.Fits P

section Points

variable {vertices : List FactorVertex}

lemma PointPartition.Fits.addPointFactor {l : Layout} {name : String} {p p' : PointPartition}
    {v : FactorVertex} (hp : p.Fits P) (hfit : CellTablesFit P declared vertices)
    (hname : ∀ k : Nat, Family.of s!"{name}_{k}" = .intermediate) (hv : v ∈ vertices)
    (h : addPointFactor l declared name p v = .ok p') : p'.Fits P := by
  rw [Integral.addPointFactor] at h
  dsimp only at h
  split at h
  · obtain ⟨o, ho, h⟩ := bind_eq_ok.1 h
    cases h
    exact ⟨hp.values.put (hp.values.get ho) _ _, hp.definitions, hp.intermediates⟩
  · split at h
    · next m hm =>
      obtain ⟨value, hvalue, definition, hdefinition, h⟩ := bind₂_eq_ok.1 h
      have hvalue := fits_terminal hfit hv hm hvalue
      have hput := hp.values.put hvalue false v.expr
      split at h
      · next body declarations _ _ _ =>
        cases h
        have hpart := fits_definition hfit.names hvalue hdefinition
        obtain ⟨hdeclarations, hbody⟩ := Stmt.fits_part.1 hpart
        refine ⟨hput, forall_mem_append.2 ⟨hp.definitions, ?_⟩, hp.intermediates⟩
        exact forall_mem_map.2 (forall_mem_append.2 ⟨hdeclarations, hbody⟩)
      · cases h
        exact ⟨hput, forall_mem_append.2 ⟨hp.definitions, forall_mem_nil _⟩, hp.intermediates⟩
    · obtain ⟨operands, hoperands, value, hvalue, symbol, hsymbol, s, hs, h⟩ := bind₄_eq_ok.1 h
      cases h
      obtain ⟨hsymbol, hs⟩ := hp.values.intermediate hname hfit hoperands hvalue hsymbol hs
      exact ⟨hp.values.put hsymbol _ _, hp.definitions,
        forall_mem_append.2 ⟨hp.intermediates, forall_mem_singleton.2 hs⟩⟩

variable {code : List Operand} {l : Layout} {e : Expr} {index : Symbol} {b : Block}

/-- The code for the factors of one status. -/
lemma fits_pointPartition {name : String} {status : Status} {g : Graph Nat FactorVertex}
    {values values' : Variables} (hvalues : values.Fits P)
    (hfit : CellTablesFit P declared (g.nodes.map (·.2)))
    (hname : ∀ k : Nat, Family.of s!"{name}_{k}" = .intermediate)
    (h : pointPartition l declared name status g values = .ok (values', code)) :
    values'.Fits P ∧ ∀ o ∈ code, o.Fits P := by
  obtain ⟨done, hdone, h⟩ := bind_eq_ok.1 h
  cases h
  have hdone : done.Fits P := by
    refine foldlM_induction (PointPartition.Fits P)
      ⟨hvalues, forall_mem_nil _, forall_mem_nil _⟩ (fun p v p' hv hp hstep => ?_) hdone
    exact hp.addPointFactor hfit hname (mem_of_mem_filter hv) hstep
  exact ⟨hdone.values, forall_mem_append.2 ⟨hdone.definitions, hdone.intermediates⟩⟩

lemma exists_of_ofItem {s : Symbol} {is : List Expr} {os : List Operand}
    (h : Expr.ofItem (.expr (.access s is)) os = .ok e) :
    ∃ js, (is.map Operand.expr ++ os).mapM Operand.toExpr = .ok js ∧ e = .access s js := by
  obtain ⟨js, hjs, h⟩ := bind_eq_ok.1 h
  exact ⟨js, hjs, (pure_eq_ok.1 h).symm⟩

lemma fits_tableAtPoint {t : TableRef} {entity : Form.EntityKind} {side : Option Form.Side}
    {table : Expr}
    (hfit : CellTablesFit P declared vertices) (ht : Family.of t.name = .table)
    (hindex : P index.name 0) (h : tableAtPoint t entity side = .ok table)
    (he : Expr.ofItem (.expr table) [.expr (.symbol index)] = .ok e) : e.Fits P := by
  have hnames := hfit.names
  obtain ⟨symbol, is, hsymbol, his, rfl⟩ : ∃ (symbol : Symbol) (is : List Expr),
      symbol.name = t.name ∧ (∀ i ∈ is, i.Fits P) ∧ table = .access symbol is := by
    rw [tableAtPoint] at h
    have hitem : ∀ number : Operand, number.Fits P → (do
        let permutation ← permutationNumber t side
        item (← Symbol.of t.name (some .real))
          [permutation, number, if t.piecewise then .int 0 else .expr (.symbol pointIndex)]) =
        .ok table → ∃ (symbol : Symbol) (is : List Expr),
          symbol.name = t.name ∧ (∀ i ∈ is, i.Fits P) ∧ table = .access symbol is := by
      intro number hnumber h
      obtain ⟨permutation, hpermutation, symbol, hsymbol, h⟩ := bind₂_eq_ok.1 h
      have hindices : ∀ o ∈ [permutation, number,
          if t.piecewise then .int 0 else .expr (.symbol pointIndex)], o.Fits P := by
        refine forall_mem_cons.2 ⟨fits_permutationNumber hnames.permutation hpermutation,
          forall_mem_cons.2 ⟨hnumber, forall_mem_singleton.2 ?_⟩⟩
        split
        · exact fits_int 0
        · exact Expr.fits_symbol.2 hnames.point.1
      rcases exists_of_item h with ⟨hnil, -⟩ | ⟨is, his, rfl⟩
      · cases hnil
      · exact ⟨symbol, is, name_symbolOf hsymbol, fits_toExprs hindices his, rfl⟩
    dsimp only at h
    split at h
    · exact hitem _ (fits_int 0) h
    · obtain ⟨number, hnumber, h⟩ := bind_eq_ok.1 h
      exact hitem number (fits_entityNumber hnames.entity hnumber) h
  obtain ⟨js, hjs, rfl⟩ := exists_of_ofItem he
  refine Expr.fits_access.2 ⟨?_, fits_toExprs (forall_mem_append.2
    ⟨forall_mem_map.2 fun i hi => Operand.fits_expr (his i hi),
      forall_mem_singleton.2 (Operand.fits_expr (Expr.fits_symbol.2 hindex))⟩) hjs⟩
  rw [hsymbol]
  exact hfit.family (by rw [ht]; decide) _

lemma fits_pointArguments {indices : List Symbol} {factors : List Operand}
    (hfit : CellTablesFit P declared vertices)
    (htables : ∀ a ∈ b.arguments, Family.of a.table.name = .table)
    (hindices : ∀ s ∈ indices, P s.name 0) (h : pointArguments l i b indices = .ok factors) :
    ∀ o ∈ factors, o.Fits P := by
  intro o ho
  obtain ⟨⟨index, k⟩, hk, hstep⟩ := exists_of_mapM h ho
  dsimp only at hstep
  split at hstep
  · next a ha =>
    split at hstep
    · cases hstep
    · obtain ⟨table, htable, _, -, hstep⟩ := bind₂_eq_ok.1 hstep
      split at hstep
      · cases hstep
        exact Expr.fits_of_uses_eq_nil rfl
      · obtain ⟨e, he, hstep⟩ := bind_eq_ok.1 hstep
        cases hstep
        exact fits_tableAtPoint hfit (htables a (mem_of_getElem? ha))
          (hindices index (fst_mem_of_mem_zipIdx hk)) htable he
  · cases hstep

lemma fits_pointTensorIndex {dofs : List Int} {o : Operand} (hindex : P index.name 0)
    (h : pointTensorIndex dofs index = .ok o) : o.Fits P := by
  have hi : (Operand.expr (.symbol index)).Fits P := Expr.fits_symbol.2 hindex
  rw [pointTensorIndex.eq_def] at h
  dsimp only at h
  split at h
  · cases h
  · exact fits_apply hi (fits_int _) h
  · obtain ⟨a, ha, h⟩ := bind_eq_ok.1 h
    exact fits_apply (fits_apply (fits_int _) hi ha) (fits_int _) h

lemma fits_dofLoop {dofs : List (Symbol × Nat)} {body : List Operand}
    (hdofs : ∀ d ∈ dofs, P d.1.name 0)
    (hbody : ∀ o ∈ body, o.Fits P) (h : dofLoop dofs body = .ok code) : ∀ o ∈ code, o.Fits P := by
  rw [dofLoop.eq_def] at h
  split at h
  · cases h
    exact hbody
  · obtain ⟨s, hs, h⟩ := bind_eq_ok.1 h
    cases h
    have hindex := hdofs _ mem_cons_self
    exact forall_mem_singleton.2 (fits_ofLoop
      (Expr.fits_symbol.2 hindex) (fits_int _) (fits_int _) hbody hs)
  · cases h

lemma fits_pointBlock {task : PointTask} {v : Variables} {map : BlockMap}
    (hfit : CellTablesFit P declared vertices) (hv : v.Fits P)
    (htables : ∀ a ∈ b.arguments, Family.of a.table.name = .table)
    (h : pointBlock task i v map b = .ok code) : ∀ o ∈ code, o.Fits P := by
  rw [pointBlock] at h
  obtain ⟨-, h⟩ := ite_throw_eq_ok h
  obtain ⟨indices, hindices, h⟩ := bind_eq_ok.1 h
  obtain ⟨-, h⟩ := ite_throw_eq_ok h
  have hindices : ∀ s ∈ indices, P s.name 0 := by
    intro s hs
    obtain ⟨k, -, hk⟩ := exists_of_mapM hindices hs
    exact (hfit.argumentIndex hk).1
  dsimp only at h
  split at h
  · split at h
    · cases h
      exact forall_mem_nil _
    · cases h
  · obtain ⟨factors, hfactors, places, hplaces, body, hbody, loops, hloops, h⟩ := bind₄_eq_ok.1 h
    cases h
    have hfactors := fits_pointArguments hfit htables hindices hfactors
    have hplaces : ∀ o ∈ places, o.Fits P := by
      intro o ho
      obtain ⟨⟨dofs, index⟩, hmem, ho⟩ := exists_of_mapM hplaces ho
      exact fits_pointTensorIndex (hindices index (of_mem_zip hmem).2) ho
    have hbody : ∀ o ∈ body, o.Fits P := by
      intro o ho
      obtain ⟨⟨factor, component⟩, -, hstep⟩ := exists_of_mapM hbody ho
      dsimp only at hstep
      split at hstep
      · obtain ⟨f, hf, value, hvalue, index, hindex, entry, hentry, e, he, hstep⟩ :=
          bind₅_eq_ok.1 hstep
        cases hstep
        have hvalue := fits_product (forall_mem_cons.2 ⟨hv.get hf, hfactors⟩) hvalue
        have hindex := fits_of (forall_mem_cons.2
          ⟨Operand.fits_expr (Expr.fits_symbol.2 (hfit.isLocal rfl 0)),
            forall_mem_cons.2 ⟨fits_int _, hplaces⟩⟩) hindex
        have hentry := fits_single (hfit.isLocal rfl 1) (Operand.fits_expr hindex.toExpr) hentry
        exact Operand.fits_expr (Expr.fits_assign.2 ⟨hentry, hvalue.toExpr he⟩)
      · cases hstep
    refine forall_mem_singleton.2 (Operand.fits_list.2 (fits_dofLoop ?_ hbody hloops))
    exact fun d hd => hindices d.1 (of_mem_zip hd).1

end Points

end FormKernel.Integral
