import FormKernel.Proofs.Integral.Uses

/-!
# Tables of the reference cell are declared as they are used

A kernel declares tables of the reference cell before all else that reads them: one for each
quantity among its terminals and each cell.  Every use of such a table finds a declaration under its
name, with as many dimensions as it has indices.  Two quantities are left out, since they are read
under other names than those that they are declared under, and of the quantities that an expression
is evaluated from only two are declared.
-/

namespace FormKernel.Kernel

mutual

/-- The names that a statement declares where it stands, each with its number of dimensions. -/
def Stmt.ranks : Stmt → List (String × Nat)
  | .list body => Stmt.ranksAll body
  | .variableDecl _ s _ => [(s.name, 0)]
  | .arrayDecl _ s sizes .. => [(s.name, sizes.length)]
  | .part _ _ _ declarations .. => Stmt.ranksAll declarations
  | _ => []

/-- The names that statements declare where they stand, each with its number of dimensions. -/
def Stmt.ranksAll : List Stmt → List (String × Nat)
  | [] => []
  | s :: ss => s.ranks ++ Stmt.ranksAll ss

end

lemma Stmt.ranksAll_append (xs ys : List Stmt) :
    Stmt.ranksAll (xs ++ ys) = Stmt.ranksAll xs ++ Stmt.ranksAll ys := by
  induction xs with
  | nil => rfl
  | cons x xs ih => rw [List.cons_append, ranksAll, ranksAll, ih, List.append_assoc]

lemma Stmt.mem_ranksAll {ss : List Stmt} {u : String × Nat} :
    u ∈ Stmt.ranksAll ss ↔ ∃ s ∈ ss, u ∈ s.ranks := by
  induction ss with
  | nil => simp [ranksAll]
  | cons s ss ih => simp [ranksAll, ih]

mutual

theorem Stmt.declares_of_mem_ranks : ∀ {s : Stmt} {u : String × Nat}, u ∈ s.ranks → u.1 ∈ s.declares
  | .list body, u, h => by
    rw [Stmt.ranks] at h
    rw [Stmt.declares]
    exact Stmt.declaresAll_of_mem_ranksAll h
  | .variableDecl _ s value, u, h => by
    rw [Stmt.ranks, List.mem_singleton] at h
    simp [Stmt.declares, h]
  | .arrayDecl _ s sizes values const, u, h => by
    rw [Stmt.ranks, List.mem_singleton] at h
    simp [Stmt.declares, h]
  | .part _ _ body declarations input output annotations, u, h => by
    rw [Stmt.ranks] at h
    rw [Stmt.declares]
    exact Stmt.declaresAll_of_mem_ranksAll h
  | .expr _, _, h | .comment _, _, h | .declaration _, _, h | .loop .., _, h => by
    simp [Stmt.ranks] at h

theorem Stmt.declaresAll_of_mem_ranksAll : ∀ {ss : List Stmt} {u : String × Nat},
    u ∈ Stmt.ranksAll ss → u.1 ∈ Stmt.declaresAll ss
  | [], _, h => by simp [Stmt.ranksAll] at h
  | s :: ss, u, h => by
    rw [Stmt.ranksAll, List.mem_append] at h
    rw [Stmt.declaresAll, List.mem_append]
    exact h.imp Stmt.declares_of_mem_ranks Stmt.declaresAll_of_mem_ranksAll

end

lemma ranks_ofVariable {s : Symbol} {value : Option Operand} {tag : Tag} {t : Stmt}
    (h : Stmt.ofVariable s value tag = .ok t) : t.isSingle = true ∧ t.ranks = [(s.name, 0)] := by
  obtain ⟨_, rfl, -⟩ := ofVariable_eq_ok h
  exact ⟨rfl, rfl⟩

lemma ranks_ofArray {s : Symbol} {values : Values} {const : Bool} {tag : Tag} {t : Stmt}
    (h : Stmt.ofArray s none (.values values) const tag = .ok t) :
    t.isSingle = true ∧ t.ranks = [(s.name, values.shape.length)] := by
  obtain ⟨_, -, h⟩ := bind_eq_ok.1 h
  cases h
  simp [Stmt.isSingle, Stmt.ranks]

end FormKernel.Kernel

namespace FormKernel.Integral

open Binding (Layout cellTableOf)
open Form (Cell Domain Expr Quantity)
open Kernel (Operand Stmt Symbol)
open Quadrature (Rule)
open Reference (CellData GeometryTable)
open List

variable {P : String → Nat → Prop}

/-! ## Uses that nothing declares -/

/-- The uses of tables of a reference cell that are not declared before, under their name and with
    as many dimensions as they have indices. -/
def undeclared (known : List (String × Nat)) : List Stmt → List (String × Nat)
  | [] => []
  | s :: ss => (s.uses.filter fun u => isCellTable u.1 && known.lookup u.1 != some u.2) ++
    undeclared (known ++ s.ranks) ss

lemma undeclared_append (known : List (String × Nat)) (xs ys : List Stmt) :
    undeclared known (xs ++ ys) = undeclared known xs ++
      undeclared (known ++ Stmt.ranksAll xs) ys := by
  induction xs generalizing known with
  | nil => simp [undeclared, Stmt.ranksAll]
  | cons x xs ih => simp [undeclared, Stmt.ranksAll, ih]

variable {code : List Stmt} {r : Representation} {data : CellData} {q : Quantity}

/-- What is declared before stays declared. -/
lemma undeclared_of_fits {known : List (String × Nat)}
    (h : ∀ s ∈ code, s.Fits fun x n => isCellTable x = true → known.lookup x = some n) :
    undeclared known code = [] := by
  induction code generalizing known with
  | nil => rfl
  | cons s ss ih =>
    rw [forall_mem_cons] at h
    rw [undeclared, append_eq_nil_iff, filter_eq_nil_iff]
    refine ⟨fun u hu hmissing => ?_, ih fun t ht u hu hcell => ?_⟩
    · rw [Bool.and_eq_true, bne_iff_ne] at hmissing
      exact hmissing.2 (h.1 u hu hmissing.1)
    · rw [lookup_append, h.2 t ht u hu hcell]
      rfl

/-! ## Declarations -/

lemma fits_declareWeights {l : Layout} {code : List Operand} (h : declareWeights l r = .ok code) :
    ∀ o ∈ code, o.Fits P := by
  rw [declareWeights] at h
  split at h
  · cases h
    exact forall_mem_nil _
  · obtain ⟨parts, hparts, h⟩ := bind_eq_ok.1 h
    cases h
    refine Kernel.fits_commented fun o ho => ?_
    obtain ⟨i, -, ho⟩ := exists_of_mapM hparts ho
    obtain ⟨symbol, -, s, hs, ho⟩ := bind₂_eq_ok.1 ho
    cases ho
    exact Stmt.fits_of_uses_eq_nil (Kernel.uses_ofArray hs)

lemma fits_declareTables {names : List String} {code : List Operand}
    (h : declareTables r names = .ok code) : ∀ o ∈ code, o.Fits P := by
  obtain ⟨zs, hzs, rfl⟩ := filterMapM_eq_ok h
  intro o ho
  obtain ⟨z, hz, rfl⟩ := mem_filterMap.1 ho
  obtain ⟨name, -, hstep⟩ := exists_of_forall₂_right hzs hz
  split at hstep
  · obtain ⟨s, hs, hstep⟩ := bind_eq_ok.1 hstep
    obtain rfl := Option.some.inj (pure_eq_ok.1 hstep)
    obtain ⟨_, -, hs⟩ := bind_eq_ok.1 hs
    exact Stmt.fits_of_uses_eq_nil (Kernel.uses_ofArray hs)
  · cases pure_eq_ok.1 hstep

/-- The statements that declare tables of geometry: each declares one table of one cell, and there
    is one for each quantity and cell. -/
lemma geometry_eq_map {known : List (Quantity × GeometryTable)} {geometry : List Operand}
    (h : declareGeometry data known r = .ok geometry) :
    ∃ code : List Stmt, geometry = code.map Operand.stmt ∧
      (∀ s ∈ code, ∃ (c : Cell) (t : GeometryTable), t.declaration data c.name = .ok s) ∧
      ∀ q t name, (q, t) ∈ known → (q, .ok name) ∈ quantities r →
        ∃ s ∈ code, t.declaration data name = .ok s := by
  obtain ⟨used, hused, h⟩ := bind_eq_ok.1 h
  have hcells := cell_of_quantities hused
  obtain ⟨parts, hparts, rfl⟩ := flatMapM_eq_ok h
  have hstmt : ∀ o ∈ parts.flatten, ∃ s : Stmt, o = .stmt s ∧
      ∃ (c : Cell) (t : GeometryTable), t.declaration data c.name = .ok s := by
    intro o ho
    obtain ⟨part, hpart, ho⟩ := mem_flatten.1 ho
    obtain ⟨⟨q, t⟩, -, hpart⟩ := exists_of_forall₂_right hparts hpart
    obtain ⟨u, hu, ho⟩ := exists_of_mapM hpart ho
    obtain ⟨s, hs, ho⟩ := bind_eq_ok.1 ho
    obtain ⟨c, hc⟩ := hcells u (Form.mem_distinct.1 (mem_of_mem_filter hu))
    exact ⟨s, (pure_eq_ok.1 ho).symm, c, t, hc ▸ hs⟩
  obtain ⟨code, hcode⟩ := exists_forall₂ hstmt
  have hmap : parts.flatten = code.map Operand.stmt := by
    rw [← forall₂_eq_eq_eq, forall₂_map_right_iff]
    exact hcode.imp fun o s hos => hos.1
  refine ⟨code, hmap, fun s hs => ?_, fun q t name hq hname => ?_⟩
  · obtain ⟨o, -, -, hs⟩ := exists_of_forall₂_right hcode hs
    exact hs
  · have hname : (q, name) ∈ Form.distinct used := by
      obtain ⟨zs, hzs, rfl⟩ := filterMapM_eq_ok hused
      obtain ⟨z, hz, hstep⟩ := exists_of_forall₂_right hzs.flip hname
      simp only [isSome_lookup_of_mem hq, if_true] at hstep
      cases hstep
      exact Form.mem_distinct.2 (mem_filterMap.2 ⟨_, hz, rfl⟩)
    obtain ⟨part, hpart, hstep⟩ := exists_of_forall₂_right hparts.flip hq
    obtain ⟨o, ho, hstep⟩ := exists_of_forall₂_right (mapM_eq_ok.1 hstep).flip
      (mem_filter.2 ⟨hname, beq_self_eq_true q⟩)
    obtain ⟨s, hs, hstep⟩ := bind_eq_ok.1 hstep
    cases hstep
    have hmem : Operand.stmt s ∈ code.map Operand.stmt := hmap ▸ mem_flatten.2 ⟨part, hpart, ho⟩
    obtain ⟨t, ht, hst⟩ := mem_map.1 hmem
    exact ⟨s, Operand.stmt.inj hst ▸ ht, hs⟩

/-- The declaration of a table is one statement, which uses no names. -/
lemma uses_declaration {table : GeometryTable} {cell : String} {s : Stmt}
    (h : table.declaration data cell = .ok s) : s.isSingle = true ∧ s.Fits P := by
  rcases Reference.declaration_cases h with ⟨t, x, -, h⟩ | ⟨t, values, -, h⟩
  · refine ⟨(Kernel.ranks_ofVariable h).1, Kernel.fits_ofVariable (fun o ho => ?_) h⟩
    obtain rfl := Option.some.inj ho
    exact Operand.fits_number _
  · exact ⟨(Kernel.ranks_ofArray h).1, Stmt.fits_of_uses_eq_nil (Kernel.uses_ofArray h)⟩

/-- The table of a quantity is declared under its name, with its dimensions. -/
lemma ranks_declaration {table : GeometryTable} {cell : String} {s : Stmt} (hdata : data.Shaped)
    (h : table.declaration data cell = .ok s) :
    s.ranks = [(cell ++ "_" ++ table.name, table.rank)] := by
  rcases Reference.declaration_cases h with ⟨t, x, hrank, h⟩ | ⟨t, values, hrank, h⟩
  · rw [(Kernel.ranks_ofVariable h).2, hrank]
  · rw [(Kernel.ranks_ofArray h).2, hrank hdata]

lemma mem_quantities {v : Factor.FactorVertex} {m : Form.ModifiedTerminal} {d : Domain}
    {shape : List Nat}
    (hv : v ∈ r.vertices) (hm : v.terminal = some m)
    (hq : m.terminal = .quantity q (some d) shape) : (q, .ok d.cell.name) ∈ quantities r := by
  obtain ⟨i, hi, hv⟩ := mem_flatMap.1 hv
  obtain ⟨n, hn, rfl⟩ := mem_map.1 hv
  refine mem_flatMap.2 ⟨i, hi, mem_filterMap.2 ⟨n, hn, ?_⟩⟩
  simp [hm, hq]

/-- A table of geometry is found among declarations of other families. -/
lemma lookup_geometry {others : List Stmt} {c : Cell} {t : GeometryTable}
    (hothers : ∀ x ∈ Stmt.declaresAll others, Family.of x ≠ .geometry)
    (hcode : ∀ u ∈ Stmt.ranksAll code, ∃ (c : Cell) (t : GeometryTable),
      u = (c.name ++ "_" ++ t.name, t.rank))
      (hmem : (c.name ++ "_" ++ t.name, t.rank) ∈ Stmt.ranksAll code) :
    (Stmt.ranksAll (others ++ code)).lookup (c.name ++ "_" ++ t.name) = some t.rank := by
  rw [Stmt.ranksAll_append]
  obtain ⟨n, hn⟩ := Option.isSome_iff_exists.1
    (isSome_lookup_of_mem (mem_append_right (Stmt.ranksAll others) hmem))
  rw [hn]
  -- whatever is found under this name is a table of geometry, and names tell these apart
  rcases mem_append.1 (mem_of_lookup_eq_some hn) with hfound | hfound
  · exact absurd (family_geometry c t) (hothers _ (Stmt.declaresAll_of_mem_ranksAll hfound))
  · obtain ⟨c', t', heq⟩ := hcode _ hfound
    obtain ⟨hname, rfl⟩ := Prod.mk.inj heq
    rw [(geometryName_injective hname).2]

lemma toStmts_append {xs ys : List Operand} (h : Operand.toStmts (xs ++ ys) = .ok code) :
    ∃ before after, Operand.toStmts xs = .ok before ∧ Operand.toStmts ys = .ok after ∧
      code = before ++ after := by
  rw [Kernel.toStmts_eq_mapM, mapM_eq_ok] at h
  obtain ⟨before, after, hbefore, hafter, rfl⟩ := forall₂_append_left h
  refine ⟨before, after, ?_, ?_, rfl⟩
  · rwa [Kernel.toStmts_eq_mapM, mapM_eq_ok]
  · rwa [Kernel.toStmts_eq_mapM, mapM_eq_ok]

lemma toStmts_stmts (h : ∀ s ∈ code, s.isSingle = true) :
    Operand.toStmts (code.map Operand.stmt) = .ok code := by
  induction code with
  | nil => rfl
  | cons s ss ih =>
    rw [forall_mem_cons] at h
    rw [map_cons, Operand.toStmts, Kernel.toStmt_of_isSingle h.1, ih h.2]
    rfl

/-- A quantity is read from the table that is declared for it. -/
def IsDeclaredBy (known : List (Quantity × GeometryTable)) (q : Quantity) : Prop :=
  ∀ x n, cellTableOf q = some (x, n) → ∃ t, (q, t) ∈ known ∧ t.name = x ∧ t.rank = n

/-- All quantities but two are read from the tables that are declared for them. -/
lemma isDeclaredBy_geometryTables (horientation : q ≠ .facetOrientation)
    (hvectors : q ≠ .referenceFacetEdgeVectors) : IsDeclaredBy geometryTables q := by
  intro x n hread
  cases q
  case facetOrientation => exact absurd rfl horientation
  case referenceFacetEdgeVectors => exact absurd rfl hvectors
  all_goals cases hread
  all_goals simp [geometryTables, GeometryTable.name, GeometryTable.rank]

/-- Code that stands after the tables of geometry, where every quantity is read from the table that
    is declared for it. -/
lemma undeclared_eq_nil {known : List (Quantity × GeometryTable)}
    {others geometry rest : List Operand}
    (hdata : data.Shaped) (hgeometry : declareGeometry data known r = .ok geometry)
    (hknown : ∀ p ∈ quantities r, IsDeclaredBy known p.1)
    (hothers : ∀ x ∈ Operand.declaresAll others, Family.of x ≠ .geometry)
    (hsilent : ∀ P, ∀ o ∈ others, o.Fits P) {declared : List String}
    (htables : ∀ x ∈ declared, Family.of x = .table)
    (hrest : ∀ P, CellTablesFit P declared r.vertices → ∀ o ∈ rest, o.Fits P)
    (h : Operand.toStmts (others ++ geometry ++ rest) = .ok code) : undeclared [] code = [] := by
  obtain ⟨tables, after, hfirst, hafter, rfl⟩ := toStmts_append h
  obtain ⟨before, declarations, hbefore, hdeclarations, rfl⟩ := toStmts_append hfirst
  obtain ⟨G, rfl, hG, hmem⟩ := geometry_eq_map hgeometry
  have hsingle : ∀ P, ∀ s ∈ G, s.isSingle = true ∧ s.Fits P := by
    intro P s hs
    obtain ⟨c, t, hs⟩ := hG s hs
    exact uses_declaration hs
  obtain rfl := Except.ok.inj
    ((toStmts_stmts fun s hs => (hsingle (fun _ _ => True) s hs).1).symm.trans hdeclarations)
  have hnames : ∀ u ∈ Stmt.ranksAll G, ∃ (c : Cell) (t : GeometryTable),
      u = (c.name ++ "_" ++ t.name, t.rank) := by
    intro u hu
    obtain ⟨s, hs, hu⟩ := Stmt.mem_ranksAll.1 hu
    obtain ⟨c, t, hs⟩ := hG s hs
    rw [ranks_declaration hdata hs, mem_singleton] at hu
    exact ⟨c, t, hu⟩
  rw [← (Kernel.scopes_toStmts hbefore).1] at hothers
  -- declarations use no names, and what comes after them finds its tables there
  rw [undeclared_append, append_eq_nil_iff, nil_append]
  constructor
  · refine undeclared_of_fits (forall_mem_append.2 ⟨?_, fun s hs => (hsingle _ s hs).2⟩)
    exact Kernel.fits_toStmts (hsilent _) hbefore
  · refine undeclared_of_fits (Kernel.fits_toStmts (hrest _ ⟨htables, ?_, ?_⟩) hafter)
    · intro x n hx hcell
      rw [hx] at hcell
      cases hcell
    · intro v hv m hm q d shape hq x n hread hcell
      have hquantity : (q, .ok d.cell.name) ∈ quantities r := mem_quantities hv hm hq
      obtain ⟨t, ht, rfl, rfl⟩ := hknown _ hquantity x n hread
      obtain ⟨s, hs, hdeclared⟩ := hmem q t d.cell.name ht hquantity
      refine lookup_geometry hothers hnames (Stmt.mem_ranksAll.2 ⟨s, hs, ?_⟩)
      rw [ranks_declaration hdata hdeclared]
      exact mem_singleton_self _

/-! ## Kernels -/

lemma kernel_undeclared {task : KernelTask} (hr : r.Named) (hdata : task.data.Shaped)
    (hknown : ∀ p ∈ quantities r, IsDeclaredBy geometryTables p.1) (h : kernel task r = .ok code) :
    undeclared [] code = [] := by
  obtain ⟨weights, hweights, tables, htables, geometry, hgeometry, rules, hrules, h⟩ :=
    bind₄_eq_ok.1 h
  have hsub : (if task.layout.kind.isCustom = true then
      (tableNames r.tables).filter (isPiecewiseTable r) else tableNames r.tables).Sublist
      (tableNames r.tables) := by split <;> simp
  have hT := (declares_namedTables hr hsub htables).commented [
    "Precomputed values of basis functions and precomputations",
    "FE* dimensions: [permutation][entities][points][dofs]"]
  rw [append_assoc] at h
  refine undeclared_eq_nil hdata hgeometry hknown (fun x hx => ?_) (fun P => ?_)
    (fun x hx => hr.tableNames (hsub.subset hx)) (fun P hfit => ?_) h
  · rw [Operand.declaresAll_append] at hx
    rcases mem_append.1 hx with hx | hx
    · rw [family_weights hweights x hx]
      decide
    · rw [hT.family x hx]
      decide
  · exact forall_mem_append.2
      ⟨fits_declareWeights hweights, Kernel.fits_commented (fits_declareTables htables)⟩
  · have hrules := fits_ruleCode hfit hrules
    exact forall_mem_append.2 ⟨hrules.before, hrules.loops⟩

/-- The tables that the kernel of an expression declares. -/
def pointTables : List (Quantity × GeometryTable) :=
  geometryTables.filter fun t => t.1 == .referenceCellVolume || t.1 == .referenceNormal

lemma isDeclaredBy_pointTables
    (h : q = .referenceCellVolume ∨ q = .referenceNormal ∨ cellTableOf q = none) :
    IsDeclaredBy pointTables q := by
  intro x n hread
  rcases h with rfl | rfl | h
  · obtain ⟨rfl, rfl⟩ := Prod.mk.inj (Option.some.inj hread)
    exact ⟨.referenceCellVolume, mem_cons_self, rfl, rfl⟩
  · obtain ⟨rfl, rfl⟩ := Prod.mk.inj (Option.some.inj hread)
    exact ⟨.referenceFacetNormals, mem_cons_of_mem _ mem_cons_self, rfl, rfl⟩
  · rw [h] at hread
    cases hread

lemma pointKernel_undeclared {task : PointTask} (hr : r.Named) (hdata : task.data.Shaped)
    (hknown : ∀ p ∈ quantities r, IsDeclaredBy pointTables p.1)
    (h : pointKernel task r = .ok code) : undeclared [] code = [] := by
  obtain ⟨i, tables, geometry, before, varying, v, v', rule, blocks, loop, hi, htables, hgeometry,
    hbefore, hvarying, hblocks, hloop, h⟩ := pointKernel_eq_ok h
  obtain ⟨_, -, hgeometry⟩ := bind_eq_ok.1 hgeometry
  have hmem : i ∈ r.integrands := hi ▸ mem_singleton_self i
  have hT := (declares_namedTables hr (.refl _) htables).commented [
    "Precomputed values of basis functions", "FE* dimensions: [entities][points][dofs]"]
  rw [append_assoc] at h
  refine undeclared_eq_nil hdata hgeometry hknown (fun x hx => ?_) (fun P => ?_)
    (fun x hx => hr.tableNames hx) (fun P hfit => ?_) h
  · rw [hT.family x hx]
    decide
  · exact Kernel.fits_commented (fits_declareTables htables)
  · have hfit := hfit.subset fun x hx => mem_flatMap.2 ⟨i, hmem, hx⟩
    obtain ⟨hv, hbefore⟩ := fits_pointPartition .empty hfit
      (fun k => by rw [Family.of, toString, instToStringString, String.toList_append]; rfl) hbefore
    obtain ⟨hv', hvarying⟩ := fits_pointPartition hv hfit
      (family_numbered (.inr rfl)) hvarying
    have hbody : ∀ o ∈ blocks.flatten, o.Fits P := by
      intro o ho
      obtain ⟨part, hpart, ho⟩ := mem_flatten.1 ho
      obtain ⟨b, hb, hpart⟩ := exists_of_forall₂_right hblocks hpart
      obtain ⟨⟨map, bs⟩, hbs, hb⟩ := mem_flatMap.1 hb
      obtain ⟨block, hblock, rfl⟩ := mem_map.1 hb
      refine fits_pointBlock hfit hv' (fun a ha => ?_) hpart o ho
      exact hr.refers i hmem _ (.inr ⟨_, mem_mergeSort.1 hbs, block, hblock, a, ha, rfl⟩)
    refine forall_mem_append.2 ⟨Kernel.fits_commented hbefore, ?_⟩
    rcases hloop with ⟨-, rfl⟩ | ⟨s, rfl, hs⟩
    · exact forall_mem_nil _
    · refine forall_mem_singleton.2 (Kernel.fits_ofLoop
        (Kernel.Expr.fits_symbol.2 (hfit.isLocal rfl 0)) (Binding.fits_int _)
        (Binding.fits_int _) ?_ hs)
      exact forall_mem_append.2
        ⟨Kernel.fits_commented (Kernel.fits_commented hvarying), hbody⟩

/-- Every table of a reference cell that a kernel uses is declared before, under the name and with
    the number of dimensions that it is used with.  Kernels of integrals read the orientation of
    facets and the vectors along the edges of facets under other names, and kernels of expressions
    declare the volume of the cell and the normals of its facets only. -/
theorem geometry_declared {task : Task} {integrands : List (Rule × Expr)} {r : Representation}
    (hr : represent task integrands = .ok r) :
    (∀ (kernelTask : KernelTask) (code : List Stmt), kernelTask.data.Shaped →
      (∀ p ∈ quantities r, p.1 ≠ .facetOrientation ∧ p.1 ≠ .referenceFacetEdgeVectors) →
      kernel kernelTask r = .ok code → undeclared [] code = []) ∧
    ∀ (pointTask : PointTask) (code : List Stmt), pointTask.data.Shaped →
      (∀ p ∈ quantities r,
        p.1 = .referenceCellVolume ∨ p.1 = .referenceNormal ∨ cellTableOf p.1 = none) →
      pointKernel pointTask r = .ok code → undeclared [] code = [] := by
  have hnamed := named_represent hr
  refine ⟨fun kernelTask code hdata hquantities h => ?_,
    fun pointTask code hdata hquantities h => ?_⟩
  · refine kernel_undeclared hnamed hdata (fun p hp => isDeclaredBy_geometryTables ?_ ?_) h
    · exact (hquantities p hp).1
    · exact (hquantities p hp).2
  · refine pointKernel_undeclared hnamed hdata (fun p hp => ?_) h
    exact isDeclaredBy_pointTables (hquantities p hp)

/-! ### Reference triangles and tetrahedra -/

/-- The reference triangle with its facets, and a tetrahedron. -/
def simplexData : CellData where
  topology := [("triangle", [[[0], [1], [2]], [[1, 2], [0, 2], [0, 1]], [[0, 1, 2]]]),
    ("quadrilateral", [[[0], [1], [2], [3]], [[0, 1], [0, 2], [1, 3], [2, 3]], [[0, 1, 2, 3]]]),
    ("tetrahedron", [[[0], [1], [2], [3]], [[2, 3], [1, 3], [1, 2], [0, 3], [0, 2], [0, 1]],
      [[1, 2, 3], [0, 2, 3], [0, 1, 3], [0, 1, 2]], [[0, 1, 2, 3]]])]
  geometry := [("triangle", ⟨[3, 2], #[0.0, 0.0, 1.0, 0.0, 0.0, 1.0]⟩),
    ("tetrahedron", ⟨[4, 3], #[0.0, 0.0, 0.0, 1.0, 0.0, 0.0, 0.0, 1.0, 0.0, 0.0, 0.0, 1.0]⟩)]
  volume := [("triangle", 0.5)]
  facetNormals := [("triangle", ⟨[3, 2], #[0.5, 0.5, -1.0, 0.0, 0.0, -1.0]⟩)]
  facetOrientations := [("triangle", ⟨[3], #[0.0, 1.0, 0.0]⟩)]

def quantityOn (cell : Cell) (q : Quantity) (shape : List Nat) (component : List Int) : Expr :=
  let mesh : Domain := { id := 0, cell, gdim := 3, coordinate := none }
  if shape.isEmpty then .terminal (.quantity q (some mesh) [])
  else .operator .indexed [.terminal (.quantity q (some mesh) shape),
    .terminal (.multiIndex (component.map .fixed))] [] [] []

def facetTask (cell : Cell) : Task where
  data := simplexData
  cell := some cell
  kind := .exteriorFacet
  entity := .facet
  rank := 0
  comparison := .exact

/-- The task of writing the kernel of an integral over facets. -/
def facetKernel : KernelTask where
  data := simplexData
  layout := { kind := .exteriorFacet, entity := .facet }
  shape := []

/-- The task of writing the kernel that evaluates an expression on entities of some kind. -/
def facetPoints (entity : Form.EntityKind) : PointTask where
  data := simplexData
  layout := { kind := .expression, entity }
  shape := []
  valueShape := []

/-- A rule with one point in the middle of an edge. -/
def midpoint : Rule where
  points := ⟨[1, 1], #[0.5]⟩
  weights := ⟨[1], #[1.0]⟩

/-- The volume of the cell times a component of the normal of the facet. -/
def facetFlux : List (Rule × Expr) :=
  [(midpoint, .operator .product [quantityOn .triangle .referenceCellVolume [] [],
    quantityOn .triangle .referenceNormal [2] [1]] [] [] [])]

/-- The volume and the normals are tables that are declared as they are used, where their product is
    integrated and where it is evaluated. -/
theorem geometry_declared_facetFlux :
    ∃ r integral point, represent (facetTask .triangle) facetFlux = .ok r ∧
      kernel facetKernel r = .ok integral ∧ pointKernel (facetPoints .facet) r = .ok point ∧
      (∀ u ∈ [("triangle_reference_cell_volume", 0), ("triangle_reference_facet_normals", 2)],
        u ∈ Stmt.usesAll integral ∧ u ∈ Stmt.usesAll point) ∧
      undeclared [] integral = [] ∧ undeclared [] point = [] := by
  have hdata : simplexData.Shaped := by
    constructor <;> decide
  have hrun : (represent (facetTask .triangle) facetFlux).toOption.any (fun r =>
      ((quantities r).map (·.1) == [.referenceCellVolume, .referenceNormal]) &&
      (kernel facetKernel r).toOption.any fun integral =>
      (pointKernel (facetPoints .facet) r).toOption.any fun point =>
      [("triangle_reference_cell_volume", 0), ("triangle_reference_facet_normals", 2)].all fun u =>
        (Stmt.usesAll integral).elem u && (Stmt.usesAll point).elem u) = true := by
    decide +kernel
  obtain ⟨r, hr, hrun⟩ := any_toOption.1 hrun
  obtain ⟨hquantities, hrun⟩ := Bool.and_eq_true_iff.1 hrun
  obtain ⟨integral, hintegral, hrun⟩ := any_toOption.1 hrun
  obtain ⟨point, hpoint, huses⟩ := any_toOption.1 hrun
  have hq : ∀ p ∈ quantities r, p.1 = .referenceCellVolume ∨ p.1 = .referenceNormal := by
    intro p hp
    have hmem := List.mem_map_of_mem (f := (·.1)) hp
    rw [eq_of_beq hquantities] at hmem
    simpa using hmem
  refine ⟨r, integral, point, hr, hintegral, hpoint, fun u hu => ?_, ?_, ?_⟩
  · simpa using List.all_eq_true.1 huses u hu
  · refine (geometry_declared hr).1 _ _ hdata (fun p hp => ?_) hintegral
    rcases hq p hp with h | h <;> rw [h] <;> decide
  · exact (geometry_declared hr).2 _ _ hdata (fun p hp => (hq p hp).imp_right .inl) hpoint

/-- The orientation of facets and the vectors along their edges are read under other names than
    those that they are declared under, and the vectors along edges of the cell are not declared
    where they are evaluated. -/
theorem geometry_undeclared :
    (∃ r code, represent (facetTask .triangle)
        [(midpoint, quantityOn .triangle .facetOrientation [] [])] = .ok r ∧
      kernel facetKernel r = .ok code ∧ ("triangle_facet_orientation", 1) ∈ Stmt.ranksAll code ∧
      undeclared [] code = [("triangle_facet_orientations", 1)]) ∧
    (∃ r code, represent (facetTask .tetrahedron)
        [(midpoint, quantityOn .tetrahedron .referenceFacetEdgeVectors [3, 3] [1, 2])] = .ok r ∧
      kernel facetKernel r = .ok code ∧
      ("tetrahedron_facet_reference_edge_vectors", 2) ∈ Stmt.ranksAll code ∧
      undeclared [] code = [("tetrahedron_reference_edge_vectors", 3)]) ∧
    ∃ r code, represent (facetTask .triangle)
        [(midpoint, quantityOn .triangle .referenceCellEdgeVectors [3, 2] [1, 0])] = .ok r ∧
      pointKernel (facetPoints .cell) r = .ok code ∧
      undeclared [] code = [("triangle_reference_edge_vectors", 2)] := by
  refine ⟨?_, ?_, ?_⟩
  · have hrun : (represent (facetTask .triangle)
        [(midpoint, quantityOn .triangle .facetOrientation [] [])]).toOption.any (fun r =>
        (kernel facetKernel r).toOption.any fun code =>
          decide (("triangle_facet_orientation", 1) ∈ Stmt.ranksAll code ∧
            undeclared [] code = [("triangle_facet_orientations", 1)])) = true := by
      decide +kernel
    obtain ⟨r, hr, hrun⟩ := any_toOption.1 hrun
    obtain ⟨code, hcode, hrun⟩ := any_toOption.1 hrun
    exact ⟨r, code, hr, hcode, of_decide_eq_true hrun⟩
  · have hrun : (represent (facetTask .tetrahedron)
        [(midpoint, quantityOn .tetrahedron .referenceFacetEdgeVectors [3, 3] [1, 2])]).toOption.any
        (fun r => (kernel facetKernel r).toOption.any fun code =>
          decide (("tetrahedron_facet_reference_edge_vectors", 2) ∈ Stmt.ranksAll code ∧
            undeclared [] code = [("tetrahedron_reference_edge_vectors", 3)])) = true := by
      decide +kernel
    obtain ⟨r, hr, hrun⟩ := any_toOption.1 hrun
    obtain ⟨code, hcode, hrun⟩ := any_toOption.1 hrun
    exact ⟨r, code, hr, hcode, of_decide_eq_true hrun⟩
  · have hrun : (represent (facetTask .triangle)
        [(midpoint, quantityOn .triangle .referenceCellEdgeVectors [3, 2] [1, 0])]).toOption.any
        (fun r => (pointKernel (facetPoints .cell) r).toOption.any fun code =>
          decide (undeclared [] code = [("triangle_reference_edge_vectors", 2)])) = true := by
      decide +kernel
    obtain ⟨r, hr, hrun⟩ := any_toOption.1 hrun
    obtain ⟨code, hcode, hrun⟩ := any_toOption.1 hrun
    exact ⟨r, code, hr, hcode, of_decide_eq_true hrun⟩

end FormKernel.Integral
