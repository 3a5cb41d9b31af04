import FormKernel.Binding.Definition
import FormKernel.Proofs.Binding.VariableName
import FormKernel.Proofs.Kernel.Uses

/-!
# Names that terminals use

The value of a terminal is read from an argument of the kernel, from the variable that its
definition computes, or from a table of the reference cell.  A definition reads an argument of the
kernel and tables of basis functions.
-/

namespace FormKernel.Binding

open Form (Domain Element EntityKind ModifiedTerminal Quantity Side)
open Kernel (Expr MultiIndex Operand Stmt Symbol fits_apply fits_toExprs)
open Quadrature (Rule)
open Table (TableRef)
open List

variable {P : String → Nat → Prop}

/-! ## Items -/

variable {e : Expr} {os : List Operand} {s : Symbol}

/-- An item has the indices that are put on in turn. -/
lemma exists_of_item (h : item s os = .ok e) :
    (os = [] ∧ e = .symbol s) ∨ ∃ is, os.mapM Operand.toExpr = .ok is ∧ e = .access s is := by
  refine foldlM_prefix (fun os e => (os = [] ∧ e = .symbol s) ∨
    ∃ is, os.mapM Operand.toExpr = .ok is ∧ e = .access s is) (.inl ⟨rfl, rfl⟩) ?_ h
  rintro past o rest e e' - hpast hstep
  refine .inr ?_
  rcases hpast with ⟨rfl, rfl⟩ | ⟨is, his, rfl⟩
  · obtain ⟨is, his, hstep⟩ := bind_eq_ok.1 hstep
    exact ⟨is, his, (pure_eq_ok.1 hstep).symm⟩
  · obtain ⟨js, hjs, hstep⟩ := bind_eq_ok.1 hstep
    cases hstep
    refine ⟨js, ?_, rfl⟩
    rw [mapM_eq_ok] at hjs his ⊢
    obtain ⟨us, vs, hus, hvs, rfl⟩ := forall₂_append_left hjs
    rw [forall₂_map_left_iff] at hus
    have hsame : Forall₂ Eq is us := hus.imp fun _ _ hxy => Except.ok.inj hxy
    rw [forall₂_eq_eq_eq] at hsame
    subst hsame
    exact rel_append his hvs

/-- An item uses its array with as many indices as are put on. -/
lemma fits_item (hs : P s.name os.length) (hos : ∀ o ∈ os, o.Fits P) (h : item s os = .ok e) :
    e.Fits P := by
  rcases exists_of_item h with ⟨rfl, rfl⟩ | ⟨is, his, rfl⟩
  · exact Expr.fits_symbol.2 hs
  · refine Expr.fits_access.2 ⟨?_, fits_toExprs hos his⟩
    rwa [← (mapM_eq_ok.1 his).length_eq]

lemma fits_int (n : Int) : (Operand.int n).Fits P := Operand.fits_number _

variable {o : Operand}

lemma fits_single (hs : P s.name 1) (ho : o.Fits P) (h : item s [o] = .ok e) : e.Fits P :=
  fits_item hs (forall_mem_singleton.2 ho) h

lemma fits_return {x : Outcome Expr} (hx : ∀ e, x = .ok e → e.Fits P)
    (h : (do return Operand.expr (← x)) = .ok o) : o.Fits P := by
  obtain ⟨e, he, h⟩ := bind_eq_ok.1 h
  cases h
  exact hx e he

/-! ## Values of terminals -/

/-- The table of the reference cell that a quantity is read from, and how many indices it is read
    with. -/
def cellTableOf : Quantity → Option (String × Nat)
  | .facetEdgeVectors => some ("facet_edge_vertices", 3)
  | .referenceCellVolume => some ("reference_cell_volume", 0)
  | .referenceFacetVolume => some ("reference_facet_volume", 0)
  | .referenceNormal => some ("reference_facet_normals", 2)
  | .cellFacetJacobian => some ("reference_facet_jacobian", 3)
  | .referenceCellEdgeVectors => some ("reference_edge_vectors", 2)
  | .referenceFacetEdgeVectors => some ("reference_edge_vectors", 3)
  | .facetOrientation => some ("facet_orientations", 1)
  | _ => none

/-- A property holds of the arguments of a kernel that values of terminals are read from. -/
structure ArgumentsFit (P : String → Nat → Prop) : Prop where
  coordinates : P coordinateDofs.name 1
  entity : P entityLocalIndex.name 1
  coefficients : P coefficients.name 1
  constants : P constants.name 1

section Access

variable {l : Layout} {m : ModifiedTerminal} {side : Option Side} {table : Option TableRef}

lemma fits_entityNumber {entity : EntityKind} (hentity : P entityLocalIndex.name 1)
    (h : entityNumber entity side = .ok o) : o.Fits P := by
  unfold entityNumber at h
  split at h
  · cases h
    exact Expr.fits_of_uses_eq_nil rfl
  · exact fits_return (fun _ => fits_single hentity (fits_int _)) h
  · exact fits_return (fun _ => fits_single hentity (fits_int _)) h
  · cases h
    simp [Operand.Fits, Operand.uses]

lemma fits_coordinateDof {dof component : Operand} {dofs : Int} {e : Expr}
    (hcoordinates : P coordinateDofs.name 1) (hdof : dof.Fits P) (hcomponent : component.Fits P)
    (h : coordinateDof dof component dofs side = .ok e) : e.Fits P := by
  obtain ⟨a, ha, b, hb, place, hplace, h⟩ := bind₃_eq_ok.1 h
  refine fits_single hcoordinates ?_ h
  exact fits_apply (fits_apply (fits_apply (fits_int 3) hdof ha) hcomponent hb) (fits_int _) hplace

lemma fits_nodeDifference {a b : Operand} {component : Int} {dofs : Nat}
    (hcoordinates : P coordinateDofs.name 1) (ha : a.Fits P) (hb : b.Fits P)
    (h : nodeDifference a b component dofs side = .ok o) : o.Fits P := by
  obtain ⟨x, hx, y, hy, h⟩ := bind₂_eq_ok.1 h
  exact fits_apply (Operand.fits_expr (fits_coordinateDof hcoordinates ha (fits_int _) hx))
    (Operand.fits_expr (fits_coordinateDof hcoordinates hb (fits_int _) hy)) h

lemma fits_vertexDof {scalar : Element} {vertex : Int} (h : vertexDof scalar vertex = .ok o) :
    o.Fits P := by
  obtain ⟨_, -, _, -, _, -, h⟩ := bind₃_eq_ok.1 h
  cases h
  exact fits_int _

/-- A table that is read by component, with the number of the facet in front if it is read by
    facet. -/
lemma fits_referenceAccess {name : String} {byFacet : Bool} {rank : Nat}
    (hentity : P entityLocalIndex.name 1) (htable : ∀ d, m.terminal.domain? = some d →
      P (d.cell.name ++ "_" ++ name) (if byFacet then rank + 1 else rank))
    (h : referenceAccess m name byFacet rank = .ok o) : o.Fits P := by
  obtain ⟨d, hd, h⟩ := bind_eq_ok.1 h
  have htable := htable d (orMisfit_eq_ok.1 hd)
  have hrest : ∀ facet : List Operand, (∀ o ∈ facet, o.Fits P) →
      P (d.cell.name ++ "_" ++ name) (facet.length + rank) → (do
      let components ← (range rank).mapM fun k => do
        return Operand.int (← componentAt m k)
      return Operand.expr (← cellTable d.cell name .real (facet ++ components))) = .ok o →
      o.Fits P := by
    intro facet hfacet hname h
    obtain ⟨components, hcomponents, e, he, h⟩ := bind₂_eq_ok.1 h
    cases h
    have hlength : components.length = rank := by
      rw [← (mapM_eq_ok.1 hcomponents).length_eq, length_range]
    refine fits_item ?_ (forall_mem_append.2 ⟨hfacet, ?_⟩) he
    · rwa [length_append, hlength]
    · intro o ho
      obtain ⟨k, -, hk⟩ := exists_of_mapM hcomponents ho
      obtain ⟨n, -, hk⟩ := bind_eq_ok.1 hk
      cases hk
      exact fits_int n
  dsimp only at h
  cases byFacet with
  | true =>
    obtain ⟨number, hnumber, h⟩ := bind_eq_ok.1 h
    refine hrest [number] (forall_mem_singleton.2 (fits_entityNumber hentity hnumber)) ?_ h
    rwa [length_singleton, Nat.add_comm]
  | false => exact hrest [] (forall_mem_nil _) (by rw [length_nil, Nat.zero_add]; exact htable) h

lemma fits_coefficientAccess (hcoefficients : P coefficients.name 1)
    (hvariable : ∀ s, coefficientVariable l m = .ok s → P s.name 0)
    (h : coefficientAccess l m table = .ok o) : o.Fits P := by
  cases table with
  | none => cases h
  | some t =>
    obtain ⟨_, -, dofs, -, h⟩ := bind₂_eq_ok.1 h
    split at h
    · refine fits_return (fun e he => ?_) h
      obtain ⟨offset, -, place, hplace, he⟩ := bind₂_eq_ok.1 he
      exact fits_single hcoefficients (fits_apply (fits_int _) (fits_int _) hplace) he
    · obtain ⟨s, hs, h⟩ := bind_eq_ok.1 h
      cases h
      exact Expr.fits_symbol.2 (hvariable s hs)

lemma fits_coordinateAccess
    (hpoints : l.kind.isCustom = true → P givenPoints.name 1 ∧ P pointIndex.name 0)
    (hvariable : ∀ s, coordinateVariable m = .ok s → P s.name 0)
    (h : coordinateAccess l m = .ok o) : o.Fits P := by
  rw [coordinateAccess] at h
  obtain ⟨-, h⟩ := ite_throw_eq_ok h
  obtain ⟨-, h⟩ := ite_throw_eq_ok h
  dsimp only at h
  split at h
  · next hcustom =>
    obtain ⟨hpoints, hindex⟩ := hpoints hcustom
    have hpoint : (Operand.expr (.symbol pointIndex)).Fits P := Expr.fits_symbol.2 hindex
    obtain ⟨-, h⟩ := ite_throw_eq_ok h
    obtain ⟨gdim, -, h⟩ := bind_eq_ok.1 h
    split at h
    · exact fits_return (fun _ => fits_single hpoints hpoint) h
    · obtain ⟨a, ha, index, hindex, h⟩ := bind₂_eq_ok.1 h
      have hindex := fits_apply (fits_apply hpoint (fits_int _) ha) (fits_int _) hindex
      exact fits_return (fun _ => fits_single hpoints hindex) h
  · obtain ⟨s, hs, h⟩ := bind_eq_ok.1 h
    cases h
    exact Expr.fits_symbol.2 (hvariable s hs)

lemma fits_vertexAccess (hcoordinates : P coordinateDofs.name 1) (h : vertexAccess m = .ok o) :
    o.Fits P := by
  obtain ⟨d, -, ⟨_, scalar⟩, -, _, -, _, -, dof, hdof, h⟩ := bind₅_eq_ok.1 h
  obtain ⟨_, -, e, he, h⟩ := bind₂_eq_ok.1 h
  cases h
  exact fits_coordinateDof hcoordinates (fits_vertexDof hdof) (fits_int _) he

lemma fits_cellEdgeAccess (hcoordinates : P coordinateDofs.name 1) (h : cellEdgeAccess m = .ok o) :
    o.Fits P := by
  obtain ⟨d, -, h⟩ := bind_eq_ok.1 h
  dsimp only at h
  split at h
  case h_5 | h_6 =>
    exact absurd h (by simp [throw, throwThe, MonadExceptOf.throw, bind, Except.bind])
  -- whatever cell with edges it is
  all_goals
    obtain ⟨⟨_, scalar⟩, -, _, -, _, -, _, -, ends, -, h⟩ := bind₅_eq_ok.1 h
    split at h
    · obtain ⟨a, ha, b, hb, _, -, h⟩ := bind₃_eq_ok.1 h
      exact fits_nodeDifference hcoordinates (fits_vertexDof ha) (fits_vertexDof hb) h
    · cases h

lemma fits_facetEdgeAccess (hgiven : ArgumentsFit P)
    (htable : ∀ d, m.terminal.domain? = some d → P (d.cell.name ++ "_" ++ "facet_edge_vertices") 3)
    (h : facetEdgeAccess m = .ok o) : o.Fits P := by
  obtain ⟨d, hd, h⟩ := bind_eq_ok.1 h
  have htable := htable d (orMisfit_eq_ok.1 hd)
  dsimp only at h
  split at h
  case h_3 | h_4 | h_5 | h_6 =>
    exact absurd h (by simp [throw, throwThe, MonadExceptOf.throw, bind, Except.bind])
  all_goals
    obtain ⟨⟨element, scalar⟩, -, facet, hfacet, edge, -, v, hv, w, hw, h⟩ := bind₅_eq_ok.1 h
    obtain ⟨component, -, h⟩ := bind_eq_ok.1 h
    obtain ⟨-, h⟩ := ite_throw_eq_ok h
    have hindices : ∀ k : Int, ∀ o ∈ [facet, .int edge, .int k], o.Fits P := by
      intro k
      simpa using ⟨fits_entityNumber hgiven.entity hfacet, fits_int edge, fits_int k⟩
    exact fits_nodeDifference hgiven.coordinates
      (Operand.fits_expr (fits_item htable (hindices 0) hv))
      (Operand.fits_expr (fits_item htable (hindices 1) hw)) h

variable {rule : Option Rule}

lemma fits_quantity {q : Quantity} {d : Option Domain} {shape : List Nat} (hgiven : ArgumentsFit P)
    (hpoints : l.kind.isCustom = true → P givenPoints.name 1 ∧ P pointIndex.name 0)
    (hvariable : ∀ s, variableOf l m = .ok s → P s.name 0)
    (hterminal : m.terminal = .quantity q d shape)
    (htable : ∀ c, d = some c → ∀ x n, cellTableOf q = some (x, n) → P (c.cell.name ++ "_" ++ x) n)
    (h : access l m table rule = .ok o) : o.Fits P := by
  have hdomain : ∀ c, m.terminal.domain? = some c → d = some c := by
    rw [hterminal]
    exact fun _ hc => hc
  rw [access, hterminal] at h
  rw [variableOf, hterminal] at hvariable
  cases q
  case jacobian =>
    dsimp only at h
    split at h
    · cases h
    · obtain ⟨s, hs, h⟩ := bind_eq_ok.1 h
      cases h
      exact Expr.fits_symbol.2 (hvariable s hs)
  case spatialCoordinate => exact fits_coordinateAccess hpoints hvariable h
  case cellCoordinate =>
    change cellCoordinateAccess l m rule = .ok o at h
    rw [cellCoordinateAccess] at h
    obtain ⟨-, h⟩ := ite_throw_eq_ok h
    obtain ⟨-, h⟩ := ite_throw_eq_ok h
    dsimp only at h
    split at h
    · obtain ⟨_, -, _, -, h⟩ := bind₂_eq_ok.1 h
      exact absurd h (by simp [misfit, bind, Except.bind])
    · cases h
  case facetCoordinate =>
    change facetCoordinateAccess l m = .ok o at h
    rw [facetCoordinateAccess] at h
    obtain ⟨-, h⟩ := ite_throw_eq_ok h
    obtain ⟨-, h⟩ := ite_throw_eq_ok h
    obtain ⟨-, h⟩ := ite_throw_eq_ok h
    dsimp only at h
    split at h
    · obtain ⟨n, -, h⟩ := bind_eq_ok.1 h
      split at h
      · exact absurd h (by simp [throw, throwThe, MonadExceptOf.throw, bind, Except.bind])
      · cases h
        exact Expr.fits_of_uses_eq_nil rfl
      · exact absurd h (by simp [misfit, bind, Except.bind])
    · cases h
  case cellVertices => exact fits_vertexAccess hgiven.coordinates h
  case cellEdgeVectors => exact fits_cellEdgeAccess hgiven.coordinates h
  case facetEdgeVectors =>
    exact fits_facetEdgeAccess hgiven (fun c hc => htable c (hdomain c hc) _ _ rfl) h
  case cellOrientation =>
    cases h
    exact fits_int 1
  case facetOrientation =>
    obtain ⟨c, hc, h⟩ := bind_eq_ok.1 h
    have htable := htable c (hdomain c (orMisfit_eq_ok.1 hc)) _ _ rfl
    split at h
    all_goals first
      | exact absurd h throw_ne_ok
      | (obtain ⟨number, hnumber, h⟩ := bind_eq_ok.1 h
         exact fits_return
           (fun _ => fits_single htable (fits_entityNumber hgiven.entity hnumber)) h)
  case referenceCellVolume | referenceFacetVolume | referenceNormal =>
    obtain ⟨_, -, h⟩ := bind_eq_ok.1 h
    split at h
    · exact fits_referenceAccess hgiven.entity (fun c hc => htable c (hdomain c hc) _ _ rfl) h
    · cases h
  case cellFacetJacobian | referenceCellEdgeVectors | referenceFacetEdgeVectors =>
    obtain ⟨_, -, h⟩ := bind_eq_ok.1 h
    split at h
    all_goals first
      | exact fits_referenceAccess hgiven.entity (fun c hc => htable c (hdomain c hc) _ _ rfl) h
      | exact absurd h throw_ne_ok
  all_goals exact absurd h throw_ne_ok

/-- The names that the value of a terminal uses. -/
lemma fits_access (hgiven : ArgumentsFit P)
    (hpoints : l.kind.isCustom = true → P givenPoints.name 1 ∧ P pointIndex.name 0)
    (hvariable : ∀ s, variableOf l m = .ok s → P s.name 0)
    (htable : ∀ q d shape, m.terminal = .quantity q (some d) shape → ∀ x n,
      cellTableOf q = some (x, n) → P (d.cell.name ++ "_" ++ x) n)
      (h : access l m table rule = .ok o) :
    o.Fits P := by
  have haccess := h
  rw [access] at h
  cases hterminal : m.terminal with
  | coefficient =>
    rw [hterminal] at h
    exact fits_coefficientAccess hgiven.coefficients
      (fun s hs => hvariable s (by rw [variableOf, hterminal]; exact hs)) h
  | constant =>
    rw [hterminal] at h
    refine fits_return (fun e he => ?_) h
    obtain ⟨offset, -, he⟩ := bind_eq_ok.1 he
    exact fits_single hgiven.constants (fits_int _) he
  | quantity q d shape =>
    exact fits_quantity hgiven hpoints hvariable hterminal
      (fun c hc => htable q c shape (by rw [hterminal, hc])) haccess
  | _ =>
    rw [hterminal] at h
    cases h

end Access

/-! ## Tables and loop indices -/

/-- A property holds of a loop index, and of the indices that count the factors of a product. -/
def IndexFits (P : String → Nat → Prop) (name : String) : Prop :=
  P name 0 ∧ ∀ k : Nat, P s!"{name}{k}" 0

/-- A property holds of all names that code reads beside variables: the arguments of a kernel, the
    indices of its loops and tables of basis functions. -/
structure NamesFit (P : String → Nat → Prop) (declared : List String) : Prop extends
    ArgumentsFit P where
  permutation : P pointPermutation.name 1
  point : IndexFits P pointIndex.name
  dof : IndexFits P dofSumIndex.name
  tables : ∀ x ∈ declared, ∀ n, P x n

section Definitions

variable {declared : List String} {m : MultiIndex} {name : String} {t : TableRef}
  {table : Option TableRef} {sizes : List Int} {side : Option Side} {dof point : MultiIndex}

lemma fits_indices (hname : IndexFits P name) {n : Nat}
    (h : MultiIndex.ofExprs ((range n).map fun i =>
      .symbol ⟨s!"{name}{i}", some .int⟩) sizes = .ok m) : m.Fits P := by
  refine Kernel.fits_ofExprs (fun e he => ?_) h
  obtain ⟨k, -, rfl⟩ := mem_map.1 he
  exact Expr.fits_symbol.2 (hname.2 k)

lemma fits_index (hname : IndexFits P name)
    (h : MultiIndex.ofExprs [.symbol ⟨name, some .int⟩] sizes = .ok m) : m.Fits P :=
  Kernel.fits_ofExprs (forall_mem_singleton.2 (Expr.fits_symbol.2 hname.1)) h

lemma fits_ruleIndex {rule : Option Rule} (hname : IndexFits P name)
    (h : ruleIndex rule name = .ok m) : m.Fits P := by
  rw [ruleIndex.eq_def] at h
  dsimp only at h
  split at h
  · exact fits_index hname h
  · split at h
    · exact fits_index hname h
    · exact fits_indices hname h

lemma fits_dofIndex (hname : IndexFits P name) (h : dofIndex t name = .ok m) : m.Fits P := by
  rw [dofIndex.eq_def] at h
  dsimp only at h
  split at h
  · obtain ⟨dofs, -, h⟩ := bind_eq_ok.1 h
    exact fits_index hname h
  · obtain ⟨sizes, -, h⟩ := bind_eq_ok.1 h
    exact fits_indices hname h

lemma fits_permutationNumber (hpermutation : P pointPermutation.name 1)
    (h : permutationNumber t side = .ok o) : o.Fits P := by
  rw [permutationNumber] at h
  split at h
  · exact fits_return (fun _ => fits_single hpermutation (fits_int _)) h
  · cases h
    exact fits_int 0

lemma fits_factorAccess {permutation entity : Operand} {i : Nat} {p : Expr × Symbol}
    (htables : ∀ x ∈ declared, ∀ n, P x n) (hpermutation : permutation.Fits P)
    (hentity : entity.Fits P) (hpoint : point.Fits P) (hdof : dof.Fits P)
    (h : factorAccess declared t permutation entity point dof i = .ok p) : p.1.Fits P := by
  rw [factorAccess] at h
  split at h
  · cases h
  · split at h
    · cases h
    · next f _ =>
      obtain ⟨iq, hiq, ic, hic, h⟩ := bind₂_eq_ok.1 h
      dsimp only at h
      split at h
      · exact absurd h (by simp [misfit, bind, Except.bind])
      · next hdeclared =>
        obtain ⟨e, he, h⟩ := bind_eq_ok.1 h
        cases h
        refine fits_item (htables f.name (by simpa using hdeclared) _) ?_ he
        simpa using
          ⟨hpermutation, hentity, hpoint.localIndex hiq, hdof.localIndex hic⟩

lemma fits_tableAccess {entity : EntityKind} {e : Expr} {tables : List Symbol}
    (hnames : NamesFit P declared) (hpoint : point.Fits P) (hdof : dof.Fits P)
    (h : tableAccess declared t entity side point dof = .ok (e, tables)) : e.Fits P := by
  obtain ⟨number, hnumber, permutation, hpermutation, h⟩ := bind₂_eq_ok.1 h
  have hpermutation := fits_permutationNumber hnames.permutation hpermutation
  have hnumber : (if t.uniform then .expr (.int (.int 0)) else number : Operand).Fits P := by
    split
    · exact Expr.fits_of_uses_eq_nil rfl
    · exact fits_entityNumber hnames.entity hnumber
  dsimp only at h
  split at h
  · obtain ⟨symbol, hsymbol, h⟩ := bind_eq_ok.1 h
    split at h
    · exact absurd h (by simp [misfit, bind, Except.bind])
    · next hdeclared =>
      obtain ⟨e, he, h⟩ := bind_eq_ok.1 h
      obtain ⟨rfl, -⟩ := Prod.mk.inj (pure_eq_ok.1 h)
      have hname : ∀ n, P symbol.name n := by
        rw [name_symbolOf hsymbol]
        exact hnames.tables t.name (by simpa using hdeclared)
      refine fits_item (hname _) ?_ he
      have hiq : (if t.piecewise then .int (.int 0) else point.flat : Expr).Fits P := by
        split
        · exact Expr.fits_of_uses_eq_nil rfl
        · exact hpoint.flat
      simpa using ⟨hpermutation, hnumber, hiq, hdof.flat⟩
  · obtain ⟨parts, hparts, e, he, h⟩ := bind₂_eq_ok.1 h
    obtain ⟨rfl, -⟩ := Prod.mk.inj (pure_eq_ok.1 h)
    refine Kernel.fits_ofNary (fun e he => ?_) he
    obtain ⟨p, hp, rfl⟩ := mem_map.1 he
    obtain ⟨i, -, hp⟩ := exists_of_mapM hparts hp
    exact fits_factorAccess hnames.tables hpermutation hnumber hpoint hdof hp

/-! ## Definitions -/

lemma fits_sumSection {value : Operand} {dof table : Expr} {index : MultiIndex}
    {input : List Symbol}
    {s : Stmt} (hvalue : value.Fits P) (hdof : dof.Fits P) (htable : table.Fits P)
    (hindex : index.Fits P)
    (h : sumSection name value dof table index input = .ok s) : s.Fits P := by
  obtain ⟨v, hv, declaration, hdeclaration, term, hterm, e, he, loops, hloops, h⟩ := bind₅_eq_ok.1 h
  have hv : (Expr.symbol v).Fits P := by
    rw [symbolOf.eq_def] at hv
    split at hv
    · cases hv
      exact hvalue
    · cases hv
  have hterm := fits_apply (Operand.fits_expr hdof) (Operand.fits_expr htable) hterm
  refine Kernel.fits_ofPart (forall_mem_singleton.2 ?_) (forall_mem_singleton.2 ?_) h
  · refine Kernel.fits_nestedLoops (forall_mem_singleton.2 hindex)
      (Operand.fits_list.2 (forall_mem_singleton.2 ?_)) hloops
    exact Operand.fits_expr (Expr.fits_assign.2 ⟨hv, hterm.toExpr he⟩)
  · refine Kernel.fits_ofVariable (fun o ho => ?_) hdeclaration
    obtain rfl := Option.some.inj ho
    exact Operand.fits_number _

variable {l : Layout} {m : ModifiedTerminal} {rule : Option Rule} {value : Operand} {s : Stmt}

lemma fits_coefficientDefinition (hnames : NamesFit P declared) (hvalue : value.Fits P)
    (h : coefficientDefinition l declared m table rule value = .ok (some s)) : s.Fits P := by
  obtain ⟨point, hpoint, h⟩ := bind_eq_ok.1 h
  cases table with
  | none => cases h
  | some t =>
    obtain ⟨dof, hdof, dofs, -, h⟩ := bind₂_eq_ok.1 h
    have hpoint := fits_ruleIndex hnames.point hpoint
    have hdof := fits_dofIndex hnames.dof hdof
    dsimp only at h
    split at h
    · cases pure_eq_ok.1 h
    · split at h
      · cases pure_eq_ok.1 h
      · obtain ⟨_, -, ⟨e, tables⟩, he, a, ha, place, hplace, entry, hentry, h⟩ := bind₅_eq_ok.1 h
        obtain ⟨s', hs, h⟩ := bind_eq_ok.1 h
        obtain rfl := Option.some.inj (pure_eq_ok.1 h)
        have hplace := fits_apply (fits_apply (Operand.fits_expr hdof.flat) (fits_int _) ha)
          (fits_int _) hplace
        obtain ⟨offset, -, position, hposition, hentry⟩ := bind₂_eq_ok.1 hentry
        have hentry :=
          fits_single hnames.coefficients (fits_apply (fits_int _) hplace hposition) hentry
        exact fits_sumSection hvalue hentry (fits_tableAccess hnames hpoint hdof he) hdof hs

lemma fits_coordinateDefinition (hnames : NamesFit P declared) (hvalue : value.Fits P)
    (h : coordinateDefinition l declared m table rule value = .ok (some s)) : s.Fits P := by
  obtain ⟨d, -, h⟩ := bind_eq_ok.1 h
  dsimp only at h
  split at h
  · cases h
  · cases h
  · obtain ⟨_, -, _, -, _, -, _, -, dof, hdof, h⟩ := bind₅_eq_ok.1 h
    obtain ⟨point, hpoint, ⟨e, tables⟩, he, a, ha, b, hb, place, hplace, h⟩ := bind₅_eq_ok.1 h
    obtain ⟨entry, hentry, s', hs, h⟩ := bind₂_eq_ok.1 h
    obtain rfl := Option.some.inj (pure_eq_ok.1 h)
    have hpoint := fits_ruleIndex hnames.point hpoint
    have hdof := fits_dofIndex hnames.dof hdof
    have hplace := fits_apply (fits_apply (fits_apply (Operand.fits_expr hdof.flat) (fits_int _) ha)
      (fits_int _) hb) (fits_int _) hplace
    have hentry := fits_single hnames.coordinates hplace hentry
    exact fits_sumSection hvalue hentry (fits_tableAccess hnames hpoint hdof he) hdof hs

/-- The names that a definition uses beside the variable that it computes. -/
lemma fits_definition (hnames : NamesFit P declared) (hvalue : value.Fits P)
    (h : definition l declared m table rule value = .ok (some s)) : s.Fits P := by
  rw [definition] at h
  cases hterminal : m.terminal with
  | coefficient =>
    rw [hterminal] at h
    exact fits_coefficientDefinition hnames hvalue h
  | constant =>
    rw [hterminal] at h
    cases Except.ok.inj h
  | quantity q d shape =>
    rw [hterminal] at h
    cases q with
    | jacobian => exact fits_coordinateDefinition hnames hvalue h
    | spatialCoordinate =>
      dsimp only at h
      split at h
      · cases Except.ok.inj h
      · exact fits_coordinateDefinition hnames hvalue h
    | _ => first | cases Except.ok.inj h | cases h
  | _ =>
    rw [hterminal] at h
    cases h

end Definitions

end FormKernel.Binding
