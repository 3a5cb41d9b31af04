import FormKernel.Proofs.Kernel.HoistSteps

/-!
# Names that optimised code uses

Joining sections and loops and moving factors out of a loop changes no expression but for the
temporary arrays that factors are kept in.  So optimised code uses temporaries and no more than the
code before.
-/

namespace FormKernel.Kernel

open List

variable {P : String → Nat → Prop}

/-! ## Joined sections and loops -/

variable {code code' body : List Stmt} {groups : List LoopGroup} {s t : Stmt} {e : Expr}
  {u : Update} {done : Hoisted}

lemma fits_fuseSections {name : String} (hcode : ∀ s ∈ code, s.Fits P)
    (h : fuseSections code name = .ok code') : ∀ s ∈ code', s.Fits P := by
  obtain ⟨fused, hfused, h⟩ := bind_eq_ok.1 h
  have hparts : ∀ p ∈ code.filter (·.isNamed name), p.Fits P := fun p hp =>
    hcode p (mem_of_mem_filter hp)
  have hfits : fused.Fits P := by
    refine fits_ofPart (forall_mem_map.2 fun s hs => ?_) (forall_mem_map.2 fun s hs => ?_)
      hfused
    · obtain ⟨p, hp, hs⟩ := mem_flatMap.1 hs
      exact Stmt.fits_body (hparts p hp) hs
    · obtain ⟨p, hp, hs⟩ := mem_flatMap.1 hs
      exact Stmt.fits_declarations (hparts p hp) hs
  exact forall_fuseSections hcode hfits h

/-- A group of loops of which all uses have a property. -/
structure LoopGroup.Fits (P : String → Nat → Prop) (g : LoopGroup) : Prop where
  index : g.index.Fits P
  lower : g.lower.Fits P
  upper : g.upper.Fits P
  bodies : ∀ b ∈ g.bodies, ∀ s ∈ b, s.Fits P

lemma fits_groupLoops {groups' : List LoopGroup} (hbody : ∀ s ∈ body, s.Fits P)
    (hgroups : ∀ g ∈ groups, g.Fits P) (h : groupLoops body groups = .ok groups') :
    ∀ g ∈ groups', g.Fits P := by
  refine forall_groupLoops (fun hs => ?_) hgroups h
  obtain ⟨hindex, hlower, hupper, hinside⟩ := Stmt.fits_loop.1 (hbody _ hs)
  exact ⟨⟨hindex, hlower, hupper, forall_mem_singleton.2 hinside⟩, fun g hg => ⟨hg.index, hg.lower,
    hg.upper, forall_mem_append.2 ⟨hg.bodies, forall_mem_singleton.2 hinside⟩⟩⟩

lemma fits_loopsLast {body' : List Stmt} (hbody : ∀ s ∈ body, s.Fits P)
    (h : loopsLast body = .ok body') : ∀ s ∈ body', s.Fits P := by
  obtain ⟨groups, hgroups, loops, hloops, h⟩ := bind₂_eq_ok.1 h
  cases h
  refine forall_mem_append.2 ⟨fun s hs => hbody s (mem_of_mem_filter hs), fun s hs => ?_⟩
  obtain ⟨g, hg, hs⟩ := exists_of_mapM hloops hs
  have hg := fits_groupLoops hbody (forall_mem_nil _) hgroups g hg
  refine fits_ofLoop hg.index (Operand.fits_expr hg.lower) (Operand.fits_expr hg.upper) ?_ hs
  exact forall_mem_map.2 fun b hb => Stmt.fits_list.2 (hg.bodies b hb)

lemma fits_fuseLoops (hs : s.Fits P) (h : fuseLoops s = .ok t) : t.Fits P := by
  cases s with
  | part tag name body declarations input output annotations =>
    obtain ⟨hdeclarations, hbody⟩ := Stmt.fits_part.1 hs
    obtain ⟨loops, hloops, h⟩ := bind_eq_ok.1 h
    exact fits_ofPart (forall_mem_map.2 (fits_loopsLast hbody hloops))
      (forall_mem_map.2 hdeclarations) h
  | list body =>
    obtain ⟨_, -, h⟩ := bind_eq_ok.1 h
    cases h
  | _ => cases h

/-! ## Hoisted factors -/

lemma fits_exprs {es : List Expr} (hs : s.Fits P) (h : s.exprs = .ok es) : ∀ e ∈ es, e.Fits P := by
  cases s with
  | list body =>
    intro e he
    obtain ⟨t, ht, hte⟩ := exists_of_mapM h he
    have ht := Stmt.fits_list.1 hs t ht
    split at hte
    · cases hte
      exact ht
    · cases hte
  | expr e =>
    cases h
    exact forall_mem_singleton.2 hs
  | _ => cases h

lemma fits_updateOf {slot : Nat} (he : e.Fits P) (h : Update.ofExpr slot e = .ok u) :
    ∀ f ∈ u.factors, f.Fits P := by
  rw [Update.ofExpr.eq_def] at h
  split at h
  · obtain ⟨_, -, h⟩ := bind_eq_ok.1 h
    cases h
    exact Expr.fits_nary.1 (Expr.fits_assign.1 he).2
  · cases h

lemma fits_updatesOf {inside : List Stmt} {us : List Update} (hinside : ∀ s ∈ inside, s.Fits P)
    (h : updatesOf inside = .ok us) : ∀ u ∈ us, ∀ f ∈ u.factors, f.Fits P := by
  refine foldlM_induction (fun us : List Update => ∀ u ∈ us, ∀ f ∈ u.factors, f.Fits P)
    (forall_mem_nil _) (fun us s us' hs hus hstep => ?_) h
  obtain ⟨es, hes, hstep⟩ := bind_eq_ok.1 hstep
  have hes := fits_exprs (hinside s hs) hes
  refine foldlM_induction (fun us : List Update => ∀ u ∈ us, ∀ f ∈ u.factors, f.Fits P) hus
    (fun us e us' he hus hstep => ?_) hstep
  obtain ⟨u, hu, hstep⟩ := bind_eq_ok.1 hstep
  cases hstep
  exact forall_mem_append.2 ⟨hus, forall_mem_singleton.2 (fits_updateOf (hes e he) hu)⟩

/-- Hoisted code of which all uses have a property. -/
structure Hoisted.Fits (P : String → Nat → Prop) (done : Hoisted) : Prop where
  code : ∀ s ∈ done.code, s.Fits P
  left : ∀ p ∈ done.left, ∀ f ∈ p.2, f.Fits P

lemma Hoisted.Fits.lookup {done : Hoisted} (h : done.Fits P) (slot : Nat) {fs : List Expr}
    (hfs : ∀ f ∈ fs, f.Fits P) : ∀ f ∈ (done.left.lookup slot).getD fs, f.Fits P := by
  cases hlookup : done.left.lookup slot with
  | none => exact hfs
  | some gs => exact h.left _ (mem_of_lookup_eq_some hlookup)

lemma Hoisted.Fits.hoistUpdate (htemporary : ∀ c n, P (temporary c).name n) {nest : LoopNest}
    {done' : Hoisted} (hdone : done.Fits P) (houter : nest.outer.Fits P)
    (hlower : nest.lower.Fits P)
    (hupper : nest.upper.Fits P) (hu : ∀ f ∈ u.factors, f.Fits P)
    (h : hoistUpdate nest done u = .ok done') : done'.Fits P := by
  obtain ⟨marked, hmarked, h⟩ := bind_eq_ok.1 h
  have hfactors := hdone.lookup u.slot hu
  have hfits : ∀ p ∈ marked, p.1.Fits P := by
    intro p hp
    obtain ⟨f, hf, hp⟩ := exists_of_mapM hmarked hp
    obtain ⟨b, -, hp⟩ := bind_eq_ok.1 hp
    cases hp
    exact hfactors f hf
  have hpart : ∀ p : Expr × Bool → Bool, ∀ f ∈ (marked.filter p).map (·.1), f.Fits P := fun p =>
    forall_mem_map.2 fun x hx => hfits x (mem_of_mem_filter hx)
  dsimp only at h
  split at h
  · cases h
    exact ⟨hdone.code, forall_mem_cons.2 ⟨hfactors, hdone.left⟩⟩
  · obtain ⟨n, -, decl, hdecl, product, hproduct, loop, hloop, h⟩ := bind₄_eq_ok.1 h
    cases h
    have haccess : (Expr.access (temporary done.counter) [nest.outer]).Fits P :=
      Expr.fits_access.2 ⟨htemporary _ _, forall_mem_singleton.2 houter⟩
    refine ⟨forall_mem_append.2 ⟨hdone.code, ?_⟩, forall_mem_cons.2 ⟨?_, hdone.left⟩⟩
    · refine forall_mem_cons.2 ⟨Stmt.fits_of_uses_eq_nil (uses_ofArray hdecl),
        forall_mem_singleton.2 ?_⟩
      exact fits_ofLoop houter (Operand.fits_expr hlower) (Operand.fits_expr hupper)
        (forall_mem_singleton.2
        (Operand.fits_expr (Expr.fits_assign.2 ⟨haccess, fits_ofNary (hpart _) hproduct⟩))) hloop
    · exact forall_mem_append.2 ⟨hpart _, forall_mem_singleton.2 haccess⟩

lemma Hoisted.Fits.expr_withFactors (h : done.Fits P) (he : e.Fits P) (slot : Nat) :
    (e.withFactors done.left slot).Fits P := by
  rw [Expr.withFactors.eq_def]
  split
  · obtain ⟨htarget, hproduct⟩ := Expr.fits_assign.1 he
    exact Expr.fits_assign.2 ⟨htarget, Expr.fits_nary.2 (h.lookup _ (Expr.fits_nary.1 hproduct))⟩
  · exact he

lemma Hoisted.Fits.withFactors {done : Hoisted} (h : done.Fits P) {ss : List Stmt}
    (hss : ∀ s ∈ ss, s.Fits P) (slot : Nat) : ∀ s ∈ Stmt.withFactors done.left slot ss,
      s.Fits P := by
  induction ss generalizing slot with
  | nil => exact forall_mem_nil _
  | cons s ss ih =>
    rw [forall_mem_cons] at hss
    cases s with
    | expr e => exact forall_mem_cons.2 ⟨h.expr_withFactors hss.1 slot, ih hss.2 _⟩
    | list body =>
      refine forall_mem_cons.2 ⟨Stmt.fits_list.2 fun t ht => ?_, ih hss.2 _⟩
      obtain ⟨⟨u, i⟩, hu, rfl⟩ := mem_map.1 ht
      have hu := Stmt.fits_list.1 hss.1 u (fst_mem_of_mem_zipIdx hu)
      cases u with
      | expr e => exact h.expr_withFactors hu _
      | _ => exact hu
    | _ => exact forall_mem_cons.2 ⟨hss.1, ih hss.2 _⟩

lemma fits_hoist (htemporary : ∀ c n, P (temporary c).name n) (hs : s.Fits P)
    (h : hoist s = .ok t) : t.Fits P := by
  obtain ⟨⟨t, left⟩, ht, h⟩ := bind_eq_ok.1 h
  cases h
  cases s with
  | part tag name body declarations input output annotations =>
    obtain ⟨_, -, ht⟩ := bind_eq_ok.1 ht
    cases body with
    | nil => cases ht
    | cons first rest =>
      obtain ⟨depth, -, ht⟩ := bind_eq_ok.1 ht
      dsimp only at ht
      split at ht
      · obtain ⟨rfl, -⟩ := Prod.mk.inj (pure_eq_ok.1 ht)
        exact hs
      · split at ht
        · next outer lower upper inner innerLower innerUpper inside others =>
          obtain ⟨updates, hupdates, done, hdone, ht⟩ := bind₂_eq_ok.1 ht
          obtain ⟨rfl, -⟩ := Prod.mk.inj (pure_eq_ok.1 ht)
          obtain ⟨hdeclarations, hbody⟩ := Stmt.fits_part.1 hs
          rw [forall_mem_cons, Stmt.fits_loop, forall_mem_cons, Stmt.fits_loop] at hbody
          obtain ⟨⟨houter, hlower, hupper, ⟨hinner, hinnerLower, hinnerUpper, hinside⟩, hothers⟩,
            hrest⟩ := hbody
          have hdone : done.Fits P := by
            refine foldlM_induction (Hoisted.Fits P) ⟨forall_mem_nil _, forall_mem_nil _⟩
              (fun done u done' hu hdone hstep => hdone.hoistUpdate htemporary houter hlower hupper
                ?_ hstep) hdone
            exact fits_updatesOf hinside hupdates u
              (by simpa using ((groupUpdates_perm updates []).mem_iff).1 hu)
          refine Stmt.fits_part.2 ⟨hdeclarations, forall_mem_append.2 ⟨hdone.code,
            forall_mem_cons.2 ⟨?_, hrest⟩⟩⟩
          exact Stmt.fits_loop.2 ⟨houter, hlower, hupper, forall_mem_cons.2
            ⟨Stmt.fits_loop.2 ⟨hinner, hinnerLower, hinnerUpper, hdone.withFactors hinside 0⟩,
              hothers⟩⟩
        · cases ht
  | _ => cases ht

lemma fits_optimizeSection (htemporary : ∀ c n, P (temporary c).name n) (hs : s.Fits P)
    (h : optimizeSection s = .ok t) : t.Fits P := by
  obtain ⟨u, hu, h⟩ := optimizeSection_eq_ok h
  have hu : u.Fits P := by
    split at hu
    · exact fits_fuseLoops hs hu
    · cases hu
      exact hs
  split at h
  · exact fits_hoist htemporary hu h
  · cases h
    exact hu

/-- Optimised code uses temporaries and no more than before. -/
lemma fits_optimize (htemporary : ∀ c n, P (temporary c).name n) (hcode : ∀ s ∈ code, s.Fits P)
    (h : optimize code = .ok code') : ∀ s ∈ code', s.Fits P := by
  obtain ⟨first, hfirst, second, hsecond, h⟩ := bind₂_eq_ok.1 h
  have hsecond := fits_fuseSections (fits_fuseSections hcode hfirst) hsecond
  intro t ht
  obtain ⟨s, hs, hst⟩ := exists_of_mapM h ht
  exact fits_optimizeSection htemporary (hsecond s hs) hst

end FormKernel.Kernel
