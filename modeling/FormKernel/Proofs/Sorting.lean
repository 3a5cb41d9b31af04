import FormKernel.Proofs.Outcome
import FormKernel.Sorting

/-!
# Sorting

`sortWith` moves items and neither drops nor repeats any, whatever the comparison answers.  If the
answers come from an order then the result is in order, also where some pairs of items cannot be
compared and the sort happens not to ask for them.
-/

namespace FormKernel

open List

variable {α : Type} {before : α → α → Outcome Bool}

/-- Putting an item anywhere keeps all items. -/
lemma insert_perm (z : α) (xs : List α)
    (n : Nat) : (xs.take n ++ [z] ++ xs.drop n).Perm (z :: xs) := by
  rw [append_assoc, singleton_append]
  exact perm_middle.trans (by rw [take_append_drop])

lemma insertAll_perm {rest start out : List α} (h : rest.foldlM (fun sorted z => do
      let place ← bisect before z sorted 0 sorted.length
      return sorted.take place ++ [z] ++ sorted.drop place) start = .ok out) :
        out.Perm (start ++ rest) := by
  induction rest generalizing start with
  | nil =>
    rw [foldlM_nil, pure_eq_ok] at h
    rw [h, append_nil]
  | cons z rest ih =>
    rw [foldlM_cons, bind_eq_ok] at h
    obtain ⟨mid, hmid, h⟩ := h
    obtain ⟨place, -, hmid⟩ := bind_eq_ok.1 hmid
    rw [pure_eq_ok] at hmid
    subst hmid
    refine (ih h).trans (((insert_perm z start place).append_right rest).trans ?_)
    exact perm_middle.symm

/-- A sorted list has the items of the list. -/
lemma sortWith_perm {xs ys : List α} (h : sortWith before xs = .ok ys) : ys.Perm xs := by
  unfold sortWith at h
  split at h
  · cases h
    exact List.Perm.refl _
  · cases h
    exact List.Perm.refl _
  · next x y rest =>
    obtain ⟨descending, -, n, -, h⟩ := bind₂_eq_ok.1 h
    refine (insertAll_perm h).trans ?_
    cases descending with
    | true =>
      simpa only [take_append_drop, if_true] using
        (reverse_perm ((x :: y :: rest).take (2 + n))).append_right
          ((x :: y :: rest).drop (2 + n))
    | false => simp only [Bool.false_eq_true, if_false, take_append_drop, List.Perm.refl]

/-! ## Order -/

/-- The answers of a comparison come from an order. -/
structure Decides (before : α → α → Outcome Bool) (R : α → α → Prop) : Prop where
  trans : ∀ {x y z}, R x y → R y z → R x z
  of_true : ∀ {x y}, before x y = .ok true → R x y
  of_false : ∀ {x y}, before x y = .ok false → R y x

section Order

variable {R : α → α → Prop} {x : α} {sorted : List α}

/-- The place of an item among sorted ones. -/
def FitsAt (R : α → α → Prop) (x : α) (sorted : List α) (place : Nat) : Prop :=
  (∀ y ∈ sorted.take place, R y x) ∧ ∀ y ∈ sorted.drop place, R x y

/-- An item that comes before another comes before all that follow it. -/
lemma forall_mem_drop_of_getElem? (hR : Decides before R) (hsorted : sorted.Pairwise R) {i : Nat}
    {y : α} (hy : sorted[i]? = some y) (hxy : R x y) : ∀ z ∈ sorted.drop i, R x z := by
  obtain ⟨hlt, rfl⟩ := List.getElem?_eq_some_iff.1 hy
  have htail : (sorted.drop i).Pairwise R := hsorted.sublist (drop_sublist i sorted)
  rw [drop_eq_getElem_cons hlt, pairwise_cons] at htail
  rw [drop_eq_getElem_cons hlt]
  intro z hz
  rcases mem_cons.1 hz with rfl | hz
  · exact hxy
  · exact hR.trans hxy (htail.1 z hz)

/-- An item that comes after another comes after all before it. -/
lemma forall_mem_take_of_getElem? (hR : Decides before R) (hsorted : sorted.Pairwise R) {i : Nat}
    {y : α} (hy : sorted[i]? = some y) (hyx : R y x) : ∀ z ∈ sorted.take (i + 1), R z x := by
  obtain ⟨hlt, rfl⟩ := List.getElem?_eq_some_iff.1 hy
  have hhead : (sorted.take (i + 1)).Pairwise R := hsorted.sublist (take_sublist _ sorted)
  rw [take_succ_eq_append_getElem hlt, pairwise_append] at hhead
  rw [take_succ_eq_append_getElem hlt]
  intro z hz
  rcases mem_append.1 hz with hz | hz
  · exact hR.trans (hhead.2.2 z hz _ (by simp)) hyx
  · exact mem_singleton.1 hz ▸ hyx

/-- Bisection keeps the place between its bounds: what is before `lo` comes before the item, and
    what is from `hi` on comes after it. -/
lemma fitsAt_bisect (hR : Decides before R) (hsorted : sorted.Pairwise R) {lo hi place : Nat}
    (hlo : ∀ y ∈ sorted.take lo, R y x) (hhi : ∀ y ∈ sorted.drop hi, R x y)
    (h : bisect before x sorted lo hi = .ok place) : FitsAt R x sorted place := by
  induction hsize : hi - lo using Nat.strongRecOn generalizing lo hi with
  | ind size ih =>
    rw [bisect] at h
    split at h
    · next hlt =>
      dsimp only at h
      split at h
      · cases h
      · next y hy =>
        obtain ⟨answer, hanswer, h⟩ := bind_eq_ok.1 h
        cases answer with
        | true =>
          have hmid := forall_mem_drop_of_getElem? hR hsorted hy (hR.of_true hanswer)
          exact ih _ (by omega) hlo hmid h rfl
        | false =>
          have hmid := forall_mem_take_of_getElem? hR hsorted hy (hR.of_false hanswer)
          exact ih _ (by omega) hmid hhi h rfl
    · next hge =>
      obtain rfl := Except.ok.inj h
      have hdrop : sorted.drop lo = (sorted.drop hi).drop (lo - hi) := by
        rw [drop_drop]
        congr 1
        omega
      refine ⟨hlo, fun y hy => hhi y ?_⟩
      rw [hdrop] at hy
      exact mem_of_mem_drop hy

/-- Putting an item at its place keeps the order. -/
lemma FitsAt.pairwise {place : Nat} (h : FitsAt R x sorted place) (hsorted : sorted.Pairwise R) :
    (sorted.take place ++ [x] ++ sorted.drop place).Pairwise R := by
  have hparts : (sorted.take place ++ sorted.drop place).Pairwise R := by
    rwa [take_append_drop]
  rw [pairwise_append] at hparts
  rw [append_assoc, pairwise_append, singleton_append, pairwise_cons]
  refine ⟨hparts.1, ⟨h.2, hparts.2.1⟩, fun y hy z hz => ?_⟩
  rcases mem_cons.1 hz with rfl | hz
  · exact h.1 y hy
  · exact hparts.2.2 y hy z hz

/-- The leading run is in order, or in the opposite order. -/
lemma isChain_runLength (hR : Decides before R) {descending : Bool} {last : α} {xs : List α}
    {n : Nat} (h : runLength before descending last xs = .ok n) :
    (last :: xs.take n).IsChain fun x y => if descending then R y x else R x y := by
  induction xs generalizing last n with
  | nil => simp
  | cons z xs ih =>
    rw [runLength] at h
    obtain ⟨answer, hanswer, h⟩ := bind_eq_ok.1 h
    split at h
    · next heq =>
      obtain rfl := eq_of_beq heq
      obtain ⟨m, hm, h⟩ := bind_eq_ok.1 h
      cases h
      rw [take_succ_cons, isChain_cons_cons]
      refine ⟨?_, ih hm⟩
      cases answer with
      | true => exact hR.of_true hanswer
      | false => exact hR.of_false hanswer
    · cases h
      simp

lemma pairwise_sortWith (hR : Decides before R) {xs ys : List α}
    (h : sortWith before xs = .ok ys) : ys.Pairwise R := by
  unfold sortWith at h
  split at h
  · cases h
    exact .nil
  · cases h
    exact pairwise_singleton _ _
  · next x y rest =>
    obtain ⟨descending, hdescending, n, hn, h⟩ := bind₂_eq_ok.1 h
    refine foldlM_induction (fun sorted => sorted.Pairwise R) ?_ ?_ h
    · have hrun : (x :: y :: rest).take (2 + n) = x :: y :: rest.take n := by
        rw [Nat.add_comm 2 n]
        rfl
      have hchain := isChain_runLength hR hn
      have : Trans R R R := ⟨hR.trans⟩
      have : Trans (flip R) (flip R) (flip R) := ⟨fun hxy hyz => hR.trans hyz hxy⟩
      cases descending with
      | true =>
        rw [if_pos rfl, hrun, pairwise_reverse]
        exact isChain_iff_pairwise.1 (.cons_cons (hR.of_true hdescending) hchain)
      | false =>
        rw [if_neg Bool.false_ne_true, hrun]
        exact isChain_iff_pairwise.1 (.cons_cons (hR.of_false hdescending) hchain)
    · intro sorted z next _ hsorted hstep
      obtain ⟨place, hplace, hstep⟩ := bind_eq_ok.1 hstep
      cases hstep
      have hfits : FitsAt R z sorted place := fitsAt_bisect hR hsorted (by simp) (by simp) hplace
      exact hfits.pairwise hsorted

end Order

/-! ## Success -/

lemma exists_bisect {x : α} {sorted : List α} (h : ∀ y ∈ sorted, ∃ b, before x y = .ok b)
    {lo hi : Nat} (hhi : hi ≤ sorted.length) : ∃ place, bisect before x sorted lo hi = .ok place :=
  by
  induction hsize : hi - lo using Nat.strongRecOn generalizing lo hi with
  | ind size ih =>
    rw [bisect]
    split
    · next hlt =>
      have hmid : lo + (hi - lo) / 2 < sorted.length := by omega
      obtain ⟨b, hb⟩ := h _ (getElem_mem hmid)
      dsimp only
      rw [getElem?_eq_getElem hmid]
      dsimp only
      rw [hb]
      cases b with
      | true => exact ih _ (by omega) (by omega) rfl
      | false => exact ih _ (by omega) hhi rfl
    · exact ⟨lo, rfl⟩

lemma exists_runLength {descending : Bool} {last : α} {xs : List α}
    (h : ∀ x ∈ xs, ∀ y ∈ last :: xs, ∃ b, before x y = .ok b) :
    ∃ n, runLength before descending last xs = .ok n := by
  induction xs generalizing last with
  | nil => exact ⟨0, rfl⟩
  | cons z xs ih =>
    obtain ⟨b, hb⟩ := h z (by simp) last (by simp)
    obtain ⟨n, hn⟩ := ih fun x hx y hy => h x (by simp [hx]) y (mem_cons_of_mem _ hy)
    rw [runLength, hb]
    by_cases heq : (b == descending) = true
    · exact ⟨n + 1, bind_eq_ok.2 ⟨b, rfl, by rw [if_pos heq, hn]; rfl⟩⟩
    · exact ⟨0, bind_eq_ok.2 ⟨b, rfl, by rw [if_neg heq]; rfl⟩⟩

/-- A list whose items can be compared with each other can be sorted. -/
lemma exists_sortWith {xs : List α} (h : ∀ x ∈ xs, ∀ y ∈ xs, ∃ b, before x y = .ok b) :
    ∃ ys, sortWith before xs = .ok ys := by
  unfold sortWith
  split
  · exact ⟨_, rfl⟩
  · exact ⟨_, rfl⟩
  · next x y rest =>
    -- items are put into the run that the list starts with, one after the other
    have hinsert : ∀ (zs start : List α), (∀ z ∈ zs ++ start, z ∈ x :: y :: rest) →
        ∃ ys, zs.foldlM (fun sorted z => do
          let place ← bisect before z sorted 0 sorted.length
          return sorted.take place ++ [z] ++ sorted.drop place) start = .ok ys := by
      intro zs
      induction zs with
      | nil => exact fun start _ => ⟨start, rfl⟩
      | cons z zs ih =>
        intro start hmem
        obtain ⟨place, hplace⟩ : ∃ place, bisect before z start 0 start.length = .ok place :=
          exists_bisect (fun y hy => h z (hmem z (by simp)) y (hmem y (by simp [hy])))
            (Nat.le_refl start.length)
        have hkept := insert_perm z start place
        obtain ⟨ys, hys⟩ := ih (start.take place ++ [z] ++ start.drop place) fun w hw =>
          hmem w (by
            rcases mem_append.1 hw with hw | hw
            · simp [hw]
            · rcases mem_cons.1 (hkept.mem_iff.1 hw) with rfl | hw <;> simp [*])
        rw [foldlM_cons]
        exact ⟨ys, bind_eq_ok.2 ⟨_, bind_eq_ok.2 ⟨place, hplace, rfl⟩, hys⟩⟩
    obtain ⟨descending, hdescending⟩ := h y (by simp) x (by simp)
    obtain ⟨n, hn⟩ : ∃ n, runLength before descending y rest = .ok n :=
      exists_runLength fun z hz w hw => h z (by simp [hz]) w (mem_cons_of_mem x hw)
    obtain ⟨ys, hys⟩ := hinsert ((x :: y :: rest).drop (2 + n))
      (if descending then ((x :: y :: rest).take (2 + n)).reverse
        else (x :: y :: rest).take (2 + n)) fun z hz => by
        rcases mem_append.1 hz with hz | hz
        · exact mem_of_mem_drop hz
        · split at hz
          · exact mem_of_mem_take (mem_reverse.1 hz)
          · exact mem_of_mem_take hz
    exact ⟨ys, bind_eq_ok.2 ⟨descending, hdescending, bind_eq_ok.2 ⟨n, hn, hys⟩⟩⟩

end FormKernel
