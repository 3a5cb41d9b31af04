import FormKernel.Proofs.CText.Constant

/-!
# The grammar of C expressions

Expressions without side effects, as the rules of the language derive them from tokens: primary
expressions, array accesses and calls, unary operators, ten levels of binary operators that group to
the left, and the conditional operator, which groups to the right.  Names of types, members, casts,
assignments and commas outside of argument lists are left out.

The rules are unambiguous.  This is shown with a machine that reads tokens one by one and keeps the
contexts which wait for an operand.  A context is closed when an operator comes that binds less
strongly, so after an expression the machine may still hold open contexts, but it cannot be told
from a machine that holds the whole expression by anything that closes them.
-/

namespace FormKernel.CText

open List

/-- An expression of C. -/
inductive Tree where
  | name (s : String)
  | constant (c : Constant)
  | unary (op : String) (a : Tree)
  | binary (op : String) (a b : Tree)
  | conditional (c y n : Tree)
  | call (f : Tree) (args : List Tree)
  | access (a i : Tree)
  deriving Inhabited

/-- The operators in front of an operand. -/
def unaryMarks : List String := ["+", "-", "!", "~", "*", "&"]

/-- The operators between operands with their levels, a weaker operator having a higher one.  Level
    0 holds primary expressions, level 1 accesses and calls, level 2 unary operators. -/
def binaryLevel : String → Option Nat
  | "*" | "/" | "%" => some 3
  | "+" | "-" => some 4
  | "<<" | ">>" => some 5
  | "<" | ">" | "<=" | ">=" => some 6
  | "==" | "!=" => some 7
  | "&" => some 8
  | "^" => some 9
  | "|" => some 10
  | "&&" => some 11
  | "||" => some 12
  | _ => none

/-- The level of conditional expressions, the highest one. -/
def topLevel : Nat := 13

mutual

/-- The tokens of an expression of a level. -/
inductive Derives : Nat → List Token → Tree → Prop
  | name {s} : Derives 0 [.name s] (.name s)
  | constant {w c} : constant? w = some c → Derives 0 [.number w] (.constant c)
  | brackets {ts T} : Derives topLevel ts T → Derives 0 (.mark "(" :: (ts ++ [.mark ")"])) T
  | access {fs is F I} : Derives 1 fs F → Derives topLevel is I →
      Derives 1 (fs ++ .mark "[" :: (is ++ [.mark "]"])) (.access F I)
  | call {fs as F As} : Derives 1 fs F → DerivesList as As →
      Derives 1 (fs ++ .mark "(" :: (as ++ [.mark ")"])) (.call F As)
  | unary {op ts T} : op ∈ unaryMarks → Derives 2 ts T → Derives 2 (.mark op :: ts) (.unary op T)
  | binary {op l ls rs L R} : binaryLevel op = some (l + 1) → Derives (l + 1) ls L →
    Derives l rs R →
      Derives (l + 1) (ls ++ .mark op :: rs) (.binary op L R)
  | conditional {cs ys ns C Y N} : Derives 12 cs C → Derives topLevel ys Y → Derives topLevel ns N →
      Derives topLevel (cs ++ .mark "?" :: (ys ++ .mark ":" :: ns)) (.conditional C Y N)
  | next {l ts T} : l < topLevel → Derives l ts T → Derives (l + 1) ts T

/-- The tokens of a list of arguments. -/
inductive DerivesList : List Token → List Tree → Prop
  | nil : DerivesList [] []
  | one {ts T} : Derives topLevel ts T → DerivesList ts [T]
  | more {ts T us Us} : Derives topLevel ts T → DerivesList us Us → Us ≠ [] →
      DerivesList (ts ++ .mark "," :: us) (T :: Us)

end

variable {T : Tree} {l m : Nat} {fs : List Frame}

lemma Derives.mono {ts : List Token} (h : Derives l ts T) (hlm : l ≤ m) (hm : m ≤ topLevel) :
    Derives m ts T := by
  induction m, hlm using Nat.le_induction with
  | base => exact h
  | succ m _ ih => exact .next (by omega) (ih (by omega))

/-! ## Unambiguity -/

/-- A context that waits for an operand. -/
inductive Frame where
  | unary (op : String)
  | right (op : String) (l : Nat) (a : Tree)
  | brackets
  | index (a : Tree)
  | arguments (f : Tree) (done : List Tree)
  | yes (c : Tree)
  | no (c y : Tree)

/-- Closes the contexts that an operator of a level closes. -/
def close (l : Nat) : List Frame → Tree → List Frame × Tree
  | .unary op :: fs, T => close l fs (.unary op T)
  | .right op m a :: fs, T =>
    if m ≤ l then close l fs (.binary op a T) else (.right op m a :: fs, T)
  | .no c y :: fs, T => if topLevel ≤ l then close l fs (.conditional c y T) else (.no c y :: fs, T)
  | fs, T => (fs, T)

/-- The next state of the machine when it waits for an operand. -/
def operandStep (fs : List Frame) : Token → Option (List Frame × Option Tree)
  | .name s => some (fs, some (.name s))
  | .number w => (constant? w).map fun c => (fs, some (.constant c))
  | .mark w =>
    if w ∈ unaryMarks then some (.unary w :: fs, none)
    else if w = "(" then some (.brackets :: fs, none)
    else if w = ")" then
      match fs with
      | .arguments f [] :: fs => some (fs, some (.call f []))
      | _ => none
    else none

/-- The next state of the machine at a mark that closes all contexts of an expression. -/
def closingStep : String → List Frame × Tree → Option (List Frame × Option Tree)
  | ":", (.yes c :: fs, T) => some (.no c T :: fs, none)
  | ")", (.brackets :: fs, T) => some (fs, some T)
  | ")", (.arguments f done :: fs, T) => some (fs, some (.call f (done ++ [T])))
  | "]", (.index a :: fs, T) => some (fs, some (.access a T))
  | ",", (.arguments f done :: fs, T) => some (.arguments f (done ++ [T]) :: fs, none)
  | _, _ => none

/-- The next state of the machine behind an operand. -/
def operatorStep (fs : List Frame) (T : Tree) : Token → Option (List Frame × Option Tree)
  | .mark w =>
    match binaryLevel w with
    | some l => some (.right w l (close l fs T).2 :: (close l fs T).1, none)
    | none =>
      if w = "[" then some (.index T :: fs, none)
      else if w = "(" then some (.arguments T [] :: fs, none)
      else if w = "?" then some (.yes (close 12 fs T).2 :: (close 12 fs T).1, none)
      else closingStep w (close topLevel fs T)
  | _ => none

def run : List Frame × Option Tree → List Token → Option (List Frame × Option Tree)
  | s, [] => some s
  | (fs, none), t :: ts => (operandStep fs t).bind (run · ts)
  | (fs, some T), t :: ts => (operatorStep fs T t).bind (run · ts)

/-- The contexts are not closed by what an expression of a level holds. -/
def Accepts (l : Nat) : List Frame → Prop
  | .unary _ :: _ => l ≤ 2
  | .right _ m _ :: _ => l < m
  | _ => True

/-- Two states behind an operand that nothing weaker than a level can tell apart. -/
def Alike (l : Nat) (fs fs' : List Frame) (T T' : Tree) : Prop :=
  (∀ m, l ≤ m → 2 ≤ m → close m fs' T' = close m fs T) ∧ (l ≤ 1 → fs' = fs ∧ T' = T)

lemma Alike.refl (l : Nat) (fs : List Frame) (T : Tree) : Alike l fs fs T T :=
  ⟨fun _ _ _ => rfl, fun _ => ⟨rfl, rfl⟩⟩

lemma Alike.mono {fs' : List Frame} {T' : Tree} (h : Alike l fs fs' T T') (hlm : l ≤ m) :
    Alike m fs fs' T T' :=
  ⟨fun k hk => h.1 k (hlm.trans hk), fun hm => h.2 (hlm.trans hm)⟩

lemma Accepts.mono (h : Accepts m fs) (hlm : l ≤ m) : Accepts l fs := by
  unfold Accepts at h ⊢
  split <;> grind

lemma Accepts.close_eq (h : Accepts l fs) (hl : 3 ≤ l) (hl' : l < topLevel) (T : Tree) :
    close l fs T = (fs, T) := by
  unfold Accepts at h
  unfold close
  split at h <;> grind

/-- A list of contexts that takes any expression is closed by nothing. -/
def IsOpen : List Frame → Prop
  | [] | .brackets :: _ | .index _ :: _ | .arguments .. :: _ | .yes _ :: _ => True
  | _ => False

lemma IsOpen.close_eq (h : IsOpen fs) (l : Nat) (T : Tree) : close l fs T = (fs, T) := by
  unfold IsOpen at h
  unfold close
  split at h <;> grind

lemma IsOpen.accepts (h : IsOpen fs) (l : Nat) : Accepts l fs := by
  unfold IsOpen at h
  unfold Accepts
  split at h <;> grind

lemma level_of_binaryLevel {op : String} (h : binaryLevel op = some l) : 3 ≤ l ∧ l < topLevel := by
  unfold binaryLevel at h
  unfold topLevel
  split at h <;> simp_all <;> omega

def Reads (l : Nat) (ts : List Token) (T : Tree) : Prop :=
  ∀ fs, Accepts l fs → ∃ fs' T', Alike l fs fs' T T' ∧
    ∀ rest, run (fs, none) (ts ++ rest) = run (fs', some T') rest

/-- A machine reads the rest of a list of arguments, up to the closing bracket. -/
def ReadsList (ts : List Token) (Ts : List Tree) : Prop :=
  ∀ fs f done, (Ts = [] → done = []) → ∀ rest,
    run (.arguments f done :: fs, none) (ts ++ .mark ")" :: rest) =
      run (fs, some (.call f (done ++ Ts))) rest

section Steps

variable {fs' : List Frame} {T' : Tree}

lemma run_unary {op : String} (hop : op ∈ unaryMarks) (rest : List Token) :
    run (fs, none) (.mark op :: rest) = run (.unary op :: fs, none) rest := by
  simp [run, operandStep, hop]

lemma run_opening (rest : List Token) :
    run (fs, none) (.mark "(" :: rest) = run (.brackets :: fs, none) rest := by
  simp [run, operandStep, unaryMarks]

lemma run_index (rest : List Token) :
    run (fs, some T) (.mark "[" :: rest) = run (.index T :: fs, none) rest := by
  simp [run, operatorStep, binaryLevel]

lemma run_arguments (rest : List Token) :
    run (fs, some T) (.mark "(" :: rest) = run (.arguments T [] :: fs, none) rest := by
  simp [run, operatorStep, binaryLevel]

lemma run_operator {op : String} {l : Nat} (hop : binaryLevel op = some l) (hfs : Accepts l fs)
    (h : Alike l fs fs' T T') (rest : List Token) :
    run (fs', some T') (.mark op :: rest) = run (.right op l T :: fs, none) rest := by
  have hl := level_of_binaryLevel hop
  have hclose : close l fs' T' = (fs, T) := by
    rw [h.1 l (Nat.le_refl l) (by omega), hfs.close_eq hl.1 hl.2]
  simp [run, operatorStep, hop, hclose]

lemma run_question (hfs : Accepts 12 fs) (h : Alike 12 fs fs' T T') (rest : List Token) :
    run (fs', some T') (.mark "?" :: rest) = run (.yes T :: fs, none) rest := by
  have hclose : close 12 fs' T' = (fs, T) := by
    rw [h.1 12 (by decide) (by decide), hfs.close_eq (by decide) (by decide)]
  simp [run, operatorStep, binaryLevel, hclose]

/-- A mark that closes all contexts of an expression finds its tree. -/
lemma run_closing {w : String} (hw : w ∈ [":", ")", "]", ","]) (hfs : IsOpen fs)
    (h : Alike topLevel fs fs' T T') (rest : List Token) :
    run (fs', some T') (.mark w :: rest) = (closingStep w (fs, T)).bind (run · rest) := by
  have hclose : close topLevel fs' T' = (fs, T) := by
    rw [h.1 topLevel (Nat.le_refl _) (by decide), hfs.close_eq]
  simp only [mem_cons, not_mem_nil, or_false] at hw
  rcases hw with rfl | rfl | rfl | rfl <;> simp [run, operatorStep, binaryLevel, hclose]

end Steps

mutual

/-- The machine reads what the grammar derives.  The frames that it leaves may still be open, but
    they close to the tree at every level that can follow. -/
theorem Derives.reads {l : Nat} {ts : List Token} {T : Tree} : Derives l ts T → Reads l ts T
  | .name => fun fs _ => ⟨fs, _, .refl .., fun _ => rfl⟩
  | .constant h => fun fs _ => ⟨fs, _, .refl .., fun _ => by simp [run, operandStep, h]⟩
  | .brackets h => by
    intro fs _
    have hopen : IsOpen (.brackets :: fs) := trivial
    obtain ⟨fs', T', halike, hrun⟩ := h.reads _ (hopen.accepts _)
    refine ⟨fs, T, .refl .., fun rest => ?_⟩
    rw [cons_append, run_opening, append_assoc, hrun]
    exact run_closing (by decide) hopen halike rest
  | @Derives.access _ _ _ I hf hi => by
    intro fs hfs
    obtain ⟨gs, F, halike, hrun⟩ := hf.reads fs hfs
    obtain ⟨rfl, rfl⟩ := halike.2 (Nat.le_refl 1)
    have hopen : IsOpen (.index F :: gs) := trivial
    obtain ⟨gs', I', halike', hrun'⟩ := hi.reads _ (hopen.accepts _)
    refine ⟨gs, .access F I, .refl .., fun rest => ?_⟩
    rw [append_assoc, hrun, cons_append, run_index, append_assoc, hrun']
    exact run_closing (by decide) hopen halike' rest
  | .call hf has => by
    intro fs hfs
    obtain ⟨gs, F, halike, hrun⟩ := hf.reads fs hfs
    obtain ⟨rfl, rfl⟩ := halike.2 (Nat.le_refl 1)
    refine ⟨gs, _, .refl .., fun rest => ?_⟩
    rw [append_assoc, hrun, cons_append, run_arguments, append_assoc]
    exact has.reads _ _ [] (fun _ => rfl) rest
  | .unary hop h => by
    intro fs _
    obtain ⟨fs', T', halike, hrun⟩ := h.reads (.unary _ :: fs) (Nat.le_refl 2)
    refine ⟨fs', T', ⟨halike.1, fun hl => absurd hl (by decide)⟩, fun rest => ?_⟩
    rw [cons_append, run_unary hop, hrun]
  | .binary hop hL hR => by
    intro fs hfs
    have hl := level_of_binaryLevel hop
    obtain ⟨fs₁, T₁, halike, hrun⟩ := hL.reads fs hfs
    obtain ⟨fs₂, T₂, halike', hrun'⟩ := hR.reads (.right _ _ _ :: fs) (Nat.lt_succ_self _)
    refine ⟨fs₂, T₂, ⟨fun m hm hm' => ?_, fun h => by omega⟩, fun rest => ?_⟩
    · rw [halike'.1 m (by omega) hm', close, if_pos hm]
    · rw [append_assoc, hrun, cons_append, run_operator hop hfs halike, hrun']
  | @Derives.conditional _ _ _ C Y N hC hY hN => by
    intro fs hfs
    have hfs' : Accepts 12 fs := hfs.mono (by decide)
    obtain ⟨fs₁, T₁, halike, hrun⟩ := hC.reads fs hfs'
    have hopen : IsOpen (.yes C :: fs) := trivial
    obtain ⟨fs₂, T₂, halike', hrun'⟩ := hY.reads _ (hopen.accepts _)
    obtain ⟨fs₃, T₃, halike₃, hrun₃⟩ := hN.reads (.no C Y :: fs) trivial
    refine ⟨fs₃, T₃, ⟨fun m hm hm' => ?_, fun h => absurd h (by decide)⟩, fun rest => ?_⟩
    · rw [halike₃.1 m hm hm', close, if_pos hm]
    · rw [append_assoc, hrun, cons_append, run_question hfs' halike, append_assoc, hrun',
        cons_append, run_closing (by decide) hopen halike']
      exact hrun₃ rest
  | .next hl h => by
    intro fs hfs
    obtain ⟨fs', T', halike, hrun⟩ := h.reads fs (hfs.mono (Nat.le_succ _))
    exact ⟨fs', T', halike.mono (Nat.le_succ _), hrun⟩

theorem DerivesList.reads {ts : List Token} {Ts : List Tree} : DerivesList ts Ts → ReadsList ts Ts
  | .nil => by
    intro fs f done hdone rest
    rw [hdone rfl]
    simp [run, operandStep, unaryMarks]
  | .one h => by
    intro fs f done _ rest
    have hopen : IsOpen (.arguments f done :: fs) := trivial
    obtain ⟨fs', T', halike, hrun⟩ := h.reads _ (hopen.accepts _)
    rw [hrun]
    exact run_closing (by decide) hopen halike rest
  | @DerivesList.more _ T _ _ h hs hne => by
    intro fs f done _ rest
    have hopen : IsOpen (.arguments f done :: fs) := trivial
    obtain ⟨fs', T', halike, hrun⟩ := h.reads _ (hopen.accepts _)
    rw [append_assoc, hrun, cons_append, run_closing (by decide) hopen halike]
    have hrest := hs.reads fs f (done ++ [T]) (fun hnil => absurd hnil hne) rest
    rwa [append_assoc] at hrest

end

/-- Tokens are derived from one tree at most. -/
lemma Derives.unique {ts : List Token} {T' : Tree} (h : Derives topLevel ts T)
    (h' : Derives topLevel ts T') : T' = T := by
  obtain ⟨fs, U, halike, hrun⟩ := h.reads [] trivial
  obtain ⟨fs', U', halike', hrun'⟩ := h'.reads [] trivial
  have hstate : some (fs, some U) = some (fs', some U') := (hrun []).symm.trans (hrun' [])
  simp only [Option.some.injEq, Prod.mk.injEq] at hstate
  obtain ⟨rfl, rfl⟩ := hstate
  have hclosed := (halike.1 topLevel (Nat.le_refl _) (by decide)).symm.trans
    (halike'.1 topLevel (Nat.le_refl _) (by decide))
  exact (congrArg Prod.snd hclosed).symm

end FormKernel.CText
