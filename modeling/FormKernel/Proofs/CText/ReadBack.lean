import FormKernel.Proofs.CText.Formatting

/-!
# What the text of an expression means

The text of an expression is read as one tree and no other.  It is the tree of the expression with
every literal rounded to sixteen significant digits, so it means the expression exactly if all its
literals can be told from their neighbours by so many digits.
-/

namespace FormKernel.CText

open Kernel FormKernel.Decimal

/-- A text is read as a tree. -/
def Parses (s : String) (T : Tree) : Prop := ∃ ts, lex s = some ts ∧ Derives topLevel ts T

mutual

/-- The floating-point literals of an expression. -/
def floats : Expr → List Float
  | .float x => [x]
  | .complex re im => [re, im]
  | .multiIndex _ _ _ flat => floats flat
  | .neg a | .not a => floats a
  | .binary _ a b => floats a ++ floats b
  | .nary _ _ _ args | .call _ args | .access _ args => allFloats args
  | .conditional c y n => floats c ++ floats y ++ floats n
  | .int _ | .symbol _ | .nan _ | .assign .. => []

/-- The floating-point literals of expressions. -/
def allFloats : List Expr → List Float
  | [] => []
  | e :: es => floats e ++ allFloats es

end

/-- The value is that of a number without its sign, rounded to sixteen significant digits. -/
def RoundsToSixteen (x : Float) (q : ℚ) : Prop :=
  match decode x with
  | .zero _ => q = 0
  | .finite _ b => IsRounding 16 b.value q
  | _ => False

/-- Whether a constant with an exact value is read as a number without its sign. -/
def readsAs (x : Float) (q : ℚ) : Bool :=
  match decode x with
  | .zero _ => q = 0
  | .finite _ b => b.holds ⟨q.num.toNat, q.den⟩
  | _ => false

/-- A tree is that of an expression, where constants stand for literals by a relation. -/
def IsTreeOf (t : Target) (R : Float → ℚ → Prop) (T : Tree) (e : Expr) : Prop :=
  ∃ value : Float → ℚ, (∀ x ∈ floats e, R x (value x)) ∧ T = treeOf t value e

/-! ## Literals -/

lemma mantissa_pos {m n bits : Nat} {negative : Bool} {b : Binary}
    (h : decodeFields m n bits = .finite negative b) : 0 < b.mantissa := by
  unfold decodeFields at h
  simp only at h
  split at h
  · split at h <;> cases h
  · split at h
    · split at h
      · cases h
      · cases h
        simp only
        omega
    · cases h
      exact Nat.add_pos_left (Nat.pow_pos (by decide)) _

lemma roundsToSixteen_sixteenValue {x : Float}
    (hx : IsFinite x) : RoundsToSixteen x (sixteenValue x) := by
  unfold IsFinite at hx
  unfold RoundsToSixteen sixteenValue
  cases hdecode : decode x with
  | nan | infinite negative => simp [hdecode] at hx
  | zero negative => rfl
  | finite negative b => exact isRounding_rounded (mantissa_pos hdecode) 16

lemma RoundsToSixteen.unique {x : Float} {q q' : ℚ} (h : RoundsToSixteen x q)
    (h' : RoundsToSixteen x q') : q' = q := by
  unfold RoundsToSixteen at h h'
  cases hdecode : decode x with
  | nan | infinite negative => simp [hdecode] at h
  | zero negative =>
    simp only [hdecode] at h h'
    rw [h, h']
  | finite negative b =>
    simp only [hdecode] at h h'
    exact h.unique h'

mutual

theorem isFinite_of_writable {t : Target} {index : Bool} {x : Float} :
    ∀ {e : Expr}, Writable t index e → x ∈ floats e → IsFinite x
  | .float y, he, hx => by
    obtain rfl : x = y := by simpa [floats] using hx
    exact he
  | .complex re im, he, hx => by
    rcases (by simpa [floats] using hx : x = re ∨ x = im) with rfl | rfl
    · exact he.1
    · exact he.2
  | .int _, _, hx => by simp [floats] at hx
  | .symbol _, _, hx => by simp [floats] at hx
  | .multiIndex .., he, hx => isFinite_of_writable he.2 (by simpa [floats] using hx)
  | .neg _, he, hx => isFinite_of_writable he.1 (by simpa [floats] using hx)
  | .not a, he, hx => isFinite_of_writable (e := a) he (by simpa [floats] using hx)
  | .binary _ a b, he, hx => by
    rcases (by simpa [floats] using hx : x ∈ floats a ∨ x ∈ floats b) with hx | hx
    · exact isFinite_of_writable he.1 hx
    · exact isFinite_of_writable he.2 hx
  | .nary .., he, hx => isFinite_of_allWritable he.2 (by simpa [floats] using hx)
  | .call .., he, hx => isFinite_of_allWritable he.2.2 (by simpa [floats] using hx)
  | .access .., he, hx => isFinite_of_allWritable he.2.2 (by simpa [floats] using hx)
  | .conditional c y n, he, hx => by
    rcases (by simpa [floats] using hx : x ∈ floats c ∨ x ∈ floats y ∨
      x ∈ floats n) with hx | hx | hx
    · exact isFinite_of_writable he.1 hx
    · exact isFinite_of_writable he.2.1 hx
    · exact isFinite_of_writable he.2.2 hx

theorem isFinite_of_allWritable {t : Target} {index : Bool} {x : Float} :
    ∀ {es : List Expr}, AllWritable t index es → x ∈ allFloats es → IsFinite x
  | [], _, hx => by simp [allFloats] at hx
  | e :: es, he, hx => by
    rcases (by simpa [allFloats] using hx : x ∈ floats e ∨ x ∈ allFloats es) with hx | hx
    · exact isFinite_of_writable he.1 hx
    · exact isFinite_of_allWritable he.2 hx

end

/-! ## Trees determine their constants -/

section Injectivity

variable {t : Target} {v v' : Float → ℚ}

lemma foldl_injective {f : Tree → Tree → Tree}
    (hf : ∀ {a b a' b'}, f a b = f a' b' → a = a' ∧ b = b') {Ts Ts' : List Tree} {T T' : Tree}
    (hlength : Ts.length = Ts'.length) (h : Ts.foldl f T = Ts'.foldl f T') : T = T' ∧ Ts = Ts' := by
  induction Ts generalizing T T' Ts' with
  | nil =>
    obtain rfl := List.eq_nil_of_length_eq_zero hlength.symm
    exact ⟨h, rfl⟩
  | cons U Us ih =>
    cases Ts' with
    | nil => cases hlength
    | cons U' Us' =>
      obtain ⟨hhead, rfl⟩ := ih (Nat.succ.inj hlength) h
      obtain ⟨rfl, rfl⟩ := hf hhead
      exact ⟨rfl, rfl⟩

lemma leftNested_injective {op : String} {Ts Ts' : List Tree} (hlength : Ts.length = Ts'.length)
    (h : leftNested op Ts = leftNested op Ts') : Ts = Ts' := by
  cases Ts with
  | nil => exact (List.eq_nil_of_length_eq_zero hlength.symm).symm
  | cons T Ts =>
    cases Ts' with
    | nil => cases hlength
    | cons T' Ts' =>
      obtain ⟨rfl, rfl⟩ := foldl_injective (f := .binary op)
        (fun h => by cases h; exact ⟨rfl, rfl⟩) (Nat.succ.inj hlength) h
      rfl

lemma length_treesOf (es : List Expr) : (treesOf t v es).length = (treesOf t v' es).length := by
  rw [treesOf_eq_map, treesOf_eq_map, List.length_map, List.length_map]

lemma literalTree_injective {x : Float} (h : literalTree v x = literalTree v' x) : v x = v' x := by
  unfold literalTree signed at h
  split at h <;> simpa using h

mutual

theorem value_eq_of_treeOf {x : Float} :
    ∀ {e : Expr}, treeOf t v e = treeOf t v' e → x ∈ floats e → v x = v' x
  | .float y, h, hx => by
    obtain rfl : x = y := by simpa [floats] using hx
    exact literalTree_injective (by simpa [treeOf] using h)
  | .complex re im, h, hx => by
    obtain ⟨hre, him⟩ : literalTree v re = literalTree v' re ∧
        literalTree v im = literalTree v' im := by
      simpa [treeOf] using h
    rcases (by simpa [floats] using hx : x = re ∨ x = im) with rfl | rfl
    · exact literalTree_injective hre
    · exact literalTree_injective him
  | .int _, _, hx => by simp [floats] at hx
  | .symbol _, _, hx => by simp [floats] at hx
  | .nan _, _, hx => by simp [floats] at hx
  | .assign .., _, hx => by simp [floats] at hx
  | .multiIndex _ _ _ flat, h, hx =>
    value_eq_of_treeOf (e := flat) (by simpa [treeOf] using h) (by simpa [floats] using hx)
  | .neg a, h, hx => value_eq_of_treeOf (e := a) (by simpa [treeOf] using h)
    (by simpa [floats] using hx)
  | .not a, h, hx => value_eq_of_treeOf (e := a) (by simpa [treeOf] using h)
    (by simpa [floats] using hx)
  | .binary op a b, h, hx => by
    obtain ⟨ha, hb⟩ : treeOf t v a = treeOf t v' a ∧ treeOf t v b = treeOf t v' b := by
      simpa [treeOf] using h
    rcases (by simpa [floats] using hx : x ∈ floats a ∨ x ∈ floats b) with hx | hx
    · exact value_eq_of_treeOf ha hx
    · exact value_eq_of_treeOf hb hx
  | .nary op _ _ args, h, hx => by
    rw [treeOf, treeOf] at h
    exact value_eq_of_treesOf (leftNested_injective (length_treesOf args) h)
      (by simpa [floats] using hx)
  | .call f args, h, hx => by
    rw [treeOf, treeOf, Tree.call.injEq] at h
    exact value_eq_of_treesOf h.2 (by simpa [floats] using hx)
  | .access s indices, h, hx => by
    rw [treeOf, treeOf] at h
    have hindices := foldl_injective (f := .access) (fun h => by cases h; exact ⟨rfl, rfl⟩)
      (length_treesOf indices) h
    exact value_eq_of_treesOf hindices.2 (by simpa [floats] using hx)
  | .conditional c y n, h, hx => by
    obtain ⟨hc, hy, hn⟩ : treeOf t v c = treeOf t v' c ∧ treeOf t v y = treeOf t v' y ∧
        treeOf t v n = treeOf t v' n := by simpa [treeOf] using h
    rcases (by simpa [floats] using hx : x ∈ floats c ∨ x ∈ floats y ∨
      x ∈ floats n) with hx | hx | hx
    · exact value_eq_of_treeOf hc hx
    · exact value_eq_of_treeOf hy hx
    · exact value_eq_of_treeOf hn hx

theorem value_eq_of_treesOf {x : Float} :
    ∀ {es : List Expr}, treesOf t v es = treesOf t v' es → x ∈ allFloats es → v x = v' x
  | [], _, hx => by simp [allFloats] at hx
  | e :: es, h, hx => by
    rw [treesOf, treesOf, List.cons.injEq] at h
    rcases (by simpa [allFloats] using hx : x ∈ floats e ∨ x ∈ allFloats es) with hx | hx
    · exact value_eq_of_treeOf h.1 hx
    · exact value_eq_of_treesOf h.2 hx

end

end Injectivity

/-! ## Texts -/

/-- The text of an expression is read as its tree, with literals rounded, and as no other. -/
lemma parses_iff {t : Target} {e : Expr} (he : Writable t false e) :
    ∃ s, formatExpr t e = .ok s ∧ ∀ T, Parses s T ↔ T = treeOf t sixteenValue e := by
  obtain ⟨s, ts, hs, hwritten⟩ := written t false he
  have hderives := hwritten.derives.mono (exprLevel_le e) (Nat.le_refl _)
  refine ⟨s, hs, fun T => ⟨?_, ?_⟩⟩
  · rintro ⟨ts', hlex, hT⟩
    obtain rfl : ts = ts' := Option.some.inj (hwritten.lexes.lex.symm.trans hlex)
    exact hderives.unique hT
  · rintro rfl
    exact ⟨ts, hwritten.lexes.lex, hderives⟩

/-- Sixteen digits of all literals are enough exactly if they are read as what they stand for. -/
lemma isTreeOf_iff {t : Target} {e : Expr} (he : Writable t false e) {R : Float → ℚ → Prop} :
    IsTreeOf t R (treeOf t sixteenValue e) e ↔ ∀ x ∈ floats e, ∀ q, RoundsToSixteen x q →
      R x q := by
  constructor
  · rintro ⟨value, hvalue, htree⟩ x hx q hq
    have hsixteen := roundsToSixteen_sixteenValue (isFinite_of_writable he hx)
    rw [hsixteen.unique hq, value_eq_of_treeOf htree hx]
    exact hvalue x hx
  · intro h
    exact ⟨sixteenValue, fun x hx =>
      h x hx _ (roundsToSixteen_sixteenValue (isFinite_of_writable he hx)), rfl⟩

/-- The text of an expression is read as one tree.  It is the tree of the expression with all
    literals rounded to sixteen significant digits, and it means the expression itself if and only
    if every literal is the number that its sixteen digits are read as. -/
theorem format_reads_back {t : Target} {e : Expr} (he : Writable t false e) :
    ∃ s T, formatExpr t e = .ok s ∧ (∀ T', Parses s T' ↔ T' = T) ∧ IsTreeOf t RoundsToSixteen T e ∧
      (IsTreeOf t (fun x q => readsAs x q = true) T e ↔
        ∀ x ∈ floats e, ∀ q, RoundsToSixteen x q → readsAs x q = true) := by
  obtain ⟨s, hs, hparses⟩ := parses_iff he
  exact ⟨s, treeOf t sixteenValue e, hs, hparses, (isTreeOf_iff he).2 fun _ _ _ hq => hq,
    isTreeOf_iff he⟩

def doublePrecision : Target := ⟨{ family := .real, bits := 64 }, { family := .real, bits := 64 }⟩

/-- An expression with all kinds of operators, a negative literal behind a minus sign of its own, an
    access with several indices that stand together, a call and a condition. -/
def mixedExpression : Expr :=
  let x : Expr := .symbol ⟨"x", some .scalar⟩
  let i : Expr := .symbol ⟨"i", some .int⟩
  let position : Expr := .nary .sum 1 .int [.nary .product 2 .int [.int (.int 3), i], i]
  .conditional (.binary .or (.not (.binary .le x (.float 0.5))) (.binary .ne x (.int (.int (-2)))))
    (.binary .sub (.neg (.access ⟨"w", some .scalar⟩ [i, .multiIndex 3 [i, i] [3, 3] position]))
      (.binary .sub x (.float (-2.5))))
    (.binary .div (.call "power" [x, .complex 1.5 (-0.25)]) (.binary .mul x (.neg (.float 0.1))))

theorem format_reads_back_mixedExpression :
    Writable doublePrecision false mixedExpression ∧
    ∃ T, (∀ T', Parses
      "!(x <= 0.5) || x != -2 ? -w[i][3 * i + i] - (x - -2.5) : pow(x, (1.5+I*-0.25)) / (x * -0.1)"
      T' ↔ T' = T) ∧
      IsTreeOf doublePrecision (fun x q => readsAs x q = true) T mixedExpression := by
  have hwritable : Writable doublePrecision false mixedExpression := by decide +kernel
  obtain ⟨s, T, hs, hparses, -, hreads⟩ := format_reads_back hwritable
  have hall : ∀ x ∈ floats mixedExpression, readsAs x (sixteenValue x) = true := by decide +kernel
  have htext : (formatExpr doublePrecision mixedExpression).toOption = some
      ("!(x <= 0.5) || x != -2 ? -w[i][3 * i + i] - (x - -2.5) : " ++
        "pow(x, (1.5+I*-0.25)) / (x * -0.1)") := by
    decide +kernel
  rw [hs] at htext
  obtain rfl := Option.some.inj htext
  refine ⟨hwritable, T, hparses, hreads.2 fun x hx q hq => ?_⟩
  rw [← hq.unique (roundsToSixteen_sixteenValue (isFinite_of_writable hwritable hx))]
  exact hall x hx

/-- The number after the one that is written as `0.3` has the same sixteen digits. -/
theorem format_loses_digits :
    Writable doublePrecision false (.float 0.30000000000000004) ∧
    formatExpr doublePrecision (.float 0.30000000000000004) = .ok "0.3" ∧
    ∀ T, Parses "0.3" T →
      ¬ IsTreeOf doublePrecision (fun x q => readsAs x q = true) T (.float 0.30000000000000004) :=
      by
  have hwritable : Writable doublePrecision false (.float 0.30000000000000004) := by decide
  have htext : (formatExpr doublePrecision (.float 0.30000000000000004)).toOption = some "0.3" := by
    decide +kernel
  obtain ⟨s, hs, hparses⟩ := parses_iff hwritable
  rw [hs] at htext
  obtain rfl := Option.some.inj htext
  refine ⟨hwritable, hs, fun T hT => ?_⟩
  obtain rfl := (hparses T).1 hT
  rw [isTreeOf_iff hwritable]
  intro hall
  have hfalse : readsAs 0.30000000000000004 (sixteenValue 0.30000000000000004) = false := by
    decide +kernel
  have htrue := hall _ (List.mem_singleton.2 rfl) _ (roundsToSixteen_sixteenValue hwritable)
  exact absurd htrue (by rw [hfalse]; decide)

end FormKernel.CText
