import FormKernel.Proofs.Decimal.Printed
import FormKernel.Proofs.RowMajor
import FormKernel.Proofs.Table.Name
import FormKernel.Proofs.Text.Bracketed

/-!
# What the text of an array tells

Without its blanks the text of an array is a tree of brackets with numbers as leaves.  The tree is
read back from its text, and from the tree the shape and the texts of all numbers.  Where only the
first and last entries are shown the shape stands behind them.
-/

namespace FormKernel.Decimal

open CText FormKernel.Text
open Table (append_mark_inj)
open List

/-! ## Trees of brackets -/

inductive Nested where
  | leaf (cs : List Char)
  | node (children : List Nested)

/-- Brackets around a list, and the characters of its entries. -/
structure Brackets where
  left : Char
  right : Char
  inner : Char → Bool
  distinct : [left, right, ','].Nodup
  outer : ∀ c ∈ [left, right, ','], inner c = false

def squares : Brackets := ⟨'[', ']', isCellChar, by decide, by simp [isCellChar]⟩

mutual

def Nested.chars (b : Brackets) : Nested → List Char
  | .leaf cs => cs
  | .node [] => [b.left, b.right]
  | .node (t :: ts) => b.left :: (t.chars b ++ tailChars b ts)

/-- The text behind the first child of a node. -/
def Nested.tailChars (b : Brackets) : List Nested → List Char
  | [] => [b.right]
  | t :: ts => ',' :: (t.chars b ++ tailChars b ts)

end

mutual

/-- All leaves are texts of numbers, or what stands for them. -/
def Nested.Plain (b : Brackets) : Nested → Prop
  | .leaf cs => cs ≠ [] ∧ ∀ c ∈ cs, b.inner c = true
  | .node ts => AllPlain b ts

/-- All leaves of trees are texts of numbers. -/
def Nested.AllPlain (b : Brackets) : List Nested → Prop
  | [] => True
  | t :: ts => t.Plain b ∧ AllPlain b ts

end

variable {b : Brackets}

lemma Nested.allPlain_iff {ts : List Nested} : AllPlain b ts ↔ ∀ t ∈ ts, t.Plain b := by
  induction ts with
  | nil => simp [AllPlain]
  | cons t ts ih => rw [AllPlain, ih, forall_mem_cons]

def Nested.extend : Option Nested → Char → Option Nested
  | none, c => some (.leaf [c])
  | some (.leaf cs), c => some (.leaf (cs ++ [c]))
  | some (.node _), _ => none

/-- Reads a tree from the front of a text.  Each open bracket has the entries before its last comma,
    and `item` is what stands behind it. -/
def Nested.read (b : Brackets) :
    List Char → List (List Nested) → Option Nested → Option (Nested × List Char)
  | [], [], item => item.map (·, [])
  | [], _ :: _, _ => none
  | c :: cs, levels, item =>
    if b.inner c then (extend item c).bind fun t => read b cs levels (some t)
    else if c = b.left ∧ item.isNone then read b cs ([] :: levels) none
    else
      match levels with
      | [] => item.map (·, c :: cs)
      | children :: above =>
        if c = b.right then read b cs above (some (.node (children ++ item.toList)))
        else if c = ',' then item.bind fun t => read b cs ((children ++ [t]) :: above) none
        else none

section Read

variable {c : Char} {cs ds rest : List Char} {levels : List (List Nested)} {item : Option Nested}
  {children : List Nested}

lemma Nested.read_inner (hc : b.inner c = true) :
    read b (c :: rest) levels item = (extend item c).bind fun t => read b rest levels (some t) := by
  cases levels <;> rw [read, if_pos hc]

lemma Nested.read_left : read b (b.left :: rest) levels none = read b rest ([] :: levels) none := by
  cases levels <;> rw [read, if_neg (by simp [b.outer]), if_pos ⟨rfl, rfl⟩]

lemma Nested.read_right :
    read b (b.right :: rest) (children :: levels) item =
      read b rest levels (some (.node (children ++ item.toList))) := by
  have hdistinct := b.distinct
  simp only [nodup_cons, mem_cons] at hdistinct
  rw [read, if_neg (by simp [b.outer]), if_neg (by grind), if_pos rfl]

lemma Nested.read_comma {t : Nested} :
    read b (',' :: rest) (children :: levels)
    (some t) = read b rest ((children ++ [t]) :: levels) none := by
  have hdistinct := b.distinct
  simp only [nodup_cons, mem_cons] at hdistinct
  rw [read, if_neg (by simp [b.outer]), if_neg (by simp), if_neg (by grind), if_pos rfl]
  rfl

lemma Nested.read_leaf (h : ∀ c ∈ cs, b.inner c = true) :
    read b (cs ++ rest) levels (some (.leaf ds)) = read b rest levels (some (.leaf (ds ++ cs))) :=
  by
  induction cs generalizing ds with
  | nil => rw [nil_append, append_nil]
  | cons c cs ih =>
    obtain ⟨hc, hcs⟩ := forall_mem_cons.1 h
    rw [cons_append, read_inner hc]
    exact (ih hcs).trans (by rw [append_assoc, singleton_append])

mutual

theorem Nested.read_chars {rest : List Char} {levels : List (List Nested)} :
    ∀ {t : Nested}, t.Plain b → read b (t.chars b ++ rest) levels none = read b rest levels (some t)
  | .leaf [], h => absurd rfl h.1
  | .leaf (c :: cs), h => by
    obtain ⟨hc, hcs⟩ := forall_mem_cons.1 h.2
    rw [chars, cons_append, read_inner hc]
    exact read_leaf hcs
  | .node [], _ => by
    rw [chars, cons_append, read_left]
    exact read_right
  | .node (t :: ts), h => by
    rw [chars, cons_append, append_assoc, read_left, read_chars h.1]
    exact read_tailChars h.2

theorem Nested.read_tailChars {rest : List Char} {levels : List (List Nested)} {t : Nested} :
    ∀ {children ts : List Nested}, AllPlain b ts →
      read b (tailChars b ts ++ rest) (children :: levels) (some t) =
        read b rest levels (some (.node (children ++ t :: ts)))
  | _, [], _ => read_right
  | children, t' :: ts, h => by
    rw [tailChars, cons_append, append_assoc, read_comma, read_chars h.1, read_tailChars h.2,
      append_assoc, singleton_append]

end

/-- The text goes on with a character that ends a number. -/
def Stops (b : Brackets) (cs : List Char) : Prop := ∃ c ds, cs = c :: ds ∧ b.inner c = false

lemma stops_cons (hc : b.inner c = false) (cs : List Char) : Stops b (c :: cs) := ⟨c, cs, rfl, hc⟩

lemma Nested.read_front {t : Nested} (ht : t.Plain b) (hrest : Stops b rest) :
    read b (t.chars b ++ rest) [] none = some (t, rest) := by
  obtain ⟨c, ds, rfl, hc⟩ := hrest
  rw [read_chars ht, read, if_neg (by simp [hc]), if_neg (by simp)]
  rfl

end Read

mutual

theorem Nested.mem_chars {c : Char} :
    ∀ {t : Nested}, t.Plain b → c ∈ t.chars b → b.inner c = true ∨ c ∈ [b.left, b.right, ',']
  | .leaf _, ht, hc => .inl (ht.2 c hc)
  | .node [], _, hc => .inr (by rw [chars] at hc; exact mem_append_left [','] hc)
  | .node (t :: ts), ht, hc => by
    rw [chars, mem_cons, mem_append] at hc
    rcases hc with rfl | hc | hc
    · exact .inr (by simp)
    · exact mem_chars ht.1 hc
    · exact mem_tailChars ht.2 hc

theorem Nested.mem_tailChars {c : Char} :
    ∀ {ts : List Nested}, AllPlain b ts → c ∈ tailChars b ts → b.inner c = true ∨
      c ∈ [b.left, b.right, ',']
  | [], _, hc => .inr (by simp_all [tailChars])
  | t :: ts, ht, hc => by
    rw [tailChars, mem_cons, mem_append] at hc
    rcases hc with rfl | hc | hc
    · exact .inr (by simp)
    · exact mem_chars ht.1 hc
    · exact mem_tailChars ht.2 hc

end

/-! ## Pieces of lists -/

section Pieces

variable {α β : Type}

@[simp] lemma length_chunks (k n : Nat) (xs : List α) : (chunks k n xs).length = n := by
  induction n generalizing xs with
  | zero => rfl
  | succ n ih => rw [chunks, length_cons, ih]

variable {k n : Nat} {xs : List α}

lemma flatten_chunks (h : xs.length = n * k) : (chunks k n xs).flatten = xs := by
  induction n generalizing xs with
  | zero => exact (eq_nil_of_length_eq_zero (by rw [h, Nat.zero_mul])).symm
  | succ n ih =>
    have hrest : (xs.drop k).length = n * k := by
      rw [length_drop, h, Nat.succ_mul, Nat.add_sub_cancel]
    rw [chunks, flatten_cons, ih hrest, take_append_drop]

variable {c ys : List α} {x : α}

lemma length_of_mem_chunks (h : xs.length = n * k) (hc : c ∈ chunks k n xs) : c.length = k := by
  induction n generalizing xs with
  | zero => simp [chunks] at hc
  | succ n ih =>
    rw [Nat.succ_mul] at h
    rw [chunks, mem_cons] at hc
    rcases hc with rfl | hc
    · rw [length_take]
      omega
    · exact ih (by rw [length_drop]; omega) hc

lemma mem_of_mem_chunks (hc : c ∈ chunks k n xs) (hx : x ∈ c) : x ∈ xs := by
  induction n generalizing xs with
  | zero => simp [chunks] at hc
  | succ n ih =>
    rw [chunks, mem_cons] at hc
    rcases hc with rfl | hc
    · exact mem_of_mem_take hx
    · exact mem_of_mem_drop (ih hc)

lemma chunks_map (f : α → β) (k n : Nat) (xs : List α) :
    chunks k n (xs.map f) = (chunks k n xs).map (map f) := by
  induction n generalizing xs with
  | zero => rfl
  | succ n ih => rw [chunks, chunks, map_cons, ← map_take, ← map_drop, ih]

lemma chunks_one (h : xs.length = n) : chunks 1 n xs = xs.map ([·]) := by
  induction xs generalizing n with
  | nil =>
    subst h
    rfl
  | cons x xs ih =>
    subst h
    rw [length_cons, chunks, map_cons, ← ih rfl]
    rfl

lemma map_withDots (f : α → β) (dots : α) (xs : List α) (hidden : Bool) :
    (withDots dots xs hidden).map f = withDots (f dots) (xs.map f) hidden := by
  unfold withDots
  split
  · rw [map_append, map_cons, map_take, map_drop]
  · rfl

lemma withDots_injective {dots : α} {hidden : Bool} (hlength : xs.length = ys.length)
    (h : withDots dots xs hidden = withDots dots ys hidden) : xs = ys := by
  unfold withDots at h
  split at h
  · obtain ⟨htake, hdrop⟩ := append_inj h (by rw [length_take, length_take, hlength])
    rw [← take_append_drop 3 xs, htake, (cons.inj hdrop).2, take_append_drop]
  · exact h

lemma eq_of_map_eq {f g : α → β} (hf : ∀ x ∈ xs, ∀ y ∈ ys, f x = g y → x = y)
    (h : xs.map f = ys.map g) : xs = ys := by
  induction xs generalizing ys with
  | nil => exact (map_eq_nil_iff.1 h.symm).symm
  | cons x xs ih =>
    cases ys with
    | nil => simp at h
    | cons y ys =>
      obtain ⟨hhead, htail⟩ := cons.inj h
      rw [hf x mem_cons_self y mem_cons_self hhead, ih (fun a ha b hb =>
        hf a (mem_cons_of_mem x ha) b (mem_cons_of_mem y hb)) htail]

lemma length_flatMap_const {f : α → List β} (h : ∀ x ∈ xs, (f x).length = k) :
    (xs.flatMap f).length = xs.length * k := by
  rw [length_flatMap, map_congr_left h, map_const', sum_replicate, smul_eq_mul]

lemma mem_of_mem_ends (h : x ∈ ends xs) : x ∈ xs := by
  unfold ends at h
  split at h
  · exact (mem_append.1 h).elim mem_of_mem_take mem_of_mem_drop
  · exact h

lemma length_ends (xs : List α) : (ends xs).length = shown true xs.length := by
  unfold ends shown
  by_cases h : xs.length > 6
  · rw [if_pos h, if_pos (by simpa using h), length_append, length_take, length_drop]
    omega
  · rw [if_neg h, if_neg (by simpa using h)]

lemma length_corners {shape : List Nat} (h : xs.length = volume shape) :
    (corners shape xs).length = volume (shape.map (shown true)) := by
  induction shape generalizing xs with
  | nil => exact h
  | cons n rest ih =>
    rw [volume_cons] at h
    rw [corners, length_flatMap_const fun c hc => ih (length_of_mem_chunks h (mem_of_mem_ends hc)),
      length_ends, length_chunks, map_cons, volume_cons]

/-- Of a column the first and last entries are shown. -/
lemma corners_column (h : xs.length = n) : corners [n, 1] xs = ends xs := by
  have hends : ∀ ys : List α, ends (ys.map ([·])) = (ends ys).map ([·]) := fun ys => by
    rw [ends, ends, length_map, ← map_take, ← map_drop, ← map_append, ← apply_ite (map ([·]))]
  have hone : ∀ x : α, corners [1] [x] = [x] := fun _ => rfl
  rw [corners, volume_cons, volume_nil, chunks_one h, hends, flatMap_map]
  simp [hone]

end Pieces

/-! ## Shapes -/

/-- The tree of the texts that are shown of an array. -/
def nest (summary : Bool) : List Nat → List (List Char) → Nested
  | [], texts => .leaf (texts.headD [])
  | n :: rest, texts =>
    let rows :=
      (chunks (volume (rest.map (shown summary))) (shown summary n) texts).map (nest summary rest)
    .node (withDots (.leaf ['.', '.', '.']) rows (summary && n > 6))

section Nest

variable {summary : Bool} {shape shape' : List Nat} {texts texts' : List (List Char)}

lemma map_shown_false (shape : List Nat) : shape.map (shown false) = shape := by
  have hid : shown false = id := funext fun n => by simp [shown]
  rw [hid, map_id]

lemma plain_nest (hdot : b.inner '.' = true)
    (hlength : texts.length = volume (shape.map (shown summary)))
    (hplain : ∀ cs ∈ texts, cs ≠ [] ∧ ∀ c ∈ cs, b.inner c = true) :
    (nest summary shape texts).Plain b := by
  induction shape generalizing texts with
  | nil =>
    obtain ⟨cs, rfl⟩ := length_eq_one_iff.1 hlength
    exact hplain cs mem_cons_self
  | cons n rest ih =>
    rw [map_cons, volume_cons] at hlength
    have hrows : ∀ t ∈ (chunks (volume (rest.map (shown summary))) (shown summary n) texts).map
        (nest summary rest), t.Plain b := by
      intro t ht
      obtain ⟨c, hc, rfl⟩ := mem_map.1 ht
      exact ih (length_of_mem_chunks hlength hc) fun cs hcs => hplain cs (mem_of_mem_chunks hc hcs)
    rw [nest, Nested.Plain, Nested.allPlain_iff]
    intro t ht
    unfold withDots at ht
    split at ht
    · rcases mem_append.1 ht with ht | ht
      · exact hrows t (mem_of_mem_take ht)
      · rcases mem_cons.1 ht with rfl | ht
        · exact ⟨by simp, by simp [hdot]⟩
        · exact hrows t (mem_of_mem_drop ht)
    · exact hrows t ht

/-- The texts are read back from a tree of a known shape. -/
lemma nest_injective (hlength : texts.length = volume (shape.map (shown summary)))
    (hlength' : texts'.length = volume (shape.map (shown summary)))
    (h : nest summary shape texts = nest summary shape texts') : texts = texts' := by
  induction shape generalizing texts texts' with
  | nil =>
    obtain ⟨cs, rfl⟩ := length_eq_one_iff.1 hlength
    obtain ⟨cs', rfl⟩ := length_eq_one_iff.1 hlength'
    simpa [nest] using h
  | cons n rest ih =>
    rw [map_cons, volume_cons] at hlength hlength'
    rw [nest, nest, Nested.node.injEq] at h
    have hrows := withDots_injective (by simp) h
    have hchunks := eq_of_map_eq (fun c hc c' hc' heq => ih (length_of_mem_chunks hlength hc)
      (length_of_mem_chunks hlength' hc') heq) hrows
    rw [← flatten_chunks hlength, hchunks, flatten_chunks hlength']

/-- The shape is read back from a tree that shows all texts. -/
lemma shape_eq_of_nest (hlength : texts.length = volume shape)
    (hlength' : texts'.length = volume shape') (hpos : 0 < texts.length) (hpos' : 0 < texts'.length)
    (h : nest false shape texts = nest false shape' texts') : shape = shape' := by
  induction shape generalizing texts shape' texts' with
  | nil =>
    cases shape' with
    | nil => rfl
    | cons n' rest' => simp [nest] at h
  | cons n rest ih =>
    cases shape' with
    | nil => simp [nest] at h
    | cons n' rest' =>
      simp only [nest, Nested.node.injEq, withDots, Bool.false_and, Bool.false_eq_true, if_false,
        map_shown_false] at h
      rw [volume_cons] at hlength hlength'
      have hn : n = n' := by simpa [shown] using congrArg length h
      subst hn
      obtain ⟨m, rfl⟩ : ∃ m, n = m + 1 := Nat.exists_eq_succ_of_ne_zero fun hzero => by
        rw [hzero, Nat.zero_mul] at hlength
        omega
      rw [Nat.succ_mul] at hlength hlength'
      have hrest :=
        Nat.pos_of_mul_pos_left (by rwa [Nat.succ_mul, ← hlength] : 0 < (m + 1) * volume rest)
      have hrest' :=
        Nat.pos_of_mul_pos_left (by rwa [Nat.succ_mul, ← hlength'] : 0 < (m + 1) * volume rest')
      have hfirst : nest false rest (texts.take (volume rest)) =
          nest false rest' (texts'.take (volume rest')) :=
        (cons.inj h).1
      have htake : (texts.take (volume rest)).length = volume rest := by
        rw [length_take]
        omega
      have htake' : (texts'.take (volume rest')).length = volume rest' := by
        rw [length_take]
        omega
      rw [ih htake htake' (by omega) (by omega) hfirst]

end Nest

/-! ## Texts without blanks -/

section Squeeze

variable {summary : Bool}

def leafOf (s : String) : Nested := .leaf (squeeze s.toList)

lemma squeeze_lineTail (indent width column : Nat) (ws : List String) :
    squeeze ((lineTail indent width column ws).toList ++ [']']) =
      Nested.tailChars squares (ws.map leafOf) := by
  induction ws generalizing column with
  | nil => rfl
  | cons w ws ih =>
    have hcomma : squeeze ",\n".toList = [','] ∧ squeeze ", ".toList = [','] := ⟨rfl, rfl⟩
    rw [lineTail]
    split
    · simp only [String.toList_append, String.toList_ofList, append_assoc, squeeze_append,
        squeeze_blanks, hcomma]
      rw [← squeeze_append, ih]
      simp [leafOf, Nested.tailChars, Nested.chars]
    · simp only [String.toList_append, append_assoc, squeeze_append, hcomma]
      rw [← squeeze_append, ih]
      simp [leafOf, Nested.tailChars, Nested.chars]

lemma squeeze_lineTexts (indent width : Nat) (ws : List String) :
    squeeze ("[" ++ lineTexts indent width ws ++ "]").toList =
      (Nested.node (ws.map leafOf)).chars squares := by
  have hopen : squeeze "[".toList = ['['] := rfl
  rw [String.toList_append, String.toList_append, append_assoc, squeeze_append, hopen]
  cases ws with
  | nil => rfl
  | cons w ws =>
    have htail := squeeze_lineTail indent width (indent + w.length) ws
    rw [lineTexts, String.toList_append, append_assoc, squeeze_append]
    exact congrArg (fun cs => '[' :: (squeeze w.toList ++ cs)) htail

variable {rows : List String} {sep : String} {ts : List Nested}

lemma squeeze_intercalate (hsep : squeeze sep.toList = [',']) {r : String} {t : Nested}
    (hr : squeeze r.toList = t.chars b)
    (hrows : rows.map (fun r => squeeze r.toList) = ts.map (Nested.chars b)) :
    squeeze (sep.intercalate (r :: rows)).toList ++ [b.right] = t.chars b ++
      Nested.tailChars b ts := by
  induction rows generalizing r t ts with
  | nil =>
    obtain rfl := map_eq_nil_iff.1 hrows.symm
    rw [String.intercalate_singleton, hr]
    rfl
  | cons r' rows ih =>
    cases ts with
    | nil => simp at hrows
    | cons t' ts =>
      obtain ⟨hr', hrows'⟩ := cons.inj hrows
      rw [String.intercalate_cons_cons, String.toList_append, String.toList_append, squeeze_append,
        squeeze_append, hsep, append_assoc, append_assoc, ih hr' hrows', hr]
      rfl

/-- Rows with a comma and blanks between them. -/
lemma squeeze_rows {opens closes : String} (hopens : squeeze opens.toList = [b.left])
    (hcloses : squeeze closes.toList = [b.right]) (hsep : squeeze sep.toList = [','])
    (hrows : rows.map (fun r => squeeze r.toList) = ts.map (Nested.chars b)) :
    squeeze (opens ++ sep.intercalate rows ++ closes).toList = (Nested.node ts).chars b := by
  rw [String.toList_append, String.toList_append, append_assoc, squeeze_append, squeeze_append,
    hopens, hcloses]
  cases rows with
  | nil =>
    obtain rfl := map_eq_nil_iff.1 hrows.symm
    rfl
  | cons r rows =>
    cases ts with
    | nil => simp at hrows
    | cons t ts =>
      obtain ⟨hr, hrows'⟩ := cons.inj hrows
      exact congrArg (b.left :: ·) (squeeze_intercalate hsep hr hrows')

/-- Without its blanks the text of an array is that of a tree. -/
lemma squeeze_nestedTexts {shape : List Nat} {texts : List String} (indent width : Nat)
    (hlength : texts.length = volume (shape.map (shown summary))) :
    squeeze (nestedTexts summary indent width shape texts).toList =
      (nest summary shape (texts.map fun s => squeeze s.toList)).chars squares := by
  induction shape generalizing indent width texts with
  | nil =>
    obtain ⟨s, rfl⟩ := length_eq_one_iff.1 hlength
    rfl
  | cons n rest ih =>
    rw [map_cons, volume_cons] at hlength
    cases rest with
    | nil =>
      rw [map_nil, volume_nil, Nat.mul_one] at hlength
      have hleaves : (chunks 1 (shown summary n) (texts.map fun s => squeeze s.toList)).map
          (nest summary []) = texts.map leafOf := by
        rw [chunks_one (by rw [length_map, hlength]), map_map, map_map]
        rfl
      rw [nestedTexts, squeeze_lineTexts, map_withDots, nest, map_nil, volume_nil, hleaves]
      rfl
    | cons m rest =>
      have hsep : squeeze ("," ++ String.ofList (replicate (m :: rest).length '\n' ++
          replicate indent ' ')).toList = [','] := by
        simp only [String.toList_append, String.toList_ofList, squeeze_append, squeeze_blanks,
          squeeze_breaks]
        rfl
      have hdots : squeeze "...".toList = (Nested.leaf ['.', '.', '.']).chars squares := rfl
      rw [nestedTexts, nest]
      · refine squeeze_rows rfl rfl hsep ?_
        rw [map_withDots, map_withDots, hdots, chunks_map, map_map, map_map, map_map]
        congr 1
        refine map_congr_left fun c hc => ?_
        exact ih (indent + 1) (width - 1) (length_of_mem_chunks hlength hc)
      · simp

end Squeeze

/-! ## Arrays -/

section Arrays

/-- What is seen of the entries of an array. -/
def marks (a : Dense Float) : List Mark :=
  (visible a).map fun x => (decode x).mark (needsExponent (visible a))

/-- The array has as many entries as its shape says. -/
def Filled (a : Dense Float) : Prop := a.data.size = volume a.shape

variable {a b : Dense Float}

/-- The texts of the entries of an array that are shown, without blanks. -/
def cells (a : Dense Float) : List (List Char) :=
  (alignedTexts (visible a)).map fun s => squeeze s.toList

lemma exists_columns (a : Dense Float) : ∃ c : Columns, c.exponents = needsExponent (visible a) ∧
    cells a = (visible a).map fun x => squeeze (c.text ((decode x).printed c.exponents)).toList :=
  ⟨_, rfl, by rw [cells, alignedTexts, map_map, map_map]; rfl⟩

lemma marks_eq_map (a : Dense Float) : marks a = (cells a).map Mark.read := by
  obtain ⟨c, hc, hcells⟩ := exists_columns a
  rw [marks, hcells, ← hc, map_map]
  exact map_congr_left fun x _ => (shows_text c (decode x)).read.symm

lemma plain_cells (a : Dense Float) : ∀ cs ∈ cells a, cs ≠ [] ∧ IsCell cs := by
  obtain ⟨c, -, hcells⟩ := exists_columns a
  rw [hcells, forall_mem_map]
  exact fun x _ => ⟨(shows_text c (decode x)).ne_nil, (shows_text c (decode x)).plain⟩

lemma length_visible (ha : Filled a) :
    (visible a).length = volume (a.shape.map (shown (summarised a))) := by
  unfold visible
  cases hsummary : summarised a with
  | true => exact length_corners ha
  | false =>
    rwa [map_shown_false]

lemma length_cells (ha : Filled a) : (cells a).length =
    volume (a.shape.map (shown (summarised a))) := by
  obtain ⟨c, -, hcells⟩ := exists_columns a
  rw [hcells, length_map, length_visible ha]

lemma cells_of_isEmpty (h : a.data.isEmpty = true) : cells a = [] := by
  have hdata : a.data = #[] := by simpa using h
  simp [cells, alignedTexts, visible, summarised, hdata]

def treeOf (a : Dense Float) : Nested :=
  if a.data.isEmpty then .node [] else nest (summarised a) a.shape (cells a)

lemma squeeze_arrayBody (ha : Filled a) : squeeze (arrayBody a).toList = (treeOf a).chars squares :=
  by
  have hlength := length_cells ha
  rw [cells, length_map] at hlength
  unfold arrayBody treeOf
  split
  · rfl
  · exact squeeze_nestedTexts 7 74 hlength

lemma plain_treeOf (ha : Filled a) : (treeOf a).Plain squares := by
  unfold treeOf
  split
  · trivial
  · exact plain_nest (by decide) (length_cells ha) (plain_cells a)

/-- The text of an array with something behind its entries. -/
lemma arrayText_of_extras (h : arrayExtras a ≠ []) : ∃ space : String, '=' ∉ space.toList ∧
    arrayText a = "array(" ++ arrayBody a ++ "," ++ space ++
      (", ".intercalate (arrayExtras a) ++ ")") := by
  refine ⟨_, ?_, by rw [arrayText, if_neg (by simpa using h)]⟩
  split <;> decide

lemma squeeze_arrayText (ha : Filled a) : ∃ rest, Stops squares rest ∧
    squeeze (arrayText a).toList = "array(".toList ++ ((treeOf a).chars squares ++ rest) := by
  have harray : squeeze "array(".toList = "array(".toList := by decide
  by_cases hextras : arrayExtras a = []
  · refine ⟨[')'], stops_cons (by decide) [], ?_⟩
    rw [arrayText, if_pos (by simp [hextras]), String.toList_append, String.toList_append,
      squeeze_append, squeeze_append, harray, squeeze_arrayBody ha, append_assoc]
    rfl
  · obtain ⟨space, -, htext⟩ := arrayText_of_extras hextras
    refine ⟨',' :: squeeze (space ++ (", ".intercalate (arrayExtras a) ++ ")")).toList,
      stops_cons (by decide) _, ?_⟩
    have hcomma : squeeze ",".toList = [','] := rfl
    rw [htext]
    simp only
      [String.toList_append, squeeze_append, harray, squeeze_arrayBody ha, append_assoc, hcomma]
    rfl

lemma notMem_arrayBody (ha : Filled a) : '=' ∉ (arrayBody a).toList := by
  intro hmem
  have hsqueeze : '=' ∈ squeeze (arrayBody a).toList := mem_filter.2 ⟨hmem, by decide⟩
  rw [squeeze_arrayBody ha] at hsqueeze
  exact absurd (Nested.mem_chars (plain_treeOf ha) hsqueeze) (by decide)

lemma dropWhile_mark {front : List Char} (h : '=' ∉ front) (rest : List Char) :
    (front ++ '=' :: rest).dropWhile (· != '=') = '=' :: rest := by
  have hall : ∀ c ∈ front, (c != '=') = true := fun c hc => by
    rw [bne_iff_ne]
    rintro rfl
    exact h hc
  rw [dropWhile_append_of_pos hall, dropWhile_cons_of_neg (by decide)]

/-- What stands behind the entries of an array, from the first equality sign on. -/
def behind (a : Dense Float) : List Char :=
  let extents := (inRounds (a.shape.map toString)).toList
  if a.data.isEmpty then
    if a.shape = [0] then '=' :: "float64)".toList else '=' ::
      (extents ++ ", dtype=float64)".toList)
  else if summarised a then '=' :: (extents ++ [')']) else []

lemma dropWhile_arrayText (ha : Filled a) : (arrayText a).toList.dropWhile (· != '=') = behind a :=
  by
  have hbody := notMem_arrayBody ha
  have hcut : ∀ word rest : String, '=' ∉ word.toList →
      ", ".intercalate (arrayExtras a) ++ ")" = word ++ ("=" ++ rest) →
      (arrayText a).toList.dropWhile (· != '=') = '=' :: rest.toList := by
    intro word rest hword hextras
    have hne : arrayExtras a ≠ [] := fun hnil => by
      rw [hnil, ← String.toList_inj] at hextras
      have hmem : '=' ∈ (word ++ ("=" ++ rest)).toList := by simp
      rw [← hextras] at hmem
      exact absurd hmem (by decide)
    obtain ⟨space, hspace, htext⟩ := arrayText_of_extras hne
    rw [htext, hextras, ← String.append_assoc, ← String.append_assoc]
    simp only [String.toList_append, append_assoc]
    rw [← append_assoc, ← append_assoc, ← append_assoc, ← append_assoc]
    refine dropWhile_mark ?_ rest.toList
    simp [hbody, hspace, hword]
  generalize hextents : inRounds (a.shape.map toString) = extents at hcut
  unfold behind
  rw [hextents]
  by_cases hempty : a.data.isEmpty = true
  · have hall : summarised a = false := by
      have hsize : a.data.size = 0 := by simpa using hempty
      simp [summarised, hsize]
    by_cases hshape : a.shape = [0]
    · have hextras : arrayExtras a = ["dtype=float64"] := by
        simp [arrayExtras, hempty, hall, hshape]
      rw [if_pos hempty, if_pos hshape]
      exact hcut "dtype" "float64)" (by decide) (by rw [hextras]; rfl)
    · have hextras : arrayExtras a = ["shape=" ++ extents, "dtype=float64"] := by
        simp [arrayExtras, hempty, hshape, hextents]
      rw [if_pos hempty, if_neg hshape, ← String.toList_append]
      refine hcut "shape" _ (by decide) ?_
      rw [hextras, String.intercalate_cons_cons, String.intercalate_singleton, ← String.toList_inj]
      simp
  · by_cases hsummary : summarised a = true
    · have hextras : arrayExtras a = ["shape=" ++ extents] := by
        simp [arrayExtras, hempty, hsummary, hextents]
      rw [if_neg hempty, if_pos hsummary]
      have hdrop := hcut "shape" (extents ++ ")") (by decide) (by
        rw [hextras, String.intercalate_singleton, ← String.toList_inj]
        simp)
      rwa [String.toList_append] at hdrop
    · have hextras : arrayExtras a = [] := by simp [arrayExtras, hempty, hsummary]
      rw [if_neg hempty, if_neg hsummary, arrayText, if_pos (by simp [hextras])]
      refine dropWhile_eq_nil_iff.2 fun c hc => ?_
      rw [bne_iff_ne]
      rintro rfl
      simp [hbody] at hc

/-- The extents of an array are read back. -/
lemma extents_injective {s s' : List Nat} {r r' : List Char}
    (h : (inRounds (s.map toString)).toList ++ r = (inRounds (s'.map toString)).toList ++ r') :
    s = s' ∧ r = r' := by
  have hnot : ∀ {c : Char}, c.isDigit = false →
      ∀ s : List Nat, ∀ x ∈ s.map toString, c ∉ x.toList := by
    intro c hc s x hx
    obtain ⟨n, -, rfl⟩ := mem_map.1 hx
    rw [toList_toString]
    exact (allDigits_toDigits n).notMem hc
  have hbracket : ∀ s : List Nat, ')' ∉ [','].intercalate (roundParts (s.map toString)) := by
    intro s hmem
    rcases mem_intercalate_roundParts hmem with hc | hc | ⟨x, hx, hc⟩
    · exact absurd hc (by decide)
    · exact absurd hc (by decide)
    · exact hnot (by decide) s x hx hc
  rw [toList_inRounds, toList_inRounds, cons_append, cons_append, append_assoc, append_assoc] at h
  obtain ⟨hparts, hrest⟩ := append_mark_inj (hbracket s) (hbracket s') (cons.inj h).2
  have htexts := intercalate_roundParts_injective (hnot (by decide) s) (hnot (by decide) s') hparts
  exact ⟨map_injective_iff.2 (fun m n hmn => Nat.repr_inj.1 hmn) htexts, hrest⟩

lemma extents_ne_float (s : List Nat) (r : List Char) :
    (inRounds (s.map toString)).toList ++ r ≠ "float64)".toList := by
  intro h
  rw [toList_inRounds] at h
  exact absurd (cons.inj h).1 (by decide)

/-- What stands behind the entries tells whether there are any and whether all are shown, and the
    shape where they do not tell it. -/
lemma behind_injective (h : behind a = behind b) :
    a.data.isEmpty = b.data.isEmpty ∧ (a.data.isEmpty = true → a.shape = b.shape) ∧
      (a.data.isEmpty = false → summarised a = summarised b ∧
        (summarised a = true → a.shape = b.shape)) := by
  unfold behind at h
  cases hempty : a.data.isEmpty with
  | true =>
    rw [if_pos hempty] at h
    cases hempty' : b.data.isEmpty with
    | true =>
      rw [if_pos hempty'] at h
      refine ⟨rfl, fun _ => ?_, by simp⟩
      split at h
      · split at h
        · simp_all
        · exact absurd (cons.inj h).2.symm (extents_ne_float _ _)
      · split at h
        · exact absurd (cons.inj h).2 (extents_ne_float _ _)
        · exact (extents_injective (cons.inj h).2).1
    | false =>
      rw [if_neg (Bool.eq_false_iff.1 hempty')] at h
      split at h
      · split at h
        · exact absurd (cons.inj h).2.symm (extents_ne_float _ _)
        · cases h
      · split at h
        · exact absurd (extents_injective (cons.inj h).2).2 (by decide)
        · cases h
  | false =>
    rw [if_neg (Bool.eq_false_iff.1 hempty)] at h
    cases hempty' : b.data.isEmpty with
    | true =>
      rw [if_pos hempty'] at h
      split at h
      · split at h
        · exact absurd (cons.inj h).2 (extents_ne_float _ _)
        · exact absurd (extents_injective (cons.inj h).2).2 (by decide)
      · split at h <;> cases h
    | false =>
      rw [if_neg (Bool.eq_false_iff.1 hempty')] at h
      refine ⟨rfl, by simp, fun _ => ?_⟩
      split at h
      · next hsummary =>
        split at h
        · next hsummary' =>
          exact ⟨hsummary.trans hsummary'.symm, fun _ => (extents_injective (cons.inj h).2).1⟩
        · cases h
      · next hall =>
        split at h
        · cases h
        · next hall' => simp_all

/-- Arrays with the same text have the same shape, and the same is seen of their entries. -/
lemma arrayText_tells (ha : Filled a) (hb : Filled b) (h : arrayText a = arrayText b) :
    a.shape = b.shape ∧ marks a = marks b := by
  obtain ⟨rest, hrest, htext⟩ := squeeze_arrayText ha
  obtain ⟨rest', hrest', htext'⟩ := squeeze_arrayText hb
  -- the brackets tell the tree, and what stands behind them the shape if the tree does not
  have htree : treeOf a = treeOf b := by
    rw [h, htext'] at htext
    have hread := Nested.read_front (plain_treeOf hb) hrest'
    rw [append_cancel_left htext, Nested.read_front (plain_treeOf ha) hrest] at hread
    exact congrArg Prod.fst (Option.some.inj hread)
  have hbehind : behind a = behind b := by rw [← dropWhile_arrayText ha, h, dropWhile_arrayText hb]
  obtain ⟨hempty', hnone, hsome⟩ := behind_injective hbehind
  rw [marks_eq_map, marks_eq_map]
  cases hempty : a.data.isEmpty with
  | true =>
    rw [cells_of_isEmpty hempty, cells_of_isEmpty (hempty' ▸ hempty)]
    exact ⟨hnone hempty, rfl⟩
  | false =>
    obtain ⟨hsummary, hextents⟩ := hsome hempty
    have hlength := length_cells ha
    have hlength' := length_cells hb
    have hempty_b : b.data.isEmpty = false := hempty' ▸ hempty
    rw [treeOf, if_neg (Bool.eq_false_iff.1 hempty), treeOf, if_neg (Bool.eq_false_iff.1 hempty_b),
      ← hsummary] at htree
    rw [← hsummary] at hlength'
    have hshape : a.shape = b.shape := by
      cases hall : summarised a with
      | true => exact hextents hall
      | false =>
        rw [hall, map_shown_false] at hlength hlength'
        have hpos {v : Dense Float} (hv : Filled v)
            (h : v.data.isEmpty = false) : 0 < volume v.shape := by
          rw [← hv]
          simpa [Nat.pos_iff_ne_zero] using h
        exact shape_eq_of_nest hlength hlength' (hlength ▸ hpos ha hempty)
          (hlength' ▸ hpos hb hempty_b) (hall ▸ htree)
    rw [← hshape] at hlength' htree
    rw [nest_injective hlength hlength' htree]
    exact ⟨hshape, rfl⟩

/-- All entries that are shown are legible. -/
def Legible (a : Dense Float) : Prop :=
  ∀ x ∈ visible a, (decode x).legible (needsExponent (visible a)) = true

instance (a : Dense Float) : Decidable (Legible a) :=
  inferInstanceAs
    (Decidable (∀ x ∈ visible a, (decode x).legible (needsExponent (visible a)) = true))

lemma visible_eq_of_marks (ha : Legible a) (hb : Legible b) (h : marks a = marks b) :
    visible a = visible b :=
  eq_of_map_eq (fun x hx y hy => eq_of_mark (ha x hx) (hb y hy)) h

lemma summarised_eq (ha : Filled a) (hb : Filled b) (h : a.shape = b.shape) :
    summarised a = summarised b := by
  rw [summarised, summarised, ha, hb, h]

/-- The text of an array depends on its shape and on the entries that are shown. -/
lemma arrayText_eq_of_visible (ha : Filled a) (hb : Filled b) (hshape : a.shape = b.shape)
    (h : visible a = visible b) : arrayText a = arrayText b := by
  have hempty : a.data.isEmpty = b.data.isEmpty := by
    rw [Bool.eq_iff_iff, Array.isEmpty_iff_size_eq_zero, Array.isEmpty_iff_size_eq_zero,
      ha, hb, hshape]
  have hbody : arrayBody a = arrayBody b := by
    rw [arrayBody, arrayBody, hempty, summarised_eq ha hb hshape, hshape, h]
  have hextras : arrayExtras a = arrayExtras b := by
    rw [arrayExtras, arrayExtras, hempty, summarised_eq ha hb hshape, hshape]
  rw [arrayText, arrayText, hbody, hextras]

end Arrays

end FormKernel.Decimal
