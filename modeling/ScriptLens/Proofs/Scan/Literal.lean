import ScriptLens.Proofs.Scan.Extent

/-!
# Literals

A string literal stands for the characters that were written, in whichever of the ways to write them.
-/

set_option mvcgen.warning false

open Std.Do ScriptLens.Text

namespace ScriptLens.Scan

open List hiding extract length

def positional (base : Nat) (digits : List Nat) : Nat :=
  Nat.ofDigits base (digits.reverse.map fun c => (hexValue? c).getD 0)

theorem foldl_eq_positional (base : Nat) (digits : List Nat) :
  digits.foldl (fun n c => n * base + (hexValue? c).getD 0) 0 = positional base digits
  := by
  rw [positional, Nat.ofDigits_eq_foldr, foldr_map, foldr_reverse]
  simp only [Nat.cast_id, Nat.add_comm, Nat.mul_comm]

/-! ### What lies ahead -/

def onward (s : Source) (k : Nat) : List Nat := s.text.points.toList.drop k

variable {s : Source} {k : Nat} {l : List Nat}

theorem onward_eq_cons (inside : k < s.text.length) : onward s k = s.text.get k :: onward s (k + 1)
  := by
  rw [onward, drop_eq_getElem_cons inside, Text.get, Array.getD_eq_getD_getElem?,
    Array.getElem?_eq_getElem inside]
  rfl

theorem of_onward_cons {a : Nat} (ahead : onward s k = a :: l) :
  k < s.text.length ∧ s.text.get k = a ∧ onward s (k + 1) = l
  := by
  by_cases inside : k < s.text.length
  · rw [onward_eq_cons inside] at ahead
    cases ahead
    exact ⟨inside, rfl, rfl⟩
  · rw [onward, drop_of_length_le (not_lt.1 inside)] at ahead
    cases ahead

theorem of_onward_append {u : List Nat} (ahead : onward s k = u ++ l) : onward s (k + u.length) = l
  := by
  rw [onward, ← drop_drop, ← onward, ahead, drop_left]

theorem spanEnd_eq (p : Nat → Bool) (s : Source) {k n : Nat} (inside : k + n = s.text.length) :
  spanEnd p s.text k n = k + ((onward s k).takeWhile p).length
  := by
  induction n generalizing k with
  | zero => rw [onward, drop_of_length_le (show _ ≤ k from inside.ge)]; rfl
  | succ n ih =>
    rw [spanEnd, onward_eq_cons (by omega), takeWhile_cons]
    split
    · rw [ih (by omega), length_cons]
      omega
    · rfl

/-- From a position to another one, with a result, and without problems. -/
abbrev Gives {α : Type} (s : Source) (e : Array Diagnostic) (k : Nat) (x : Scan α) (a : α) (j : Nat) : Prop :=
  ⦃fun s' c => ⌜s' = s ∧ c.index = k ∧ c.errors = e⌝⦄ x
  ⦃post⟨fun r s' c => ⌜r = a ∧ s' = s ∧ c.index = j ∧ c.errors = e⌝, fun _ _ => ⌜False⌝⟩⦄

variable (s) (e : Array Diagnostic)

theorem takeRun_gives (p : Nat → Bool) (inside : k ≤ s.text.length) :
  Gives s e k (takeRun p) ((onward s k).takeWhile p) (k + ((onward s k).takeWhile p).length)
  := by
  have span := spanEnd_eq p s (Nat.add_sub_cancel' inside)
  have taken : (s.text.extract k (k + ((onward s k).takeWhile p).length)).toList = (onward s k).takeWhile p := by
    rw [extract, toList, Array.toList_extract, extract_eq_take_drop, Nat.add_sub_cancel_left]
    exact (prefix_iff_eq_take.1 (List.takeWhile_prefix p)).symm
  mvcgen [takeRun] with grind

theorem takeWhile_eq {p : Nat → Bool} {u : List Nat} {a : Nat} (all : ∀ c ∈ u, p c = true) (last : p a = false) :
  (u ++ a :: l).takeWhile p = u
  := by
  rw [takeWhile_append_of_pos all, takeWhile_cons, last]
  simp

/-! ### Strings -/

abbrev AllHex (ds : List Nat) : Prop := ∀ d ∈ ds, isHexDigit d = true

abbrev letters : List (Char × Nat) := [('n', 10), ('r', 13), ('t', 9), ('b', 8), ('f', 12), ('v', 11)]

/-- The ways to write characters after a backslash, or to continue a line there. -/
inductive Escape : List Nat → List Nat → Prop
  | two {ds : List Nat} : AllHex ds → ds.length = 2 → Escape ('x'.toNat :: ds) [positional 16 ds]
  | four {ds : List Nat} : AllHex ds → ds.length = 4 → Escape ('u'.toNat :: ds) [positional 16 ds]
  | braced {ds : List Nat} : AllHex ds → ds ≠ [] → positional 16 ds ≤ 0x10FFFF →
    Escape ('u'.toNat :: '{'.toNat :: (ds ++ ['}'.toNat])) [positional 16 ds]
  | letter {l : Char} {c : Nat} : (l, c) ∈ letters → Escape [l.toNat] [c]
  | other {c : Nat} : isLineTerminator c = false → isDecimalDigit c = false →
    c ∉ ['u', 'x', 'n', 'r', 't', 'b', 'f', 'v'].map Char.toNat → Escape [c] [c]
  | line {w : List Nat} : w ∈ [[10], [13], [13, 10], [0x2028], [0x2029]] → Escape w []

/-- The ways to write a text between quotes. -/
inductive Spells (q : Nat) : List Nat → List Nat → Prop
  | nil : Spells q [] []
  | plain {c : Nat} {w v : List Nat} : c ≠ q → c ≠ 92 → isLineTerminator c = false → Spells q w v →
    Spells q (c :: w) (c :: v)
  | escape {u v w x : List Nat} : Escape u v → Spells q w x → Spells q (92 :: (u ++ w)) (v ++ x)

theorem hexEscapeFrom_gives {ds : List Nat} (hex : AllHex ds) (v : Nat) (ahead : onward s k = ds ++ l) :
  Gives s e k (hexEscapeFrom v ds.length)
    (some (ds.foldl (fun n c => n * 16 + (hexValue? c).getD 0) v)) (k + ds.length)
  := by
  induction ds generalizing v k with
  | nil =>
    change Gives s e k (hexEscapeFrom v 0) _ _
    mvcgen [hexEscapeFrom]
  | cons d ds ih =>
    obtain ⟨digit, rest⟩ := forall_mem_cons.1 hex
    obtain ⟨inside, here, next⟩ := of_onward_cons ahead
    obtain ⟨n, value⟩ := Option.isSome_iff_exists.1 digit
    have step (v : Nat) := ih rest v next
    rw [foldl_cons, value, Option.getD_some, length_cons]
    clear ih
    mvcgen [hexEscapeFrom, step] with grind

theorem bracedEscape_gives {ds : List Nat} (hex : AllHex ds) (some : ds ≠ []) (small : positional 16 ds ≤ 0x10FFFF)
    (ahead : onward s k = ds ++ 125 :: l) : Gives s e k bracedEscape (positional 16 ds) (k + ds.length + 1)
  := by
  have inside : k ≤ s.text.length := by
    cases ds with
    | nil => exact absurd rfl some
    | cons d ds => exact (of_onward_cons ahead).1.le
  have first : s.text.get k ≠ 125 := by
    cases ds with
    | nil => exact absurd rfl some
    | cons d ds =>
      rw [(of_onward_cons ahead).2.1]
      rintro rfl
      exact absurd (hex 125 mem_cons_self) (by decide)
  obtain ⟨last, closes, -⟩ := of_onward_cons (of_onward_append ahead)
  have run := takeRun_gives s e isHexDigit inside
  rw [ahead, takeWhile_eq hex (by decide)] at run
  have valid : ds.all (isDigitOf 16) = true := by
    simpa using fun c member => (isDigitOf_hex c).trans (hex c member)
  have value := foldl_eq_positional 16 ds
  mvcgen [bracedEscape, run, digitsValue, fail] with grind

theorem ofList_singleton (c : Nat) : ofList [c] = singleton c := rfl

attribute [local grind =] isLineTerminator ofList_singleton

theorem continuation_gives {u : List Nat} {a : Nat} (ends : u ∈ [[10], [13], [13, 10], [0x2028], [0x2029]])
    (ahead : onward s k = u ++ a :: l) (single : a ≠ 10) : Gives s e k stringEscape ("", false) (k + u.length)
  := by
  have forms : u = [13, 10] ∨ ∃ b, u = [b] ∧ isLineTerminator b = true := by
    simp only [mem_cons, not_mem_nil, or_false] at ends
    grind
  have breaks : Gives s e k breakLine () (k + u.length) := by
    obtain rfl | ⟨b, rfl, isLine⟩ := forms
    all_goals
      obtain ⟨inside, here, next⟩ := of_onward_cons ahead
      obtain ⟨inside', here', -⟩ := of_onward_cons next
      mvcgen [breakLine] with grind
  have first : isLineTerminator (s.text.get k) = true ∧ k < s.text.length := by
    obtain rfl | ⟨b, rfl, isLine⟩ := forms
    · exact ⟨(of_onward_cons ahead).2.1 ▸ rfl, (of_onward_cons ahead).1⟩
    · exact ⟨(of_onward_cons ahead).2.1 ▸ isLine, (of_onward_cons ahead).1⟩
  mvcgen [stringEscape, breaks] with grind

theorem letter_gives {x : Char} {c : Nat} (listed : (x, c) ∈ letters) (ahead : onward s k = x.toNat :: l) :
  Gives s e k stringEscape (singleton c, false) (k + 1)
  := by
  obtain ⟨inside, here, next⟩ := of_onward_cons ahead
  have meanings : ∀ m ∈ letters, isLineTerminator m.1.toNat = false ∧ m.1.toNat ≠ 117 ∧ m.1.toNat ≠ 120 ∧
      simpleEscape? m.1.toNat = some m.2 := by decide
  obtain ⟨plain, four, two, meaning⟩ := meanings (x, c) listed
  mvcgen [stringEscape] with grind

theorem ordinary_gives {c : Nat} (plain : isLineTerminator c = false) (decimal : isDecimalDigit c = false)
    (ordinary : c ∉ ['u', 'x', 'n', 'r', 't', 'b', 'f', 'v'].map Char.toNat) (ahead : onward s k = c :: l) :
  Gives s e k stringEscape (singleton c, false) (k + 1)
  := by
  obtain ⟨inside, here, next⟩ := of_onward_cons ahead
  have others : c ≠ 117 ∧ c ≠ 120 ∧ simpleEscape? c = none := by
    simp only [map_cons, mem_cons, not_or, map_nil] at ordinary
    grind [simpleEscape?]
  mvcgen [stringEscape] with grind [isOctalDigit, isDecimalDigit]

theorem stringEscape_gives {u v : List Nat} {a : Nat} (escape : Escape u v) (ahead : onward s k = u ++ a :: l)
    (single : a ≠ 10) : Gives s e k stringEscape (ofList v, false) (k + u.length)
  := by
  cases escape
  case two ds hex two =>
    obtain ⟨inside, here, next⟩ := of_onward_cons ahead
    have run := hexEscapeFrom_gives s e hex 0 next
    rw [two, foldl_eq_positional] at run
    mvcgen [stringEscape, run] with grind
  case four ds hex four =>
    obtain ⟨inside, here, next⟩ := of_onward_cons ahead
    obtain ⟨d, rest, rfl⟩ := exists_cons_of_length_eq_add_one four
    obtain ⟨inside', here', -⟩ := of_onward_cons next
    have other : d ≠ 123 := by
      rintro rfl
      exact absurd (hex 123 mem_cons_self) (by decide)
    have run := hexEscapeFrom_gives s e hex 0 next
    rw [four, foldl_eq_positional] at run
    mvcgen [stringEscape, run] with grind
  case braced ds hex some small =>
    obtain ⟨inside, here, next⟩ := of_onward_cons ahead
    obtain ⟨inside', here', next'⟩ := of_onward_cons next
    have run := bracedEscape_gives s e hex some small (next'.trans (append_assoc ..))
    mvcgen [stringEscape, run] with grind
  case letter listed => exact letter_gives s e listed ahead
  case other plain decimal ordinary => exact ordinary_gives s e plain decimal ordinary ahead
  case line ends => exact continuation_gives s e ends ahead single

variable {q : Nat} {w v : List Nat}

theorem Spells.not_lineFeed (spells : Spells q w v) (quote : q ≠ 10) (l : List Nat) :
  ∃ a l', w ++ q :: l = a :: l' ∧ a ≠ 10
  := by
  cases spells with
  | nil => exact ⟨q, l, rfl, quote⟩
  | plain _ _ plain _ =>
    refine ⟨_, _, rfl, ?_⟩
    rintro rfl
    cases plain
  | escape => exact ⟨_, _, rfl, by decide⟩

theorem append_ofList (t : Text) (u w : List Nat) : t ++ ofList u ++ ofList w = t ++ ofList (u ++ w)
  := by
  apply congrArg mk
  change t.points ++ u.toArray ++ w.toArray = t.points ++ (u ++ w).toArray
  simp

theorem stringRest_gives (spells : Spells q w v) (quote : q = 39 ∨ q = 34) (acc : Text) (f : Bool) {n : Nat}
    (enough : w.length < n) (ahead : onward s k = w ++ q :: l) :
  Gives s e k (stringRest q acc f n) (some (acc ++ ofList v, f)) (k + w.length + 1)
  := by
  induction spells generalizing acc f k n
  all_goals obtain ⟨n, rfl⟩ := Nat.exists_eq_add_one_of_ne_zero (Nat.ne_zero_of_lt enough)
  case nil =>
    obtain ⟨inside, here, -⟩ := of_onward_cons ahead
    have same : acc ++ ofList [] = acc := congrArg mk (by simp [ofList])
    mvcgen [stringRest] with grind
  case plain c w v other unescaped plain spells ih =>
    obtain ⟨inside, here, next⟩ := of_onward_cons ahead
    have step (acc : Text) := ih acc f (Nat.lt_of_succ_lt_succ enough) next
    have same : acc.push c ++ ofList v = acc ++ ofList (c :: v) := append_ofList acc [c] v
    clear ih
    mvcgen [stringRest, step] with grind
  case escape u v w x escape spells ih =>
    obtain ⟨inside, here, next⟩ := of_onward_cons ahead
    obtain ⟨a, l', split, single⟩ := spells.not_lineFeed (by omega) l
    have next' : onward s (k + 1) = u ++ a :: l' := by rw [next, ← split]; exact append_assoc ..
    have first := stringEscape_gives s e escape next' single
    have step (acc : Text) (f : Bool) := ih acc f (n := n) (by simp at enough; omega)
      (of_onward_append (next'.trans (congrArg (u ++ ·) split.symm)))
    have same := append_ofList acc v x
    clear ih
    mvcgen [stringRest, first, step] with grind

/-- A text between quotes, however it is written, is read as what it stands for, up to the closing
quote, without problems and not as octal. -/
theorem string_decodes {c : Cursor} (quote : q = 39 ∨ q = 34) (spells : Spells q w v)
    (ahead : onward s c.index = q :: (w ++ q :: l)) :
  ∃ t c', string s c = .ok t c' ∧ t.value = .text (Text.ofList v) ∧ t.octal = false ∧
    c'.index = c.index + w.length + 2 ∧ t.start = c.index ∧ t.stop = c'.index ∧ c'.errors = c.errors
  := by
  obtain ⟨inside, here, next⟩ := of_onward_cons ahead
  have size : w.length < s.text.length := by
    have sized := congrArg List.length ahead
    simp only [onward, length_drop, length_cons, List.length_append, Array.length_toList] at sized
    change _ < s.text.points.size
    omega
  have same : ("" : Text) ++ Text.ofList v = Text.ofList v := congrArg Text.mk (by simp [Text.ofList, Text.ofString])
  have rest (q' n : Nat) (opened : q' = q) (fuel : n = s.text.length) :
      Gives s c.errors (c.index + 1) (stringRest q' "" false n) (some (Text.ofList v, false))
        (c.index + 1 + w.length + 1) := by
    subst opened fuel
    exact same ▸ stringRest_gives s c.errors spells quote "" false size next
  have spec : ⦃fun s' c' => ⌜s' = s ∧ c' = c⌝⦄ string
      ⦃post⟨fun t _ c' => ⌜t.value = .text (Text.ofList v) ∧ t.octal = false ∧ c'.index = c.index + w.length + 2 ∧
        t.start = c.index ∧ t.stop = c'.index ∧ c'.errors = c.errors⌝, fun _ _ => ⌜False⌝⟩⦄ := by
    mvcgen [string, token, rest]
    all_goals grind
  obtain ⟨gives, fails⟩ := triple_iff.1 spec ⟨rfl, rfl⟩
  cases run : string s c with
  | ok t c' => exact ⟨t, c', rfl, gives run⟩
  | error f c' => exact (fails run).elim

theorem string_decodes_mixed :
  ∃ t c', string { text := Text.ofList [34, 92, 120, 52, 49, 92, 117, 123, 48, 52, 50, 125, 92, 10, 99, 34] } {} = .ok t c' ∧
    t.value = .text "ABc" ∧ t.octal = false ∧ c'.index = 16 ∧ t.start = 0 ∧ t.stop = c'.index ∧ c'.errors = #[]
  := by
  have two : Escape [120, 52, 49] [65] := .two (show AllHex [52, 49] by decide) rfl
  have braced : Escape [117, 123, 48, 52, 50, 125] [66] :=
    .braced (show AllHex [48, 52, 50] by decide) (by decide) (by decide)
  have line : Escape [10] [] := .line (by decide)
  have spells : Spells 34 [92, 120, 52, 49, 92, 117, 123, 48, 52, 50, 125, 92, 10, 99] [65, 66, 99] :=
    .escape two (.escape braced (.escape line (.plain (by decide) (by decide) rfl .nil)))
  exact string_decodes _ (.inr rfl) spells (l := []) rfl

end ScriptLens.Scan
