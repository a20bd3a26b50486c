import Mathlib
import ScriptLens.Text.Identifier
import ScriptLens.Token.Scan

/-!
# Lines and runs of a text

Where the lines of a text begin, which positions are inside the text, and how far a run of code
points of a class goes.
-/

namespace ScriptLens

namespace Text

open Array

theorem lt_length {t : Text} {i : Nat} (present : t.get i ≠ 0) : i < t.length := by
  by_contra beyond
  apply present
  rw [get, getD_eq_getD_getElem?, getElem?_eq_none (not_lt.1 beyond), Option.getD_none]

theorem lt_length_of {p : Nat → Bool} {t : Text} {i : Nat} (zero : p 0 = false)
    (member : p (t.get i) = true) : i < t.length
  := by
  apply lt_length
  intro absent
  rw [absent, zero] at member
  cases member

variable {t : Text} {i : Nat}

theorem lt_length_of_line :
  isLineTerminator (t.get i) = true → i < t.length
  := lt_length_of rfl

theorem length_of_occursAt {p : Text} (stands : p.occursAt t i = true) (nonempty : 0 < p.length) :
  i + p.length ≤ t.length
  := by
  have same := congrArg length (eq_of_beq stands)
  simp only [length, extract, size_extract] at same nonempty ⊢
  omega

theorem extract_append {j k : Nat} (first : i ≤ j) (second : j ≤ k) :
  t.extract i j ++ t.extract j k = t.extract i k
  := by
  apply congrArg Text.mk
  change t.points.extract i j ++ t.points.extract j k = _
  rw [extract_append_extract, min_eq_left first, max_eq_right second]

theorem get_add_of_occursAt {p : Text} {k : Nat} (stands : p.occursAt t i = true)
    (inside : k < p.length) : t.get (i + k) = p.get k
  := by
  have same : t.points.extract i (i + p.length) = p.points := congrArg points (eq_of_beq stands)
  have sized := congrArg size same
  have found := congrArg (fun a => a[k]?) same
  simp only [size_extract, getElem?_extract, length] at sized found inside
  rw [if_pos (by omega)] at found
  simp only [get, getD_eq_getD_getElem?, ← found]

theorem get_of_occursAt {p : Text} (stands : p.occursAt t i = true) (nonempty : 0 < p.length) :
  t.get i = p.get 0
  := get_add_of_occursAt stands nonempty

def breaksAt (t : Text) (i : Nat) : Bool :=
  isLineTerminator (t.get i) && !(t.get i == 10 && 0 < i && t.get (i - 1) == 13)

def lineAt (t : Text) (i : Nat) : Nat := (Cursor.start t).line + (List.range i).countP t.breaksAt

def lineStartAt (t : Text) : Nat → Nat
  | 0 => 0
  | i + 1 => if isLineTerminator (t.get i) then i + 1 else t.lineStartAt i

def isFlat (t : Text) : Bool := t.toList.all fun c => !isLineTerminator c

theorem lineStartAt_le (t : Text) (i : Nat) : t.lineStartAt i ≤ i := by
  induction i with
  | zero => exact le_rfl
  | succ i ih =>
    rw [lineStartAt]
    split
    · exact le_rfl
    · exact Nat.le_succ_of_le ih

theorem lineAt_succ : t.lineAt (i + 1) = t.lineAt i + if t.breaksAt i then 1 else 0
  := by simp [lineAt, List.range_succ, List.countP_cons, Nat.add_assoc]

theorem isLineTerminator_eq_false {p : Nat → Bool} {c : Nat} (member : p c = true)
    (others : (p 10 || p 13 || p 0x2028 || p 0x2029) = false) : isLineTerminator c = false
  := by grind [isLineTerminator]

theorem plain_of_hexValue {c d : Nat} (digit : hexValue? c = some d) : isLineTerminator c = false
  := isLineTerminator_eq_false (p := isHexDigit) (by rw [isHexDigit, digit]; rfl) rfl

theorem plain_of_octal {c : Nat} (member : isOctalDigit c = true) : isLineTerminator c = false
  := isLineTerminator_eq_false member rfl

theorem plain_of_blank {c : Nat} (member : isWhiteSpace c = true) : isLineTerminator c = false
  := isLineTerminator_eq_false member rfl

theorem plain_of_part {c : Nat} (member : isIdentifierPart c = true) : isLineTerminator c = false
  := by
  apply isLineTerminator_eq_false member
  -- without the bytes of the literals
  simp only [isIdentifierPart, isIdentifierStart, letters, continuations, Ranges.contains, Ranges.ofLines,
    List.flatMap_cons, -String.reduceToList]
  repeat rw [String.toList_ofList]
  decide +kernel

theorem plain_of_start {c : Nat} (member : isIdentifierStart c = true) : isLineTerminator c = false
  := plain_of_part (by rw [isIdentifierPart, member]; rfl)

end Text

namespace Scan

theorem spanEnd_bounds (p : Nat → Bool) (t : Text) (i n : Nat) :
  i ≤ spanEnd p t i n ∧ spanEnd p t i n ≤ i + n ∧
    (spanEnd p t i n < i + n → p (t.get (spanEnd p t i n)) = false)
  := by
  induction n generalizing i with
  | zero => simp [spanEnd]
  | succ n ih =>
    rw [spanEnd]
    have rest := ih (i + 1)
    split <;> grind

section

variable {p : Nat → Bool} {t : Text} {i : Nat}

theorem spanEnd_eq_self (other : p (t.get i) = false) (n : Nat) :
  spanEnd p t i n = i
  := by
  cases n with
  | zero => rfl
  | succ n => simp [spanEnd, other]

theorem spanEnd_holds {n k : Nat} (after : i ≤ k) (before : k < spanEnd p t i n) :
  p (t.get k) = true
  := by
  induction n generalizing i with
  | zero => exact absurd before (not_lt.2 after)
  | succ n ih =>
    rw [spanEnd] at before
    split at before
    · rename_i first
      obtain rfl | later := after.eq_or_lt
      · exact first
      · exact ih later before
    · exact absurd before (not_lt.2 after)

theorem all_of_spanEnd {q : Nat → Bool} (valid : ∀ c, p c = true → q c = true) (t : Text) (i n : Nat) :
  (t.extract i (spanEnd p t i n)).toList.all q = true
  := by
  apply List.all_eq_true.2
  intro c member
  obtain ⟨k, bound, rfl⟩ := Array.mem_iff_getElem.1 (Array.mem_toList_iff.1 member)
  rw [Text.extract, Array.size_extract] at bound
  have inside : i + k < t.points.size := by omega
  have run := spanEnd_holds (p := p) (t := t) (n := n) (Nat.le_add_right i k) (by omega)
  rw [Text.get, Array.getD_eq_getD_getElem?, Array.getElem?_eq_getElem inside] at run
  simpa [Text.extract] using valid _ run

theorem isDigitOf_hex (c : Nat) : Text.isDigitOf 16 c = Text.isHexDigit c
  := by grind [Text.isHexDigit, Text.isDigitOf, Text.hexValue?]

theorem isDigitOf_decimal (c : Nat) : Text.isDigitOf 10 c = Text.isDecimalDigit c
  := by grind [Text.isDecimalDigit, Text.isDigitOf, Text.hexValue?]

theorem isDigitOf_octal (c : Nat) : Text.isDigitOf 8 c = Text.isOctalDigit c
  := by grind [Text.isOctalDigit, Text.isDigitOf, Text.hexValue?]

theorem isDigitOf_binary (c : Nat) : Text.isDigitOf 2 c = (c == 48 || c == 49)
  := by grind [Text.isDigitOf, Text.hexValue?]

theorem run_some (zero : p 0 = false)
    (first : p (t.get i) = true) :
  (t.extract i (spanEnd p t i (t.length - i))).toList.isEmpty = false ∧
    i < spanEnd p t i (t.length - i)
  := by
  have inside : i < t.points.size := Text.lt_length_of zero first
  obtain ⟨m, left⟩ := Nat.exists_eq_succ_of_ne_zero (Nat.sub_ne_zero_of_lt inside)
  have bounds := spanEnd_bounds p t (i + 1) m
  have nonempty : 0 < (t.points.extract i (spanEnd p t (i + 1) m)).size := by
    rw [Array.size_extract]
    omega
  rw [Text.length, left, spanEnd, if_pos first, List.isEmpty_eq_false_iff_exists_mem]
  exact ⟨⟨_, Array.mem_toList_iff.2 (Array.getElem_mem nonempty)⟩, bounds.1⟩

end

end Scan

/-- The line at a position and its start are as given, and no line terminator is cut there. -/
structure Lined (t : Text) (i line : Nat) (start : Int) : Prop where
  line : line = t.lineAt i
  start : start = t.lineStartAt i
  whole : t.get i = 10 → i = 0 ∨ t.get (i - 1) ≠ 13

namespace Lined

open Text

variable {t : Text} {i l : Nat} {b : Int}

theorem next (lined : Lined t i l b) (plain : isLineTerminator (t.get i) = false) : Lined t (i + 1) l b
  := by
  refine ⟨?_, ?_, fun _ => .inr ?_⟩
  · rw [lineAt_succ, breaksAt, plain, lined.line]
    rfl
  · rw [lineStartAt, plain, lined.start]
    rfl
  · intro cut
    rw [Nat.add_sub_cancel] at cut
    rw [cut] at plain
    cases plain

theorem pass {p : Text} (lined : Lined t i l b) (stands : p.occursAt t i = true)
    (flat : p.isFlat = true) : Lined t (i + p.length) l b
  := by
  have far (k : Nat) (inside : k ≤ p.length) : Lined t (i + k) l b := by
    induction k with
    | zero => exact lined
    | succ k ih =>
      refine (ih (Nat.le_of_succ_le inside)).next ?_
      have member : p.get k ∈ p.toList := by
        rw [Text.get, Array.getD_eq_getD_getElem?, Array.getElem?_eq_getElem inside]
        exact Array.mem_toList_iff.2 (Array.getElem_mem _)
      rw [get_add_of_occursAt stands inside]
      simpa using List.all_eq_true.1 flat _ member
  exact far _ le_rfl

theorem run {p : Nat → Bool} (others : (p 10 || p 13 || p 0x2028 || p 0x2029) = false)
    (lined : Lined t i l b) (n : Nat) : Lined t (Scan.spanEnd p t i n) l b
  := by
  induction n generalizing i with
  | zero => exact lined
  | succ n ih =>
    rw [Scan.spanEnd]
    split
    · rename_i member
      exact ih (lined.next (isLineTerminator_eq_false member others))
    · exact lined

theorem feed (lined : Lined t i l b) (ends : isLineTerminator (t.get i) = true)
    (single : (t.get i == 13 && t.get (i + 1) == 10) = false) : Lined t (i + 1) (l + 1) (i + 1)
  := by
  have whole := lined.whole
  have breaks : t.breaksAt i = true := by grind [breaksAt]
  refine ⟨?_, ?_, by grind⟩
  · rw [lineAt_succ, breaks, lined.line]
    rfl
  · rw [lineStartAt, if_pos ends]
    rfl

theorem feedPair (lined : Lined t i l b) (pair : (t.get i == 13 && t.get (i + 1) == 10) = true) :
  Lined t (i + 2) (l + 1) (i + 2)
  := by
  have feeds : t.get (i + 1) = 10 := by grind
  have first : t.breaksAt i = true := by grind [breaksAt, isLineTerminator]
  have second : t.breaksAt (i + 1) = false := by grind [breaksAt]
  refine ⟨?_, ?_, fun _ => .inr ?_⟩
  · rw [lineAt_succ, lineAt_succ, first, second, lined.line]
    rfl
  · rw [lineStartAt, feeds]
    rfl
  · change t.get (i + 1) ≠ 13
    rw [feeds]
    decide

end Lined

/-- A diagnostic tells the line and the column of its index as they are seen from a position. -/
structure Diagnostic.Seen (t : Text) (p : Nat) (d : Diagnostic) : Prop where
  line : d.line = t.lineAt p
  column : d.column = d.index - t.lineStartAt p + 1

def Diagnostic.Located (t : Text) (d : Diagnostic) : Prop :=
  ∃ p, d.Seen t p ∧ (d.index = p ∨ d.index = p + 1 ∧ Text.isLineTerminator (t.get p) = true)

/-- The problem of a string that is not closed has the index of its quote and the line on which its
end was missed. -/
structure Diagnostic.Unclosed (t : Text) (d : Diagnostic) : Prop where
  problem : d.problem = .illegalToken
  quote : t.get d.index = 39 ∨ t.get d.index = 34
  seen : ∃ p, d.index < p ∧ d.Seen t p ∧ (t.length ≤ p ∨ Text.isLineTerminator (t.get p) = true)

section

variable {t : Text} {i l : Nat} {b : Int} {d : Diagnostic}

theorem Diagnostic.Located.column_pos (located : d.Located t) : 1 ≤ d.column := by
  obtain ⟨p, seen, near⟩ := located
  have before := t.lineStartAt_le p
  rw [seen.column]
  omega

theorem Lined.located (lined : Lined t i l b) (line : d.line = l) (column : d.column = d.index - b + 1)
    (index : d.index = i) : d.Located t
  := ⟨i, ⟨line.trans lined.line, by rw [column, lined.start]⟩, .inl index⟩

theorem Lined.located_behind (lined : Lined t i l b) (line : d.line = l)
    (column : d.column = d.index - b + 1) (index : d.index = i + 1) : d.Located t
  := by
  cases ends : Text.isLineTerminator (t.get i) with
  | false => exact (lined.next ends).located line column index
  | true => exact ⟨i, ⟨line.trans lined.line, by rw [column, lined.start]⟩, .inr ⟨index, ends⟩⟩

end

end ScriptLens
