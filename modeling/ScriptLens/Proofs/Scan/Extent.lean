import ScriptLens.Token.Stream
import ScriptLens.Proofs.Computation
import ScriptLens.Proofs.Scan.Lines

/-!
# How far tokens extend

Every scanner of a token begins where the cursor stands, ends behind that place and not behind the
end of the source.
-/

set_option mvcgen.warning false

open Std.Do ScriptLens.Text

namespace ScriptLens

namespace Scan

section

variable {α : Type} {P : Source → Cursor → Prop} {Q : α → Source → Cursor → Prop}
  {E : Failure → Cursor → Prop} {x : Scan α}

theorem triple_iff :
  ⦃fun s c => ⌜P s c⌝⦄ x ⦃post⟨fun a s c => ⌜Q a s c⌝, fun f c => ⌜E f c⌝⟩⦄ ↔
    ∀ {s c}, P s c →
      (∀ {a c'}, x s c = .ok a c' → Q a s c') ∧ ∀ {f c'}, x s c = .error f c' → E f c'
  := by
  have post (s : Source) (c : Cursor) :
      (wp⟦(x s : EStateM Failure Cursor α)⟧ post⟨fun a c => ⌜Q a s c⌝, fun f c => ⌜E f c⌝⟩ c).down ↔
        (∀ {a c'}, x s c = .ok a c' → Q a s c') ∧ ∀ {f c'}, x s c = .error f c' → E f c' := by
    cases run : x s c with
    | ok a c' => simp [WP.wp, PredTrans.apply, EStateM.run, run]
    | error f c' => simp [WP.wp, PredTrans.apply, EStateM.run, run]
  exact ⟨fun holds s c pre => (post s c).1 (holds s c pre), fun leads s c pre => (post s c).2 (leads pre)⟩

theorem triple_of_index (holds : ∀ n, ⦃fun s c => ⌜P s c ∧ c.index = n⌝⦄ x
      ⦃post⟨fun a s c => ⌜Q a s c⌝, fun f c => ⌜E f c⌝⟩⦄) :
  ⦃fun s c => ⌜P s c⌝⦄ x ⦃post⟨fun a s c => ⌜Q a s c⌝, fun f c => ⌜E f c⌝⟩⦄
  := triple_iff.2 fun {_ c} pre => triple_iff.1 (holds c.index) ⟨pre, rfl⟩

end

/-- The cursor is at a place or behind it, and not behind the end of the source if `b` holds. -/
structure Held (s : Source) (i : Nat) (b : Prop) (s' : Source) (c : Cursor) : Prop where
  source : s' = s
  after : i ≤ c.index
  inside : b → c.index ≤ s.text.length

/-- Moreover the line is counted, and the problems recorded are located. -/
structure Counted (s : Source) (i : Nat) (b : Prop) (s' : Source) (c : Cursor) : Prop extends
    Held s i b s' c where
  lined : Lined s.text c.index c.line c.lineStart
  recorded : ∀ d ∈ c.errors, d.Located s.text

/-- The line is still that of an earlier place `o`. -/
structure Along (s : Source) (o i : Nat) (s' : Source) (c : Cursor) : Prop extends
    Counted s i True s' c where
  along : Lined s.text o c.line c.lineStart

/-- The cursor is at a place before the end of the source. -/
structure Standing (s : Source) (i : Nat) (s' : Source) (c : Cursor) : Prop extends
    Counted s i True s' c where
  index : c.index = i
  before : i < s.text.length

structure Spans (s : Source) (i : Nat) (t : Token) (s' : Source) (c : Cursor) : Prop extends
    Counted s (i + 1) True s' c where
  start : t.start = i
  stop : t.stop = c.index

def Enough (s : Source) (n : Nat) (c : Cursor) : Prop := s.text.length - c.index < n

/-- A failure is a problem of the source that is told with its place. -/
structure Told (s : Source) (f : Failure) (c : Cursor) : Prop where
  told : ∃ d, f = .source d ∧ (d.Located s.text ∨ d.Unclosed s.text)
  recorded : ∀ d ∈ c.errors, d.Located s.text

abbrev Tells {α : Type} (s : Source) (P : Source → Cursor → Prop) (x : Scan α)
    (Q : α → Source → Cursor → Prop) : Prop :=
  ⦃fun s c => ⌜P s c⌝⦄ x ⦃post⟨fun a s c => ⌜Q a s c⌝, fun f c => ⌜Told s f c⌝⟩⦄

abbrev Counts {α : Type} (s : Source) (i : Nat) (b : Prop) (x : Scan α) : Prop :=
  Tells s (Counted s i b) x fun _ => Counted s i b

abbrev Stays {α : Type} (s : Source) (o i : Nat) (x : Scan α) : Prop :=
  Tells s (Along s o i) x fun _ => Along s o i

abbrev Loops {α : Type} (s : Source) (i n : Nat) (x : Scan α) : Prop :=
  Tells s (fun s' c => Counted s i True s' c ∧ Enough s n c) x fun _ => Counted s i True

abbrev Lexes (s : Source) (i : Nat) (x : Scan Token) (p : Prop) : Prop :=
  Tells s (fun s' c => Standing s i s' c ∧ p) x (Spans s i)

variable (s : Source) (o i : Nat) (b : Prop)

variable {s} in
theorem Told.intro {d : Diagnostic} {c : Cursor} (located : d.Located s.text ∨ d.Unclosed s.text)
    (recorded : ∀ d ∈ c.errors, d.Located s.text) : Told s (.source d) c
  := ⟨⟨d, rfl, located⟩, recorded⟩

attribute [local grind] Held Counted Along Standing Spans Enough
attribute [local grind =] isLineTerminator Array.mem_push Failure.source.injEq Bool.and_eq_false_iff
attribute [local grind →] lt_length lt_length_of_line plain_of_hexValue plain_of_octal
  plain_of_blank plain_of_start plain_of_part
attribute [local grind .] Lined.next Lined.located Lined.located_behind Told.intro

theorem tolerate_spec (p : Problem) : Counts s i b (tolerate p)
  := by mvcgen [tolerate] with grind

theorem breakLine_spec :
  Tells s (fun s' c => Counted s i True s' c ∧ isLineTerminator (s.text.get c.index) = true) breakLine
    fun _ => Counted s (i + 1) True
  := by mvcgen [breakLine] with grind [Lined.feed, Lined.feedPair]

/-- What is taken of a class: code points of it, as many as there are. -/
structure Taken (t : Text) (p d : Nat → Bool) (q : Prop) (k j : Nat) (r : List Nat) : Prop where
  valid : r.all d = true
  ended : j < t.length → p (t.get j) = false
  some : q → p 0 = false → p (t.get k) = true → r.isEmpty = false ∧ k < j
  none : q → p (t.get k) = false → j = k

theorem taken {p d : Nat → Bool} (valid : ∀ c, p c = true → d c = true) (t : Text) {q : Prop} {i k : Nat}
    (start : q → i = k) :
  Taken t p d q k (spanEnd p t i (t.length - i)) (t.extract i (spanEnd p t i (t.length - i))).toList
  := by
  have bounds := spanEnd_bounds p t i (t.length - i)
  refine ⟨all_of_spanEnd valid .., fun inside => bounds.2.2 (by omega), fun here zero first => ?_,
    fun here first => ?_⟩
  · obtain rfl := start here
    exact run_some zero first
  · obtain rfl := start here
    exact spanEnd_eq_self first _

theorem takeRun_spec {p d : Nat → Bool} (valid : ∀ c, p c = true → d c = true)
    (others : (p 10 || p 13 || p 0x2028 || p 0x2029) = false) (q : Prop) (k : Nat) :
  Tells s (fun s' c => Along s o i s' c ∧ (q → c.index = k)) (takeRun p)
    fun r s' c => Along s o i s' c ∧ Taken s.text p d q k c.index r
  := by
  have run {i l : Nat} {b : Int} (lined : Lined s.text i l b) := lined.run others
  have taken {i : Nat} := taken (q := q) (i := i) (k := k) valid s.text
  have bounds := spanEnd_bounds p s.text
  mvcgen [takeRun] with grind

attribute [local grind] Taken

/-! ### Comments -/

theorem lineComment_counts (w : Nat) : Counts s i True (lineComment w) := by
  refine triple_of_index fun k => ?_
  have run := takeRun_spec s k k (p := fun c => !Text.isLineTerminator c) (d := fun _ => true)
    (fun _ _ => rfl) rfl False 0
  have line := breakLine_spec s k
  mvcgen [lineComment, run, line] with grind

theorem skipBlock_counts (n : Nat) : Loops s i n (skipBlock n) := by
  induction n with
  | zero => mvcgen [skipBlock]; grind
  | succ n ih =>
    refine triple_of_index fun k => ?_
    have line := breakLine_spec s k
    mvcgen [skipBlock, line, ih] with grind

theorem trivia_counts (f : Bool) :
  Tells s (Standing s i) (trivia f) fun r => Counted s (if r.isSome then i + 1 else i) True
  := by
  have next := breakLine_spec s i
  have line := lineComment_counts s (i + 1)
  have block := skipBlock_counts s (i + 1)
  have complain := tolerate_spec s (i + 1) True
  have long := @length_of_occursAt
  have pass {p : Text} {k l : Nat} {b : Int} (stands : p.occursAt s.text k = true)
    (lined : Lined s.text k l b) := lined.pass stands
  have widths : ("//" : Text).length = 2 ∧ ("/*" : Text).length = 2 ∧ ("-->" : Text).length = 3 ∧
    ("<!--" : Text).length = 4 := by decide
  have flat : ("//" : Text).isFlat ∧ ("/*" : Text).isFlat ∧ ("-->" : Text).isFlat ∧ ("<!--" : Text).isFlat := by
    decide
  mvcgen [trivia, next, line, blockComment, block, complain] with grind

theorem triviaFrom_counts (f : Bool) (acc : Array Comment) (n : Nat) : Loops s i n (triviaFrom f acc n)
  := by
  induction n generalizing f acc with
  | zero => mvcgen [triviaFrom]; grind
  | succ n ih =>
    refine triple_of_index fun k => ?_
    have step := trivia_counts s k
    mvcgen [triviaFrom, step, ih] with grind

theorem comments_counts : Counts s i True comments := by
  have steps := triviaFrom_counts s i
  mvcgen [comments, steps] with grind

/-! ### Names and numbers -/

theorem hexEscapeFrom_stays (v n : Nat) : Stays s o i (hexEscapeFrom v n) := by
  induction n generalizing v with
  | zero => mvcgen [hexEscapeFrom]
  | succ n ih => mvcgen [hexEscapeFrom, ih] with grind

theorem bracedEscape_stays : Stays s o i bracedEscape := by
  have run := takeRun_spec s o i (fun c => (isDigitOf_hex c).trans) rfl False 0
  mvcgen [bracedEscape, run, digitsValue, fail] with grind

theorem nameEscape_stays (p : Nat → Bool) : Stays s o i (nameEscape p) := by
  have hex := hexEscapeFrom_stays s o i
  have braced := bracedEscape_stays s o i
  mvcgen [nameEscape, hex, braced, fail] with grind

theorem nameRest_stays (acc : Text) (n : Nat) :
  Tells s (fun s' c => Along s o i s' c ∧ Enough s n c) (nameRest acc n) fun _ => Along s o i
  := by
  induction n generalizing acc with
  | zero => mvcgen [nameRest]; grind
  | succ n ih =>
    refine triple_of_index fun k => ?_
    have escape := nameEscape_stays s o (k + 1)
    mvcgen [nameRest, ih, escape] with grind

theorem word_spans : Lexes s i word (isIdentifierStart (s.text.get i) = true) := by
  have escape := nameEscape_stays s i (i + 1)
  have rest := nameRest_stays s i (i + 1)
  mvcgen [word, name, token, escape, rest, tolerate] with grind

theorem exponentPart_stays : Stays s o i exponentPart := by
  have run := takeRun_spec s o i (fun c => (isDigitOf_decimal c).trans) rfl False 0
  mvcgen [exponentPart, run, digitsValue, fail] with grind

def BeginsNumber (t : Text) (i : Nat) : Prop :=
  isDecimalDigit (t.get i) = true ∨ t.get i = 46 ∧ isDecimalDigit (t.get (i + 1)) = true

attribute [local grind] BeginsNumber

theorem fractionPart_stays :
  Tells s (fun s' c => Along s o i s' c ∧ (s.text.get o = 46 → c.index = o)) fractionPart fun r s' c =>
    Along s o i s' c ∧ (s.text.get o = 46 → isDecimalDigit (s.text.get (o + 1)) = true →
      r.isEmpty = false ∧ o < c.index)
  := by
  have run := takeRun_spec s o i (fun c => (isDigitOf_decimal c).trans) rfl (s.text.get o = 46) (o + 1)
  mvcgen [fractionPart, run] with grind [isDecimalDigit]

theorem decimalLiteral_spans (start : Nat) :
  Lexes s i (decimalLiteral start) (BeginsNumber s.text i ∧ start = i)
  := by
  have whole := takeRun_spec s i i (fun c => (isDigitOf_decimal c).trans) rfl True i
  have fraction := fractionPart_stays s i (if s.text.get i = 46 then i else i + 1)
  have exponent := exponentPart_stays s i (i + 1)
  mvcgen [decimalLiteral, whole, fraction, exponent, notFollowedBy, token, fail] with grind [isDecimalDigit]

theorem numeric_spans : Lexes s i numeric (BeginsNumber s.text i) := by
  have decimal := decimalLiteral_spans s i
  have hex := takeRun_spec s i (i + 1) (fun c => (isDigitOf_hex c).trans) rfl False 0
  have octal := takeRun_spec s i (i + 1) (fun c => (isDigitOf_octal c).trans) rfl False 0
  have binary := takeRun_spec s i (i + 1) (fun c => (isDigitOf_binary c).trans) rfl False 0
  mvcgen [numeric, isLegacyOctal, hexLiteral, hex, binaryLiteral, binary, octalLiteral, octal, decimal,
    notFollowedBy, token, digitsValue, fail] with grind

/-! ### Strings and templates -/

theorem stringEscape_counts : Tells s (Counted s i True) stringEscape fun _ => Counted s i False
  := by
  refine triple_of_index fun k => ?_
  have line := breakLine_spec s k
  have hex := hexEscapeFrom_stays s k k
  have braced := bracedEscape_stays s k k
  have complain := tolerate_spec s k False
  have octal := isDigitOf_octal
  have inside {k : Nat} : isOctalDigit (s.text.get k) = true → k < s.text.length := lt_length_of rfl
  mvcgen [stringEscape, line, hex, braced, complain, octalEscape, digitsValue, fail] with grind

/-- The line is that of a place at or behind `i` where a line or the text ends. -/
structure Missed (s : Source) (i : Nat) (s' : Source) (c : Cursor) : Prop where
  source : s' = s
  recorded : ∀ d ∈ c.errors, d.Located s.text
  missed : ∃ p, i ≤ p ∧ Lined s.text p c.line c.lineStart ∧
    (s.text.length ≤ p ∨ isLineTerminator (s.text.get p) = true)

theorem stringRest_counts {q : Nat} (plain : isLineTerminator q = false) (acc : Text) (f : Bool) (n : Nat) :
  Tells s (fun s' c => Counted s i False s' c ∧ Enough s n c) (stringRest q acc f n)
    fun r s' c => if r.isSome then Counted s i True s' c else Missed s i s' c
  := by
  have missed {c : Cursor} {p : Nat} (recorded : ∀ d ∈ c.errors, d.Located s.text) (after : i ≤ p)
    (lined : Lined s.text p c.line c.lineStart)
    (ends : s.text.length ≤ p ∨ isLineTerminator (s.text.get p) = true) : Missed s i s c :=
    ⟨rfl, recorded, p, after, lined, ends⟩
  induction n generalizing acc f with
  | zero => mvcgen [stringRest]; grind
  | succ n ih =>
    refine triple_of_index fun k => ?_
    have escape := stringEscape_counts s (k + 1)
    mvcgen [stringRest, ih, escape] with grind

theorem string_spans : Lexes s i string (s.text.get i = 39 ∨ s.text.get i = 34) := by
  have rest {q : Nat} := stringRest_counts s (i + 1) (q := q)
  have unclosed {c s'} (missed : Missed s (i + 1) s' c) (quote : s.text.get i = 39 ∨ s.text.get i = 34) :
      Diagnostic.Unclosed s.text ⟨.illegalToken, i, c.line, i - c.lineStart + 1⟩ ∧
        ∀ d ∈ c.errors, d.Located s.text := by
    obtain ⟨-, recorded, p, after, lined, ends⟩ := missed
    exact ⟨⟨rfl, quote, p, after, ⟨lined.line, by rw [lined.start]⟩, ends⟩, recorded⟩
  mvcgen [string, token, rest, fail] with grind

theorem templateEscape_counts : Tells s (Counted s i True) templateEscape fun _ => Counted s i False
  := by
  refine triple_of_index fun k => ?_
  have line := breakLine_spec s k
  have hex := hexEscapeFrom_stays s k k
  have braced := bracedEscape_stays s k k
  mvcgen [templateEscape, line, hex, braced, fail] with grind

theorem templateRest_counts (acc : Text) (n : Nat) :
  Tells s (fun s' c => Counted s i False s' c ∧ Enough s n c) (templateRest acc n)
    fun r => Counted s i (r.isSome = true)
  := by
  induction n generalizing acc with
  | zero => mvcgen [templateRest]; grind
  | succ n ih =>
    refine triple_of_index fun k => ?_
    have line := breakLine_spec s k
    have escape := templateEscape_counts s (k + 1)
    mvcgen [templateRest, line, ih, escape] with grind

theorem template_spans : Lexes s i template (s.text.get i = 96 ∨ s.text.get i = 125) := by
  have rest := templateRest_counts s (i + 1)
  mvcgen [template, token, rest, fail] with grind

/-! ### Regular expressions and punctuators -/

theorem regexpBody_counts (f : Bool) (n : Nat) :
  Tells s (fun s' c => Counted s i False s' c ∧ Enough s n c) (regexpBody f n) fun _ => Counted s i True
  := by
  have step {k l : Nat} {b : Int} (escaped : s.text.get k = 92) (lined : Lined s.text k l b) :
    Lined s.text (k + 1) l b := lined.next (by rw [escaped]; rfl)
  induction n generalizing f with
  | zero => mvcgen [regexpBody]; grind
  | succ n ih => mvcgen [regexpBody, ih, fail] with grind

theorem regexpFlags_counts (acc : Text) (n : Nat) : Loops s i n (regexpFlags acc n) := by
  induction n generalizing acc with
  | zero => mvcgen [regexpFlags]; grind
  | succ n ih =>
    refine triple_of_index fun k => ?_
    have complain := tolerate_spec s (k + 1) True
    have hex := hexEscapeFrom_stays s (k + 1) (k + 1)
    mvcgen [regexpFlags, hex, complain, ih] with grind

theorem tolerateTimes_counts (p : Problem) (n : Nat) : Counts s i True (tolerateTimes p n) := by
  have complain := tolerate_spec s i True
  induction n with
  | zero => mvcgen [tolerateTimes]
  | succ n ih => mvcgen [tolerateTimes, complain, ih]

theorem regexp_spans : Lexes s i regexp (s.text.get i = 47) := by
  have body := regexpBody_counts s (i + 1)
  have flags := regexpFlags_counts s (i + 1)
  have complain := tolerate_spec s (i + 1) True
  have repeated := tolerateTimes_counts s (i + 1)
  mvcgen [regexp, checkRegexp, token, body, flags, complain, repeated] with grind

theorem punctuator_spans : Lexes s i punctuator True := by
  have plain : ∀ p ∈ punctuators, 0 < p.length ∧ p.isFlat = true := by decide
  have pass {p : Text} {l : Nat} {b : Int} (found : punctuators.find? (fun p => p.occursAt s.text i) = some p)
      (lined : Lined s.text i l b) :
      0 < p.length ∧ i + p.length ≤ s.text.length ∧ Lined s.text (i + p.length) l b := by
    obtain ⟨nonempty, flat⟩ := plain p (List.mem_of_find?_eq_some found)
    have stands := List.find?_some (p := fun p => occursAt p s.text i) found
    exact ⟨nonempty, length_of_occursAt stands nonempty, lined.pass stands flat⟩
  mvcgen [punctuator, token, fail] with grind

/-! ### Tokens -/

theorem lex_spans : Lexes s i lex True := by
  have word := word_spans s i
  have string := string_spans s i
  have numeric := numeric_spans s i
  have template := template_spans s i
  have punctuator := punctuator_spans s i
  mvcgen [lex, word, string, numeric, template, punctuator] with grind

theorem slashed_spans (f : Bool) : Lexes s i (slashed f) (f = true → s.text.get i = 47) := by
  cases f with
  | false => exact triple_iff.2 fun pre => triple_iff.1 (lex_spans s i) ⟨pre.1, trivial⟩
  | true =>
    refine triple_iff.2 ?_
    rintro s' c ⟨stands, slash⟩
    change (∀ {t c'}, EStateM.tryCatch (regexp s') _ c = _ → _) ∧
      ∀ {f c'}, EStateM.tryCatch (regexp s') _ c = _ → _
    obtain ⟨reads, fails⟩ := triple_iff.1 (regexp_spans s i) ⟨stands, slash rfl⟩
    rw [EStateM.tryCatch]
    cases first : regexp s' c with
    | ok t₁ c₁ =>
      constructor
      · rintro t c' ⟨⟩
        exact reads first
      · rintro f c' ⟨⟩
    | error e k =>
      refine triple_iff.1 (lex_spans s i) ⟨?_, trivial⟩
      exact ⟨{ stands with recorded := (fails first).recorded }, stands.index, stands.before⟩

/-! ### Scans -/

/-- The cursors that are reached from the start of a source by reading comments and tokens and, at
slashes, regular expressions, in any order. -/
inductive Reached (s : Source) : Cursor → Prop
  | start (inModule : Bool) : Reached s { Cursor.start s.text with inModule }
  | comments {c c' : Cursor} {found : Array Comment} :
    Reached s c → comments s c = .ok found c' → Reached s c'
  | lex {c c' : Cursor} {t : Token} : Reached s c → lex s c = .ok t c' → Reached s c'
  | regexp {c c' : Cursor} {t : Token} :
    Reached s c → s.text.get c.index = '/'.toNat → regexp s c = .ok t c' → Reached s c'

variable {s i} {c : Cursor}

theorem lex_of_end (ended : s.text.length ≤ c.index) :
  lex s c = token .finish (.text "") c.index s c
  := by
  have first : atEnd s c = .ok true c := by
    change EStateM.Result.ok (decide _) c = _
    rw [decide_eq_true ended]
  unfold lex
  simp only [bind, ReaderT.bind, EStateM.bind, first]
  rfl

theorem Counted.standing (counted : Counted s i True s c) (before : c.index < s.text.length) :
  Standing s c.index s c
  := ⟨{ counted with after := le_rfl }, rfl, before⟩

theorem Reached.counted (reached : Reached s c) : Counted s 0 True s c := by
  induction reached with
  | start => exact ⟨⟨rfl, le_rfl, fun _ => Nat.zero_le _⟩, ⟨rfl, rfl, fun _ => .inl rfl⟩, by simp [Cursor.start]⟩
  | comments _ run counted => exact (triple_iff.1 (comments_counts s 0) counted).1 run
  | @lex c c' _ _ run counted =>
    obtain before | ended := (counted.inside trivial).lt_or_eq
    · obtain ⟨spans, -⟩ := triple_iff.1 (lex_spans s c.index) ⟨counted.standing before, trivial⟩
      exact { spans run with after := Nat.zero_le _ }
    · rw [lex_of_end ended.ge] at run
      cases run
      exact counted
  | @regexp c c' _ _ slash run counted =>
    have before : c.index < s.text.length := lt_length (by rw [slash]; decide)
    obtain ⟨spans, -⟩ := triple_iff.1 (regexp_spans s c.index) ⟨counted.standing before, slash⟩
    exact { spans run with after := Nat.zero_le _ }

theorem Reached.lex_fails (reached : Reached s c) {f : Failure} {c' : Cursor} (run : Scan.lex s c = .error f c') :
  Told s f c'
  := by
  obtain before | ended := (reached.counted.inside trivial).lt_or_eq
  · exact (triple_iff.1 (lex_spans s c.index) ⟨reached.counted.standing before, trivial⟩).2 run
  · rw [lex_of_end ended.ge] at run
    cases run

/-- However far a scan has come: comments and tokens are read from where it stands onwards, a token
has a code point at least unless the source is at its end, and only problems of the source end the
scan. -/
theorem scan_progresses (reached : Reached s c) :
  c.index ≤ s.text.length ∧
  (∀ found c', comments s c = .ok found c' → c.index ≤ c'.index ∧ c'.index ≤ s.text.length) ∧
  (c.index = s.text.length → ∃ t, lex s c = .ok t c ∧ t.kind = .finish) ∧
  (c.index ≠ s.text.length → ∀ t c', lex s c = .ok t c' →
    t.start = c.index ∧ t.start < t.stop ∧ t.stop = c'.index ∧ c'.index ≤ s.text.length) ∧
  ∀ f c', comments s c = .error f c' ∨ lex s c = .error f c' → ∃ d, f = .source d
  := by
  have counted := reached.counted
  have inside := counted.inside trivial
  obtain ⟨holds, tells⟩ := triple_iff.1 (comments_counts s c.index) { counted with after := le_rfl }
  refine ⟨inside, fun found c' run => ⟨(holds run).after, (holds run).inside trivial⟩, fun ended => ?_,
    fun unended t c' run => ?_, fun f c' failed => ?_⟩
  · rw [lex_of_end ended.ge]
    exact ⟨_, rfl, rfl⟩
  · have spans := (triple_iff.1 (lex_spans s c.index)
      ⟨counted.standing (lt_of_le_of_ne inside unended), trivial⟩).1 run
    exact ⟨spans.start, by rw [spans.start, spans.stop]; exact spans.after, spans.stop, spans.inside trivial⟩
  · obtain ⟨⟨d, source, -⟩, -⟩ : Told s f c' := failed.elim tells reached.lex_fails
    exact ⟨d, source⟩

def cutOff : Source := { text := "`\\u\x7b61\x7d`0x" }

theorem scan_progresses_cutOff :
  ∃ c, Reached cutOff c ∧ c.index = 8 ∧ ∃ d c', lex cutOff c = .error (.source d) c'
  := by
  have found : ends (lex cutOff) { Cursor.start cutOff.text with inModule := false }
      (fun _ c => c.index = 8 && !ends (lex cutOff) c fun _ _ => true) = true := by decide +kernel
  obtain ⟨t, c, run, observed⟩ := exists_of_ends found
  obtain ⟨index, fails⟩ := Bool.and_eq_true_iff.1 observed
  have reached : Reached cutOff c := .lex (.start false) run
  refine ⟨c, reached, of_decide_eq_true index, ?_⟩
  obtain ⟨-, -, -, -, blames⟩ := scan_progresses reached
  cases next : lex cutOff c with
  | ok t' c' =>
    rw [ends, next] at fails
    cases fails
  | error f c' =>
    obtain ⟨d, rfl⟩ := blames f c' (.inr next)
    exact ⟨d, c', rfl⟩

/-- Wherever a scan has come to, its line is one more than the number of line terminators behind it,
and that line starts behind the last of them. -/
theorem scan_counts_lines (nonempty : s.text.isEmpty = false) (reached : Reached s c) :
  c.line = 1 + (List.range c.index).countP s.text.breaksAt ∧ c.lineStart = s.text.lineStartAt c.index
  := by
  have lined := reached.counted.lined
  refine ⟨?_, lined.start⟩
  rw [lined.line, lineAt, Cursor.start, nonempty]
  rfl

def twoLines : Source := { text := "a\r\nb" }

theorem scan_counts_lines_twoLines :
  ∃ c, Reached twoLines c ∧ c.index = 3 ∧ c.line = 2 ∧ c.lineStart = 3
  := by
  have found : ends (lex twoLines) { Cursor.start twoLines.text with inModule := false }
      (fun _ c => ends (comments twoLines) c fun _ c => c.index = 3) = true := by decide +kernel
  obtain ⟨_, c₁, first, found⟩ := exists_of_ends found
  obtain ⟨_, c₂, second, index⟩ := exists_of_ends found
  have reached : Reached twoLines c₂ := .comments (.lex (.start false) first) second
  obtain ⟨line, start⟩ := scan_counts_lines rfl reached
  rw [of_decide_eq_true index] at line start
  exact ⟨c₂, reached, of_decide_eq_true index, line, start⟩

/-- A problem is told with the line and the column of its index, up to a line terminator just passed,
unless it is a string that is not closed. -/
theorem problems_located (reached : Reached s c) :
  (∀ d ∈ c.errors, d.Located s.text) ∧
  ∀ d c', comments s c = .error (.source d) c' ∨ lex s c = .error (.source d) c' ∨
    s.text.get c.index = '/'.toNat ∧ regexp s c = .error (.source d) c' →
    d.Located s.text ∧ 1 ≤ d.column ∨ d.Unclosed s.text
  := by
  have counted := reached.counted
  refine ⟨counted.recorded, fun d c' failed => ?_⟩
  have told : Told s (.source d) c' := by
    obtain run | run | ⟨slash, run⟩ := failed
    · exact (triple_iff.1 (comments_counts s 0) counted).2 run
    · exact reached.lex_fails run
    · have before : c.index < s.text.length := lt_length (by rw [slash]; decide)
      exact (triple_iff.1 (regexp_spans s c.index) ⟨counted.standing before, slash⟩).2 run
  obtain ⟨⟨_, ⟨⟩, located⟩, -⟩ := told
  exact located.imp_left fun located => ⟨located, located.column_pos⟩

def continued : Source := { text := "'a\\\nb" }

theorem lex_continued :
  lex continued (.start continued.text) = .error (.source ⟨.illegalToken, 0, 2, -3⟩)
    { Cursor.start continued.text with line := 2, lineStart := 4 }
  := rfl

theorem problems_located_continued :
  ∃ d c', lex continued (.start continued.text) = .error (.source d) c' ∧ d.Unclosed continued.text
  := by
  obtain ⟨-, located⟩ := problems_located (s := continued) (.start false)
  refine ⟨_, _, lex_continued, (located _ _ (.inr (.inl lex_continued))).resolve_left ?_⟩
  exact fun placed => absurd placed.2 (by decide)

/-- The problem has index 0, on the first line, but it is told as if it were on the second. -/
theorem continued_misplaced :
  ∃ d c', lex continued (.start continued.text) = .error (.source d) c' ∧ d.index = 0 ∧ d.line = 2 ∧
    ¬d.Located continued.text
  := ⟨_, _, lex_continued, rfl, rfl, fun located => absurd located.column_pos (by decide)⟩

end Scan

end ScriptLens
