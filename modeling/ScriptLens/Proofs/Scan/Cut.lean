import ScriptLens.Proofs.Scan.Extent

/-!
# Sources cut into entries

A stream of tokens and comments loses nothing of its source.  The entries have ranges that are not
empty and stand in order, the value of an entry is the text of its range, in a comment without the
delimiters, and what lies between the ranges is blank.
-/

set_option mvcgen.warning false

open Std.Do ScriptLens.Text ScriptLens.Comment

namespace ScriptLens

namespace Text

def isBlank (c : Nat) : Bool := isWhiteSpace c || isLineTerminator c

theorem occursAt_pair {t : Text} {j a b : Nat} (first : t.get j = a) (second : t.get (j + 1) = b)
    (present : b ≠ 0) : occursAt ⟨#[a, b]⟩ t j = true
  := by
  have bound : j + 1 < t.points.size := lt_length (second ▸ present)
  simp only [get, Array.getD_eq_getD_getElem?, Array.getElem?_eq_getElem bound,
    Array.getElem?_eq_getElem (Nat.lt_of_succ_lt bound), Option.getD_some] at first second
  apply beq_of_eq
  apply congrArg mk
  change t.points.extract j (j + 2) = #[a, b]
  rw [Array.extract_succ_right (by omega) bound,
    Array.extract_succ_right (by omega) (Nat.lt_of_succ_lt bound), first, second]
  simp

end Text

def lineOpeners : List Text := ["//", "-->", "<!--"]

theorem lineOpeners_length : ∀ d ∈ lineOpeners, 0 < d.length
  := by decide

def StreamEntry.Shows (t : Text) (e : StreamEntry) : Prop :=
  if e.typeName = "LineComment" then ∃ d ∈ lineOpeners, t.extract e.start e.stop = d ++ e.value
  else if e.typeName = "BlockComment" then
    t.extract e.start e.stop = ("/*" : Text) ++ e.value ++ ("*/" : Text)
  else t.extract e.start e.stop = e.value

def Comment.entry (t : Text) (c : Comment) : StreamEntry where
  typeName := if c.block then "BlockComment" else "LineComment"
  value := t.extract c.innerStart c.innerStop
  start := c.start
  stop := c.stop
  first := c.first
  last := c.last

/-- The first `n` code points of a text are cut into entries. -/
structure Cut (t : Text) (n : Nat) (es : List StreamEntry) : Prop where
  within : n ≤ t.length
  shown : ∀ e ∈ es, e.start < e.stop ∧ e.stop ≤ n ∧ e.Shows t
  ordered : es.Pairwise (·.stop ≤ ·.start)
  between : ∀ k < n, (∀ e ∈ es, k < e.start ∨ e.stop ≤ k) → isBlank (t.get k) = true

namespace Cut

variable {t : Text} {n j : Nat} {es : List StreamEntry}

/-! ### What may follow -/

section

variable (cut : Cut t n es)

include cut

theorem blank (within : n < t.length) (blank : isBlank (t.get n) = true) :
  Cut t (n + 1) es
  := by
  refine ⟨within, fun e he => ?_, cut.ordered, fun k hk outside => ?_⟩
  · obtain ⟨nonempty, stop, shows⟩ := cut.shown e he
    exact ⟨nonempty, stop.trans n.le_succ, shows⟩
  · obtain before | rfl := Nat.lt_succ_iff_lt_or_eq.1 hk
    · exact cut.between k before outside
    · exact blank

theorem line (ends : isLineTerminator (t.get n) = true) : Cut t (n + 1) es
  := by
  refine cut.blank (lt_length fun zero => ?_) (by simp [isBlank, ends])
  rw [zero] at ends
  cases ends

theorem next
    (near : j = n ∨ isLineTerminator (t.get n) = true ∧
      (j = n + 1 ∨ j = n + 2 ∧ t.get (n + 1) = 10)) : Cut t j es
  := by
  obtain rfl | ⟨ends, rfl | ⟨rfl, feed⟩⟩ := near
  · exact cut
  · exact cut.line ends
  · exact (cut.line ends).line (by rw [feed]; rfl)

theorem push {e : StreamEntry} (start : e.start = n) (nonempty : n < e.stop)
    (within : e.stop ≤ t.length) (shows : e.Shows t) : Cut t e.stop (es ++ [e])
  := by
  have before : ∀ a ∈ es, a.stop ≤ n := fun a ha => (cut.shown a ha).2.1
  refine ⟨within, ?_, ?_, ?_⟩
  · simp only [List.mem_append, List.mem_singleton]
    rintro a (ha | rfl)
    · exact ⟨(cut.shown a ha).1, (before a ha).trans nonempty.le, (cut.shown a ha).2.2⟩
    · exact ⟨start ▸ nonempty, le_rfl, shows⟩
  · refine List.pairwise_append.2 ⟨cut.ordered, List.pairwise_singleton .., ?_⟩
    simp only [List.mem_singleton]
    rintro a ha b rfl
    exact start ▸ before a ha
  · intro k hk outside
    have early := outside e (by simp)
    exact cut.between k (by omega) fun a ha => outside a (by simp [ha])

theorem token {e : StreamEntry} (k : TokenKind) (name : e.typeName = k.name)
    (start : e.start = n) (nonempty : n < e.stop) (stop : e.stop = j) (within : j ≤ t.length)
    (value : e.value = t.extract e.start e.stop) : Cut t j (es ++ [e])
  := by
  subst stop
  have plain : (k.name : Text) ≠ "LineComment" ∧ (k.name : Text) ≠ "BlockComment" := by
    cases k <;> decide
  refine cut.push start nonempty within ?_
  rw [StreamEntry.Shows, name, if_neg plain.1, if_neg plain.2, value]

end

variable {c : Comment}

theorem lineComment (cut : Cut t n es) {d : Text} (opener : d ∈ lineOpeners)
    (stands : d.occursAt t n = true) (line : c.block = false) (start : c.start = n)
    (inner : c.innerStart = n + d.length) (innerStop : c.innerStop = c.stop)
    (after : n + d.length ≤ c.stop) (within : c.stop ≤ t.length) : Cut t c.stop (es ++ [c.entry t])
  := by
  have nonempty : n < c.stop := by
    have := lineOpeners_length d opener
    omega
  refine cut.push (e := c.entry t) start nonempty within ?_
  simp only [StreamEntry.Shows, entry, line, start, inner, innerStop]
  refine ⟨d, opener, ?_⟩
  rw [← extract_append (Nat.le_add_right ..) after, eq_of_beq stands]

theorem blockComment (cut : Cut t n es) (opener : ("/*" : Text).occursAt t n = true)
    (block : c.block = true) (start : c.start = n) (inner : c.innerStart = n + 2)
    (after : n + 2 ≤ c.innerStop) (closer : ("*/" : Text).occursAt t c.innerStop = true)
    (stop : c.stop = c.innerStop + 2) : Cut t c.stop (es ++ [c.entry t])
  := by
  have within : c.stop ≤ t.length := stop ▸ length_of_occursAt closer (by decide)
  refine cut.push (e := c.entry t) start (show n < c.stop by omega) within ?_
  simp only [StreamEntry.Shows, entry, block, start, inner, stop]
  change t.extract n (c.innerStop + 2) = ("/*" : Text) ++ t.extract (n + 2) c.innerStop ++ ("*/" : Text)
  rw [← extract_append (show n ≤ c.innerStop by omega) (c.innerStop.le_add_right 2),
    ← extract_append (n.le_add_right 2) after]
  exact congrArg₂ (· ++ ·) (congrArg (· ++ _) (eq_of_beq opener)) (eq_of_beq closer)

end Cut

namespace Scan

/-- What lies before the cursor is cut into entries. -/
structure Behind (s : Source) (es : List StreamEntry) (s' : Source) (c : Cursor) : Prop where
  source : s' = s
  cut : Cut s.text c.index es

attribute [local grind] Behind Held Counted
attribute [local grind →] lt_length Cut.within
attribute [local grind! .] spanEnd_bounds
attribute [local grind .] Cut.next
attribute [local grind =] Bool.and_eq_false_iff

variable (s : Source) (es : List StreamEntry)

/-! ### Comments -/

theorem lineComment_spec (n w : Nat) (d : Text) (opener : d ∈ lineOpeners) (width : d.length = w) :
  ⦃fun s' c => ⌜s' = s ∧ Cut s.text n es ∧ d.occursAt s.text n = true ∧ c.index = n + w⌝⦄
  lineComment w
  ⦃⇓? k s' c => ⌜Behind s (es ++ [k.entry s.text]) s' c⌝⦄
  := by
  have long (stands : d.occursAt s.text n = true) : n + d.length ≤ s.text.length :=
    length_of_occursAt stands (lineOpeners_length d opener)
  have comment (cut : Cut s.text n es) (stands : d.occursAt s.text n = true) {c : Comment} :=
    cut.lineComment opener stands (c := c)
  mvcgen [lineComment, takeRun, breakLine] with grind

theorem skipBlock_spec (i n : Nat) :
  ⦃fun s' c => ⌜Held s i True s' c⌝⦄ skipBlock n
  ⦃⇓? r s' c => ⌜Held s i True s' c ∧
    (r = true → ∃ j, c.index = j + 2 ∧ i ≤ j ∧ ("*/" : Text).occursAt s.text j = true)⌝⦄
  := by
  have closes {j : Nat} (star : s.text.get j = 42) (slash : s.text.get (j + 1) = 47) :
      ("*/" : Text).occursAt s.text j = true := occursAt_pair star slash (by decide)
  have zero : isLineTerminator 0 = false := by decide
  induction n with
  | zero => mvcgen [skipBlock]
  | succ n ih => mvcgen [skipBlock, breakLine, ih] with grind

theorem blockComment_spec (n : Nat) (strict : s.tolerant = false) :
  ⦃fun s' c => ⌜s' = s ∧ Cut s.text n es ∧ ("/*" : Text).occursAt s.text n = true ∧
    c.index = n + 2⌝⦄
  blockComment
  ⦃⇓? k s' c => ⌜Behind s (es ++ [k.entry s.text]) s' c⌝⦄
  := by
  have block := skipBlock_spec s (n + 2)
  have long (opener : ("/*" : Text).occursAt s.text n = true) : n + 2 ≤ s.text.length :=
    length_of_occursAt opener (by decide)
  have comment (cut : Cut s.text n es) (opener : ("/*" : Text).occursAt s.text n = true)
      {c : Comment} := cut.blockComment opener (c := c)
  mvcgen [blockComment, block, tolerate] with grind

theorem trivia_spec (b : Bool) (strict : s.tolerant = false) :
  ⦃fun s' c => ⌜Behind s es s' c ∧ c.index < s.text.length⌝⦄ trivia b
  ⦃⇓? r s' c => ⌜Behind s (es ++ (r.bind Prod.fst).toList.map (entry s.text)) s' c⌝⦄
  := by
  refine triple_of_index fun n => ?_
  have double := lineComment_spec s es n 2 "//" (by decide) rfl
  have arrow := lineComment_spec s es n 3 "-->" (by decide) rfl
  have mark := lineComment_spec s es n 4 "<!--" (by decide) rfl
  have block := blockComment_spec s es n strict
  have blank (cut : Cut s.text n es) (within : n < s.text.length)
      (space : isWhiteSpace (s.text.get n) = true) : Cut s.text (n + 1) es :=
    cut.blank within (by simp [isBlank, space])
  mvcgen [trivia, breakLine, double, arrow, mark, block] with grind

theorem triviaFrom_spec (b : Bool) (acc : Array Comment) (n : Nat) (strict : s.tolerant = false) :
  ⦃fun s' c => ⌜Behind s (es ++ acc.toList.map (entry s.text)) s' c⌝⦄ triviaFrom b acc n
  ⦃⇓? r s' c => ⌜Behind s (es ++ r.toList.map (entry s.text)) s' c⌝⦄
  := by
  induction n generalizing b acc with
  | zero => mvcgen [triviaFrom]
  | succ n ih =>
    have step := trivia_spec s (es ++ acc.toList.map (entry s.text)) b strict
    mvcgen [triviaFrom, step, ih] with grind

theorem comments_spec (strict : s.tolerant = false) (kept : s.keepComments = true) :
  ⦃fun s' c => ⌜Behind s es s' c⌝⦄ comments
  ⦃⇓? r s' c => ⌜Behind s (es ++ r.toList.map (entry s.text)) s' c⌝⦄
  := by
  have found (b n) := triviaFrom_spec s es b #[] n strict
  mvcgen [comments, found] with grind

theorem mapM_commentEntry (found : Array Comment) :
  found.mapM commentEntry = (do return found.map (entry (← read).text) : Scan _)
  := by
  have mapped (l : List Comment) :
      l.mapM commentEntry = (do return l.map (entry (← read).text) : Scan _) := by
    induction l with
    | nil => rfl
    | cons c l ih => rw [List.mapM_cons, ih]; rfl
  obtain ⟨l⟩ := found
  rw [Array.mapM_eq_mapM_toList, mapped]
  simp

/-! ### Entries -/

theorem slashed_behind (b : Bool) :
  ⦃fun s' c => ⌜Behind s es s' c ∧ Counted s 0 True s' c ∧ c.index < s.text.length ∧
    (b = true → s.text.get c.index = 47)⌝⦄ slashed b
  ⦃⇓? t s' c => ⌜Counted s 0 True s' c ∧ Cut s.text t.start es ∧ t.start < t.stop ∧ t.stop = c.index⌝⦄
  := by
  refine triple_iff.2 ?_
  rintro s' c ⟨behind, counted, before, slash⟩
  refine ⟨fun {t c'} run => ?_, fun _ => trivial⟩
  obtain rfl := behind.source
  have spans := (triple_iff.1 (slashed_spans s' c.index b) ⟨counted.standing before, slash⟩).1 run
  refine ⟨{ spans with after := Nat.zero_le _ }, ?_, ?_, spans.stop⟩
  · rw [spans.start]
    exact behind.cut
  · rw [spans.start, spans.stop]
    exact spans.after

theorem entries_spec (g : SlashGuess) (strict : s.tolerant = false) (kept : s.keepComments = true) :
  ⦃fun s' c => ⌜Behind s es s' c ∧ Counted s 0 True s' c⌝⦄ entries g
  ⦃⇓? r s' c => ⌜Behind s (es ++ r.1.toList ++ r.2.1.toList) s' c ∧ Counted s 0 True s' c ∧
    (r.2.1 = none → s.text.length ≤ c.index)⌝⦄
  := by
  have before : ⦃fun s' c => ⌜Behind s es s' c ∧ Counted s 0 True s' c⌝⦄ comments
      ⦃⇓? r s' c => ⌜Behind s (es ++ r.toList.map (entry s.text)) s' c ∧ Counted s 0 True s' c⌝⦄ :=
    triple_iff.2 fun pre => ⟨fun run => ⟨(triple_iff.1 (comments_spec s es strict kept) pre.1).1 run,
      (triple_iff.1 (comments_counts s 0) pre.2).1 run⟩, fun _ => trivial⟩
  refine Triple.bind _ _ before fun found => ?_
  rw [mapM_commentEntry]
  have next := slashed_behind s (es ++ found.toList.map (entry s.text))
  mvcgen [next] with (try grind [Array.toList_map])
  -- What is left are the two ways to a token: at a slash and elsewhere.
  all_goals
    rename_i post
    obtain ⟨counted, cut, nonempty, stop⟩ := post
    obtain rfl := counted.source
    obtain ⟨⟨source, -⟩, -⟩ := ‹Behind _ _ _ _ ∧ _›
    refine ⟨⟨rfl, ?_⟩, counted, fun absent => by cases absent⟩
    rw [Array.toList_map, source, Option.toList_some]
    exact cut.token _ rfl rfl nonempty stop (counted.inside trivial) rfl

end Scan

/-! ### Streams -/

theorem streamFrom_cut {s : Source} (strict : s.tolerant = false) (kept : s.keepComments = true)
    {g : SlashGuess} {c : Cursor} {acc : Array StreamEntry} {n : Nat} {stream : TokenStream}
    (counted : Scan.Counted s 0 True s c) (cut : Cut s.text c.index acc.toList)
    (run : streamFrom s g c acc n = .ok stream) :
  Cut s.text s.text.length stream.entries.toList
  := by
  induction n generalizing g c acc with
  | zero => cases run
  | succ n ih =>
    rw [streamFrom] at run
    cases step : Scan.entries g s c with
    | error f c' =>
      rw [show ((Scan.entries g).run s).run c = _ from step, strict] at run
      cases f <;> cases run
    | ok r c' =>
      have spec := Scan.entries_spec s acc.toList g strict kept
      obtain ⟨behind, counted', last⟩ := (Scan.triple_iff.1 spec ⟨⟨rfl, cut⟩, counted⟩).1 step
      rw [show ((Scan.entries g).run s).run c = _ from step] at run
      obtain ⟨before, e, g'⟩ := r
      cases e with
      | none =>
        cases run
        have finish : c'.index = s.text.length := le_antisymm behind.cut.within (last rfl)
        simpa [finish] using behind.cut
      | some e =>
        refine ih counted' ?_ run
        simpa using behind.cut

/-- The tokens and comments of a source that is accepted are a cut of the whole source. -/
theorem tokenize_cuts (s : Source) (strict : s.tolerant = false) (kept : s.keepComments = true)
    {stream : TokenStream} (run : tokenize s = .ok stream) :
  Cut s.text s.text.length stream.entries.toList
  := by
  refine streamFrom_cut strict kept (Scan.Reached.start false).counted ?_ run
  exact ⟨Nat.zero_le _, by simp, by simp, by simp [Cursor.start]⟩

def commentedSource : Source where
  text := ofString "a /*b*/ = /[/]/g\n<!-- c\n/ `d`"
  keepComments := true

theorem commentedSource_cut :
  ∃ stream, tokenize commentedSource = .ok stream ∧
    stream.entries.toList.map (fun e => (e.start, e.stop)) =
      [(0, 1), (2, 7), (8, 9), (10, 16), (17, 23), (24, 25), (26, 29)] ∧
    Cut commentedSource.text commentedSource.text.length stream.entries.toList
  := by
  obtain ⟨stream, run, ranges⟩ := except_any_eq_true (x := tokenize commentedSource)
    (f := fun stream => decide (stream.entries.toList.map (fun e => (e.start, e.stop)) =
      [(0, 1), (2, 7), (8, 9), (10, 16), (17, 23), (24, 25), (26, 29)])) (by decide +kernel)
  exact ⟨stream, run, of_decide_eq_true ranges, tokenize_cuts commentedSource rfl rfl run⟩

end ScriptLens
