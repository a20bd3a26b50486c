import ScriptLens.Proofs.Scan.Cut
import Mathlib.Logic.Relation

/-!
# Slashes that cannot be guessed

A source is cut into entries unless it has a problem or a slash comes so soon after a closing punctuator
that was never opened that there are no tokens for the guess about the slash to look at.
-/

set_option mvcgen.warning false

open Std.Do

namespace ScriptLens

namespace SlashGuess

variable {g : SlashGuess} {f : Failure} {vs : Array (Option Text)} {i : Int} {t : Text}

/-- The last token closes something that was not opened, and the guess would look at a token before the
first one. -/
def Stray (g : SlashGuess) : Prop :=
  let function : Option Text := some "function"
  g.values = #[some (")" : Text)] ∨ g.values.back? = some (some ("\x7d" : Text)) ∧
    some ("\x7b" : Text) ∉ g.values ∧ (g.values.size = 3 ∨ g.values.size = 4 ∨ g.values.size = 5 ∧
      g.values[0]? = some function ∧ g.values[1]? ≠ some function)

def Marks (vs : Array (Option Text)) (i : Int) (t : Text) : Prop :=
  i = -1 ∧ some t ∉ vs ∨ ∃ k : Nat, i = k ∧ vs[k]? = some (some t)

structure Sound (g : SlashGuess) : Prop where
  curly : Marks g.values g.curly "\x7b"
  paren : Marks g.values g.paren "("

theorem Marks.push (marks : Marks vs i t) (v : Option Text) :
  Marks (vs.push v) (if v = some t then vs.size else i) t
  := by grind [Marks]

theorem Sound.push (sound : g.Sound) (t : Token) : (g.push t).Sound := by
  have curly := sound.curly.push
  have paren := sound.paren.push
  unfold SlashGuess.push
  split
  · constructor
    · simpa using curly (some _)
    · simpa using paren (some _)
  · constructor
    · simpa using curly (some _)
    · simpa using paren (some _)
  · exact ⟨curly none, paren none⟩

theorem value_eq_error :
  g.value i = .error f ↔ f = .missingItem ∧ (i < -g.values.size ∨ g.values.size ≤ i)
  := by
  unfold value
  grind

theorem value_eq_ok {v : Option Text} :
  g.value i = .ok v ↔ ∃ k : Nat, (i = k ∨ i = k - g.values.size) ∧ g.values[k]? = some v
  := by
  unfold value
  simp only [Array.getD_eq_getD_getElem?]
  constructor
  · intro found
    by_cases negative : i < 0
    · exact ⟨(i + g.values.size).toNat, by grind⟩
    · exact ⟨i.toNat, by grind⟩
  · grind

theorem value_cases (g : SlashGuess) (i : Int) :
  g.value i = .error .missingItem ∧ (i < -g.values.size ∨ g.values.size ≤ i) ∨
    ∃ v, g.value i = .ok v ∧ ∃ k : Nat, (i = k ∨ i = k - g.values.size) ∧ g.values[k]? = some v
  := by
  cases found : g.value i with
  | error f =>
    left
    obtain ⟨rfl, outside⟩ := value_eq_error.1 found
    use rfl, outside
  | ok v =>
    right
    exact ⟨v, rfl, value_eq_ok.1 found⟩

theorem beginsRegexp_of_brace (last : g.values.back? = some (some ("\x7d" : Text))) :
  g.beginsRegexp = .error f ↔ 3 ≤ g.values.size ∧ (g.value (g.curly - 3) = .error f ∨
    ∃ v, g.value (g.curly - 3) = .ok v ∧
      if v = some ("function" : Text) then g.value (g.curly - 4) = .error f
      else 4 ≤ g.values.size ∧ (g.value (g.curly - 4) = .error f ∨
        g.value (g.curly - 4) = .ok (some ("function" : Text)) ∧ g.value (g.curly - 5) = .error f))
  := by
  have names : (("\x7d" : Text) == "this") = false ∧ (("\x7d" : Text) == "]") = false ∧
      (("\x7d" : Text) == ")") = false ∧ (("\x7d" : Text) == "\x7d") = true := by decide
  have present : g.values.isEmpty = false := by grind
  unfold beginsRegexp
  simp only [bind, Except.bind, pure, Except.pure, last, present, names, Option.join_some, Bool.false_eq_true,
    Bool.or_false, if_false, if_true]
  cases g.value (g.curly - 3) <;> cases g.value (g.curly - 4) <;> cases g.value (g.curly - 5) <;> grind

theorem Sound.stray_of_brace (sound : g.Sound) (last : g.values.back? = some (some ("\x7d" : Text))) :
  g.beginsRegexp = .error f ↔ f = .missingItem ∧ g.Stray
  := by
  have names : (")" : Text) ≠ "\x7d" ∧ ("\x7b" : Text) ≠ "\x7d" ∧ ("\x7b" : Text) ≠ "function" := by decide
  have first := value_cases g (g.curly - 3)
  have second := value_cases g (g.curly - 4)
  have third := value_cases g (g.curly - 5)
  rw [beginsRegexp_of_brace last, Stray]
  rcases sound.curly with ⟨unopened, absent⟩ | ⟨k, opened, present⟩
  · rw [unopened] at first second third ⊢
    clear unopened sound
    have sizes : g.values.size < 3 ∨ g.values.size = 3 ∨ g.values.size = 4 ∨ g.values.size = 5 ∨
      5 < g.values.size := by omega
    rcases sizes with few | three | four | five | many
    all_goals grind
  · rw [opened] at first second third ⊢
    have size : 2 ≤ g.values.size := by grind
    clear opened sound
    grind

theorem Sound.beginsRegexp_eq_error (sound : g.Sound) : g.beginsRegexp = .error f ↔ f = .missingItem ∧ g.Stray
  := by
  have names : (")" : Text) ≠ "\x7d" ∧ ("this" : Text) ≠ ")" ∧ ("this" : Text) ≠ "\x7d" ∧ ("]" : Text) ≠ ")" ∧
      ("]" : Text) ≠ "\x7d" ∧ ("(" : Text) ≠ ")" := by decide
  by_cases brace : g.values.back? = some (some ("\x7d" : Text))
  · exact sound.stray_of_brace brace
  have paren := value_cases g (g.paren - 1)
  have opened := sound.paren
  unfold Marks at opened
  unfold beginsRegexp Stray
  simp only [bind, Except.bind, pure, Except.pure]
  split
  · grind
  · split
    · grind
    · rename_i previous _
      have last : g.values.back? = some (some previous) := by grind
      grind

end SlashGuess

namespace Scan

variable (s : Source) (c : Cursor)

def SlashAhead : Prop := ∃ found c', comments s c = .ok found c' ∧ s.text.get c'.index = '/'.toNat

def Stuck (a : SlashGuess × Cursor) : Prop := SlashAhead s a.2 ∧ a.1.Stray

def ReadsOn (a b : SlashGuess × Cursor) : Prop := ∃ before e, entries a.1 s a.2 = .ok (before, some e, b.1) b.2

variable {g : SlashGuess}

theorem entries_ends (sound : g.Sound) (counted : Counted s 0 True s c) :
  ⦃fun s' c' => ⌜s' = s ∧ c' = c⌝⦄ entries g
  ⦃post⟨fun r _ c' => ⌜¬ Stuck s (g, c) ∧ (r.2.1.isSome = true →
      c.index < c'.index ∧ Counted s 0 True s c' ∧ ∃ t, r.2.2 = g.push t)⌝,
    fun f _ => ⌜Stuck s (g, c) ∧ f = .missingItem ∨ ¬ Stuck s (g, c) ∧ ∃ d, f = .source d⌝⟩⦄
  := by
  have guess (f : Failure) := sound.beginsRegexp_eq_error (f := f)
  have unknown (stray : g.Stray) : g.beginsRegexp = .error .missingItem := (guess _).2 ⟨rfl, stray⟩
  have before : ⦃fun s' c' => ⌜s' = s ∧ c' = c⌝⦄ comments
      ⦃post⟨fun found s' c' => ⌜comments s c = .ok found c' ∧ Counted s c.index True s' c'⌝,
        fun f _ => ⌜Stuck s (g, c) ∧ f = .missingItem ∨ ¬ Stuck s (g, c) ∧ ∃ d, f = .source d⌝⟩⦄ := by
    apply triple_iff.2
    rintro s c ⟨rfl, rfl⟩
    obtain ⟨holds, tells⟩ := triple_iff.1 (comments_counts s c.index) { counted with after := le_rfl }
    refine ⟨fun run => ⟨run, holds run⟩, fun run => .inr ⟨?_, (tells run).told.imp fun _ => And.left⟩⟩
    rintro ⟨⟨found, c', ended, -⟩, -⟩
    cases run.symm.trans ended
  refine Triple.bind _ _ before fun found => ?_
  rw [mapM_commentEntry]
  apply triple_of_index fun n => ?_
  have next := slashed_spans s n
  have present {k : Nat} (slash : s.text.get k = '/'.toNat) : k < s.text.length := by
    apply Text.lt_length
    rw [slash]
    decide
  mvcgen [next] with grind [SlashAhead, Stuck, Held, Counted, Standing, Spans, Told]

def GetsStuck (a : SlashGuess × Cursor) : Prop := ∃ b, Relation.ReflTransGen (ReadsOn s) a b ∧ Stuck s b

theorem getsStuck_iff {a : SlashGuess × Cursor} :
  GetsStuck s a ↔ Stuck s a ∨ ∃ b, ReadsOn s a b ∧ GetsStuck s b
  := by
  constructor
  · rintro ⟨b, leads, stuck⟩
    obtain rfl | ⟨a', step, onward⟩ := leads.cases_head
    · left
      apply stuck
    · right
      use a', step, b
  · rintro (stuck | ⟨a', step, b, onward, stuck⟩)
    · use a, .refl
    · use b, .head step onward

end Scan

variable {s : Source} {g : SlashGuess} {c : Cursor} {n : Nat}

open Scan

theorem streamFrom_fails_iff (acc : Array StreamEntry) (sound : g.Sound)
    (counted : Counted s 0 True s c) (enough : s.text.length - c.index < n) :
  (streamFrom s g c acc n = .error .missingItem ↔ GetsStuck s (g, c)) ∧
    ∀ f, streamFrom s g c acc n = .error f → f = .missingItem ∨ ∃ d, f = .source d ∧ s.tolerant = false
  := by
  induction n generalizing g c acc with
  | zero => cases enough
  | succ n ih =>
    obtain ⟨ends, fails⟩ := triple_iff.1 (entries_ends s c sound counted) ⟨rfl, rfl⟩
    rw [getsStuck_iff, streamFrom]
    cases run : entries g s c with
    | error f c' =>
      have last (b : SlashGuess × Cursor) : ¬ ReadsOn s (g, c) b := by
        rintro ⟨before, e, ended⟩
        cases run.symm.trans ended
      rw [show ((entries g).run s).run c = _ from run]
      obtain ⟨stuck, rfl⟩ | ⟨free, d, rfl⟩ := fails run
      · simp [stuck]
      · cases tolerant : s.tolerant <;> simp [free, last]
    | ok r c' =>
      obtain ⟨before, e, g'⟩ := r
      obtain ⟨free, reads⟩ := ends run
      rw [show ((entries g).run s).run c = _ from run]
      cases e with
      | none =>
        have last (b : SlashGuess × Cursor) : ¬ ReadsOn s (g, c) b := by
          rintro ⟨before, e, ended⟩
          cases run.symm.trans ended
        simp [free, last]
      | some e =>
        have next (b : SlashGuess × Cursor) : ReadsOn s (g, c) b ↔ b = (g', c') := by
          constructor
          · rintro ⟨before, e, ended⟩
            cases run.symm.trans ended
            rfl
          · rintro rfl
            use before, e, run
        obtain ⟨after, counted', t, rfl⟩ := reads rfl
        simp only [free, false_or, next, exists_eq_left]
        have inside := counted'.inside trivial
        apply ih _ (sound.push t) counted'
        omega

/-- Cutting a source fails with a problem of the source, or else exactly if a slash comes after a stray
closing punctuator. -/
theorem tokenize_fails_iff (s : Source) :
  (tokenize s = .error .missingItem ↔ ∃ g c, Relation.ReflTransGen (ReadsOn s) ({}, .start s.text) (g, c) ∧
      SlashAhead s c ∧ g.Stray) ∧
    ∀ f, tokenize s = .error f → f = .missingItem ∨ ∃ d, f = .source d ∧ s.tolerant = false
  := by
  have sound : SlashGuess.Sound {} := ⟨.inl ⟨rfl, Array.not_mem_empty _⟩, .inl ⟨rfl, Array.not_mem_empty _⟩⟩
  have enough : s.text.length - (Cursor.start s.text).index < s.text.length + 2 := by omega
  obtain ⟨stuck, fails⟩ := streamFrom_fails_iff #[] sound (Reached.start false).counted enough
  exact ⟨stuck.trans Prod.exists, fails⟩

/-- A closing parenthesis before a slash is no problem of the source, and yet there are no tokens. -/
theorem tokenize_stuck : tokenize { text := ")/" } = .error .missingItem
  := except_eq_error (by decide +kernel)

end ScriptLens
