import ScriptLens.Grammar.Markup
import ScriptLens.Proofs.Scan.Extent

/-!
# What scanning keeps

Whatever a scanner reads, it goes on in the same kind of source, and the problems recorded before
stay recorded; new ones are added only where problems are tolerated.
-/

namespace ScriptLens

open Moves

/-- Two cursors in the same source differ at most in where they stand and in the problems found
between. -/
structure Cursor.Kept (s : Source) (c c' : Cursor) : Prop where
  braces : c'.braces = c.braces
  inModule : c'.inModule = c.inModule
  errors : c.errors.toList <+: c'.errors.toList
  silent : s.tolerant = false → c'.errors = c.errors

instance : Course Cursor.Kept
  where
  refl _ _ := ⟨rfl, rfl, List.prefix_refl _, fun _ => rfl⟩
  trans first second := ⟨second.braces.trans first.braces, second.inModule.trans first.inModule,
    first.errors.trans second.errors,
    fun strict => (second.silent strict).trans (first.silent strict)⟩

def Token.openAfter (t : Token) (braces : List Brace) : List Brace :=
  if t.kind = .template then
    let inside := if t.tail then braces else .substitution :: braces
    if t.head then inside else inside.tail
  else if t.isPunctuator "\x7b" then .plain :: braces
  else if t.isPunctuator "\x7d" then braces.tail
  else braces

namespace Scan

open Cursor (Kept)

set_option synthInstance.maxSize 1000000

/-! ### Steps -/

instance (i : Cursor → Nat) (l : Cursor → Nat) (s : Cursor → Int) :
  Moves Kept (modify fun c => ⟨i c, l c, s c, c.braces, c.inModule, c.errors⟩ : Scan Unit)
  := change fun _ _ => ⟨rfl, rfl, List.prefix_refl _, fun _ => rfl⟩

variable {i n q : Nat} {α : Type} {p : Problem} {v : Scalar} {b : Bool} {acc : Text}
    {x : Scan Token}

instance : Moves Kept (fail p : Scan α) := by unfold fail; infer_instance
instance (k : TokenKind) : Moves Kept (token k v i)
  := by unfold token; infer_instance

instance (l : List Nat) : Moves Kept (digitsValue n l) := by unfold digitsValue; infer_instance

instance : Moves Kept (tolerate p) := by
  constructor
  intro s c c' a run
  obtain ⟨d, c₁, found, run⟩ := computation_bind_eq_ok.1 run
  refine Course.trans (leads found) ?_
  obtain ⟨s', c₂, ⟨⟩, run⟩ := computation_bind_eq_ok.1 run
  split at run
  · rename_i tolerant
    cases run
    exact ⟨rfl, rfl, by simp, fun strict => absurd (tolerant.symm.trans strict) (by decide)⟩
  · cases run

instance (p : Nat → Bool) : Moves Kept (takeRun p) := by unfold takeRun; infer_instance

instance : Moves Kept breakLine := by unfold breakLine; infer_instance

/-! ### Comments -/

instance : Moves Kept (skipBlock n)
  := by induction n <;> (unfold skipBlock; infer_instance)

instance : Moves Kept (trivia b)
  := by unfold trivia blockComment lineComment; infer_instance

instance (acc : Array Comment) : Moves Kept (triviaFrom b acc n) := by
  induction n generalizing b acc with
  | zero => unfold triviaFrom; infer_instance
  | succ n ih =>
    unfold triviaFrom
    repeat' first | infer_instance | refine after fun _ => ?_ | split

instance : Moves Kept comments := by unfold comments; infer_instance

/-! ### Names and numbers -/

instance {v : Nat} : Moves Kept (hexEscapeFrom v n) := by
  induction n generalizing v with
  | zero => unfold hexEscapeFrom; infer_instance
  | succ n ih =>
    unfold hexEscapeFrom
    repeat' first | infer_instance | refine after fun _ => ?_ | split

instance (p : Nat → Bool) : Moves Kept (nameEscape p) := by
  unfold nameEscape bracedEscape
  repeat' first | infer_instance | refine after fun _ => ?_ | split

instance : Moves Kept (nameRest acc n)
  := by induction n generalizing acc <;> (unfold nameRest; infer_instance)

instance : Moves Kept word := by unfold word name; infer_instance

instance : Moves Kept numeric := by
  unfold numeric isLegacyOctal hexLiteral binaryLiteral octalLiteral decimalLiteral fractionPart
    exponentPart notFollowedBy
  infer_instance

/-! ### Strings and templates -/

instance : Moves Kept stringEscape := by
  unfold stringEscape bracedEscape octalEscape
  repeat' first | infer_instance | refine after fun _ => ?_ | split

instance : Moves Kept (stringRest q acc b n) := by
  induction n generalizing acc b with
  | zero => unfold stringRest; infer_instance
  | succ n ih => unfold stringRest; infer_instance

instance : Moves Kept string := by
  unfold string
  repeat' first | infer_instance | refine after fun _ => ?_ | split

instance : Moves Kept templateEscape := by
  unfold templateEscape bracedEscape
  repeat' first | infer_instance | refine after fun _ => ?_ | split

/-! ### Regular expressions -/

instance : Moves Kept (regexpBody b n)
  := by induction n generalizing b <;> (unfold regexpBody; infer_instance)

instance : Moves Kept (regexpFlags acc n)
  := by induction n generalizing acc <;> (unfold regexpFlags; infer_instance)

instance : Moves Kept (tolerateTimes p n)
  := by induction n <;> (unfold tolerateTimes; infer_instance)

instance (body flags : Text) : Moves Kept (checkRegexp body flags) := by
  refine after fun _ => ?_
  dsimp only
  split <;> infer_instance

instance : Moves Kept regexp := by unfold regexp; infer_instance

/-! ### Tokens that open and close braces -/

variable {s : Source} {c c₁ c' : Cursor} {t : Token}

theorem Kept.reopen {f : List Brace → List Brace} (first : Kept s c c₁)
    (second : Kept s { c₁ with braces := f c₁.braces } c') :
  Kept s { c with braces := f c.braces } c'
  := ⟨second.braces.trans (congrArg f first.braces), second.inModule.trans first.inModule,
    first.errors.trans second.errors,
    fun strict => (second.silent strict).trans (first.silent strict)⟩

/-- A scan of a part of a template: if another part follows, a substitution has been opened. -/
structure Opens (x : Scan (Option (Text × Bool))) : Prop where
  opened {s : Source} {c c' : Cursor} {text : Text} {tail : Bool} :
    x s c = .ok (some (text, tail)) c' →
    Kept s { c with braces := if tail then c.braces else .substitution :: c.braces } c'

theorem Opens.after {x : Scan α} {f : α → Scan (Option (Text × Bool))} [Moves Kept x]
    (rest : ∀ a, Opens (f a)) : Opens (x >>= f)
  := by
  constructor
  intro s c c' text tail run
  obtain ⟨a, c₁, first, run⟩ := computation_bind_eq_ok.1 run
  exact Kept.reopen (f := fun bs => if tail then bs else .substitution :: bs) (leads first)
    ((rest a).opened run)

theorem opens_templateRest (cooked : Text) (n : Nat) : Opens (templateRest cooked n) := by
  induction n generalizing cooked with
  | zero => exact ⟨fun run => by cases run⟩
  | succ n ih =>
    unfold templateRest
    refine .after fun _ => ?_
    split
    · exact ⟨fun run => by cases run⟩
    refine .after fun a => ?_
    split
    · exact .after fun _ => ih _
    refine .after fun _ => ?_
    split
    · exact ⟨fun run => by cases run; exact Course.refl ..⟩
    refine .after fun _ => ?_
    split
    · exact ⟨fun run => by cases run; exact ⟨rfl, rfl, List.prefix_refl _, fun _ => rfl⟩⟩
    split
    · exact .after fun _ => ih _
    · exact ih _

theorem template_open (run : template s c = .ok t c') :
  t.kind = .template ∧ Kept s { c with braces := t.openAfter c.braces } c'
  := by
  obtain ⟨_, _, ⟨⟩, run⟩ := computation_bind_eq_ok.1 run
  obtain ⟨first, c₁, taken, run⟩ := computation_bind_eq_ok.1 run
  obtain ⟨n, _, ⟨⟩, run⟩ := computation_bind_eq_ok.1 run
  obtain ⟨r, c₂, read, run⟩ := computation_bind_eq_ok.1 run
  cases r with
  | none => cases run
  | some part =>
    have opened := Kept.reopen (f := fun bs => if part.2 then bs else .substitution :: bs)
      (leads taken) ((opens_templateRest _ _).opened read)
    generalize (first == _) = head at run
    cases head with
    | _ =>
      cases run
      refine ⟨rfl, ?_, opened.inModule, opened.errors, opened.silent⟩
      simp [Token.openAfter, opened.braces]

/-- A scan of a token that is neither a punctuator nor a part of a template. -/
class Plain (x : Scan Token) : Prop where
  other {s : Source} {c c' : Cursor} {t : Token} : x s c = .ok t c' →
    t.kind ∉ [.template, .punctuator]

instance Plain.bind {α : Type} (x : Scan α) (f : α → Scan Token) [∀ a, Plain (f a)] :
  Plain (x >>= f)
  := by
  constructor
  intro s c c' t run
  obtain ⟨a, c₁, -, run⟩ := computation_bind_eq_ok.1 run
  exact Plain.other run

instance (p : Prop) [Decidable p] {y : Scan Token} [Plain x] [Plain y] : Plain (if p then x else y)
  := by split <;> infer_instance

instance : Plain (fail p) := ⟨fun run => by cases run⟩
instance : Plain (token .numeric v i) := ⟨fun run => by cases run; simp⟩

instance : Plain (do return { ← token .numeric v i with octal := b })
  := ⟨fun run => by cases run; simp⟩

instance : Plain numeric := by
  unfold numeric decimalLiteral hexLiteral binaryLiteral octalLiteral
  infer_instance

theorem nameKind_other (t : Text) : nameKind t ∉ [.template, .punctuator] := by
  unfold nameKind
  repeat' split
  all_goals decide

instance (t : Text) : Plain (token (nameKind t) (.text t) i)
  := ⟨fun run => by cases run; exact nameKind_other t⟩

instance : Plain word := by unfold word; infer_instance

instance : Plain string := by
  unfold string
  refine @Plain.bind _ _ _ fun _ => @Plain.bind _ _ _ fun _ => @Plain.bind _ _ _ fun _ =>
    @Plain.bind _ _ _ fun r => ?_
  cases r with
  | none => infer_instance
  | some r => exact ⟨fun run => by cases run; simp⟩

/-- What reading a token does: its braces are opened and closed, and if there are any, the token
begins with a brace or with the quote of a template. -/
structure Reads (s : Source) (c : Cursor) (t : Token) (c' : Cursor) : Prop where
  kept : Kept s { c with braces := t.openAfter c.braces } c'
  begins : t.openAfter c.braces = c.braces ∨ s.text.get c.index ∈ [96, 123, 125]

theorem punctuator_reads (run : punctuator s c = .ok t c') : Reads s c t c' := by
  obtain ⟨_, _, ⟨⟩, run⟩ := computation_bind_eq_ok.1 run
  obtain ⟨_, _, ⟨⟩, run⟩ := computation_bind_eq_ok.1 run
  dsimp only at run
  cases found : punctuators.find? fun p => p.occursAt s.text c.index with
  | none =>
    rw [found] at run
    cases run
  | some p =>
    rw [found] at run
    dsimp only at run
    have stands := List.find?_some found
    by_cases opens : p = "\x7b"
    · subst opens
      cases run
      refine ⟨⟨rfl, rfl, List.prefix_refl _, fun _ => rfl⟩, .inr ?_⟩
      rw [Text.get_of_occursAt stands (by decide)]
      decide
    · by_cases closes : p = "\x7d"
      · subst closes
        cases run
        refine ⟨⟨rfl, rfl, List.prefix_refl _, fun _ => rfl⟩, .inr ?_⟩
        rw [Text.get_of_occursAt stands (by decide)]
        decide
      · rw [if_neg (by simpa using opens), if_neg (by simpa using closes)] at run
        have same : t.openAfter c.braces = c.braces := by
          cases run
          simp [Token.openAfter, Token.isPunctuator, Scalar.isText, opens, closes]
        cases run
        exact ⟨⟨same.symm, rfl, List.prefix_refl _, fun _ => rfl⟩, .inl same⟩

theorem reads_plain [Moves Kept x] [Plain x] (run : x s c = .ok t c') : Reads s c t c' := by
  have other := Plain.other run
  have same : t.openAfter c.braces = c.braces := by
    simp_all [Token.openAfter, Token.isPunctuator]
  refine ⟨?_, .inl same⟩
  rw [same]
  exact leads run

theorem ahead_eq_ok {k a : Nat} (run : ahead k s c = .ok a c') : c = c' ∧ s.text.get (c.index + k) = a
  := by
  obtain ⟨_, _, ⟨⟩, run⟩ := computation_bind_eq_ok.1 run
  obtain ⟨_, _, ⟨⟩, run⟩ := computation_bind_eq_ok.1 run
  split at run
  · cases run
  · cases run
    exact ⟨rfl, rfl⟩

theorem lex_reads (run : lex s c = .ok t c') : Reads s c t c' := by
  obtain ⟨ended, _, ⟨⟩, run⟩ := computation_bind_eq_ok.1 run
  split at run
  · cases run
    exact ⟨Course.refl .., .inl rfl⟩
  obtain ⟨a, _, first, run⟩ := computation_bind_eq_ok.1 run
  obtain ⟨rfl, rfl⟩ := ahead_eq_ok first
  split at run
  · exact reads_plain run
  split at run
  · exact reads_plain run
  split at run
  · exact reads_plain run
  obtain ⟨b, _, second, run⟩ := computation_bind_eq_ok.1 run
  obtain ⟨rfl, rfl⟩ := ahead_eq_ok second
  split at run
  · exact reads_plain run
  obtain ⟨_, _, ⟨⟩, run⟩ := computation_bind_eq_ok.1 run
  split at run
  · rename_i begins
    refine ⟨(template_open run).2, .inr ?_⟩
    simp at begins ⊢
    tauto
  · exact punctuator_reads run

/-! ### Markup -/

instance (r : Reference) : Moves Kept (referenceRest q r n)
  := by induction n generalizing r <;> (unfold referenceRest; infer_instance)

instance : Moves Kept (reference q) := by
  unfold reference
  repeat' first | infer_instance | refine after fun _ => ?_ | split

instance : Moves Kept (markupStringRest q acc n)
  := by induction n generalizing acc <;> (unfold markupStringRest; infer_instance)

instance : Moves Kept (markupTextRest acc n)
  := by induction n generalizing acc <;> (unfold markupTextRest; infer_instance)

/-- Inside a tag no brace is opened or closed: those that are there are read as mere signs. -/
instance : Moves Kept markupToken := by
  constructor
  intro s c c' t run
  obtain ⟨a, _, first, run⟩ := computation_bind_eq_ok.1 run
  obtain ⟨rfl, rfl⟩ := ahead_eq_ok first
  obtain ⟨_, _, ⟨⟩, run⟩ := computation_bind_eq_ok.1 run
  iterate 5
    split at run
    · exact leads run
  obtain ⟨kept, begins⟩ := lex_reads run
  rcases begins with same | begins
  · rwa [same] at kept
  · simp_all

end Scan

end ScriptLens
