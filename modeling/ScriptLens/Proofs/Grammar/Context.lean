import ScriptLens.Grammar.Program
import ScriptLens.Proofs.Scan.Kept

/-!
# The context of a parser

What a parser takes for a name or an operator depends on its context.  A step of a parser may change
what the context says about the expression just read, and `yield` may cease to be a name; everything
else is as it was before.
-/

namespace ScriptLens

open Moves

def Context.frame (c : Context) : Context :=
  { c with
    allowYield := false, strict := false, shorthandInitializer := none, isAssignmentTarget := false
    isBindingElement := false }

def Token.Proper (t : Token) : Prop :=
  t.kind = .identifier → strictReservedWords.any t.value.isText = false

/-- Two parsers allow the same, except that `yield` may have ceased to be a name and, unless it is
`fixed`, that code may have become strict. -/
structure Parser.Restored (fixed : Bool) (_ : Settings) (p p' : Parser) : Prop where
  frame : p'.context.frame = p.context.frame
  allowYield : p'.context.allowYield = true → p.context.allowYield = true
  strict : p.context.strict = true ∨ fixed = true → p'.context.strict = p.context.strict
  inModule : p'.cursor.inModule = p.cursor.inModule
  proper : p.context.strict = true → p.lookahead.Proper → p'.lookahead.Proper

instance (fixed : Bool) : Course (Parser.Restored fixed)
  where
  refl _ _ := ⟨rfl, id, fun _ => rfl, rfl, fun _ => id⟩
  trans {s p p' p''} first second := by
    refine ⟨second.frame.trans first.frame, first.allowYield ∘ second.allowYield, fun kept => ?_,
      second.inModule.trans first.inModule, fun strict proper => ?_⟩
    · rw [second.strict (kept.imp_left fun strict => (first.strict kept).trans strict),
        first.strict kept]
    · exact second.proper ((first.strict (.inl strict)).trans strict) (first.proper strict proper)

namespace Parse

abbrev Restores (fixed : Bool) {α : Type} (x : Parse α) : Prop := Moves (Parser.Restored fixed) x

set_option synthInstance.maxSize 10000000
set_option synthInstance.maxHeartbeats 200000

variable {α β : Type} {k : Bool} (v : Text) (t : Token) (m : Mark)

instance (x : Parse α) [Restores true x] : Restores false x := by
  constructor
  intro s p p' a run
  have kept := leads (R := Parser.Restored true) run
  exact { kept with strict := fun _ => kept.strict (.inr rfl) }

/-! ### Steps -/

instance (n : Parser → Bool) (l : Parser → Array Tree) (i j : Parser → Mark) (r : Parser → Nat)
    (a : Parser → Attachment) (b : Parser → Array (Kind × Span)) :
  Restores k (modify fun p =>
    ⟨p.cursor, p.lookahead, n p, p.context, l p, i p, j p, r p, a p, b p⟩ : Parse Unit)
  := change fun _ _ => ⟨rfl, id, fun _ => rfl, rfl, fun _ => id⟩

instance (i l : Parser → Nat) (j : Parser → Int) (e : Parser → Array Diagnostic) :
  Restores k (modify fun p => { p with
    cursor := ⟨i p, l p, j p, p.cursor.braces, p.cursor.inModule, e p⟩ } : Parse Unit)
  := change fun _ _ => ⟨rfl, id, fun _ => rfl, rfl, fun _ => id⟩

instance (i : Context → Option Token) (a b : Context → Bool) :
  Restores k (setContext fun c => { c with
    shorthandInitializer := i c, isAssignmentTarget := a c, isBindingElement := b c })
  := change fun _ _ => ⟨rfl, id, fun _ => rfl, rfl, fun _ => id⟩

instance : Restores k (setContext fun c => { c with allowYield := false })
  := change fun _ _ => ⟨rfl, Bool.noConfusion, fun _ => rfl, rfl, fun _ => id⟩

theorem restores_scan {x : Scan α}
    (kept : ∀ {s c c' a}, x s c = .ok a c' → c'.inModule = c.inModule) : Restores k (scan x)
  := by
  constructor
  intro s p p' a run
  obtain ⟨c, read, rfl⟩ := scan_eq_ok run
  exact ⟨rfl, id, fun _ => rfl, kept read, fun _ => id⟩

instance (x : Scan α) [Moves Cursor.Kept x] : Restores k (scan x)
  := restores_scan fun read => (leads (R := Cursor.Kept) read).inModule

instance : Restores k (scan Scan.lex) := restores_scan fun read => (Scan.lex_reads read).kept.inModule

instance : Restores k freshRef
  := ⟨fun run => by cases run; exact ⟨rfl, id, fun _ => rfl, rfl, fun _ => id⟩⟩

variable {kind : Kind} {attrs : List (Attr × Tree)} {s : Settings} {p p' : Parser}

instance : Restores k (node kind attrs)
  := by unfold node; infer_instance

instance (a b : Place) : Restores k (ofPlaces a b) := by unfold ofPlaces ofPlace; infer_instance
instance (q : Problem) : Restores k (atLast q) := by unfold atLast; infer_instance

instance (c : Culprit) (q : Option Problem) : Restores k (unexpected c q)
  := by unfold unexpected; split <;> infer_instance

instance (d : Diagnostic) : Restores k (record d) := by unfold record; infer_instance

instance : Restores k (finish m kind attrs) := by
  unfold finish spanAttrs handOver
  repeat' first | infer_instance | refine after fun _ => ?_ | split

instance (l : List Comment) : Restores k (l.forM keepComment) := by
  unfold keepComment
  induction l <;> (unfold List.forM; infer_instance)

instance : Restores k (keepToken t) := by unfold keepToken; infer_instance

instance (x : Scan Token) [Restores k (scan x)] : Restores k (glance x)
  := by unfold glance; infer_instance

instance : Restores k skipAhead := by unfold skipAhead; infer_instance

theorem readAhead_proper (run : readAhead t s p = .ok () p') :
  Parser.Restored k s p p' ∧ (p.context.strict = true → p'.lookahead.Proper)
  := by
  obtain ⟨next, p1, first, run⟩ := computation_bind_eq_ok.1 run
  obtain ⟨c, read, rfl⟩ := scan_eq_ok first
  obtain ⟨_, _, ⟨⟩, run⟩ := computation_bind_eq_ok.1 run
  obtain ⟨_, p2, ⟨⟩, run⟩ := computation_bind_eq_ok.1 run
  have kept := leads (R := Parser.Restored k) run
  have proper (strict : p.context.strict = true) : p'.lookahead.Proper := by
    apply kept.proper strict
    simp only [Token.Proper, strict, Bool.true_and]
    split
    · exact fun kind => by cases kind
    · rename_i other
      simpa using other
  exact ⟨⟨kept.frame, kept.allowYield, kept.strict,
    kept.inModule.trans (Scan.lex_reads read).kept.inModule, fun strict _ => proper strict⟩, proper⟩

theorem advance_eq_ok (run : advance s p = .ok t p') :
  t = p.lookahead ∧ Parser.Restored k s p p' ∧ (p.context.strict = true → p'.lookahead.Proper)
  := by
  obtain ⟨_, _, ⟨⟩, run⟩ := computation_bind_eq_ok.1 run
  obtain ⟨_, p1, skipped, run⟩ := computation_bind_eq_ok.1 run
  obtain ⟨_, p2, read, ⟨⟩⟩ := computation_bind_eq_ok.1 run
  have skipped := leads (R := Parser.Restored k) skipped
  obtain ⟨kept, proper⟩ := readAhead_proper _ read
  exact ⟨rfl, Course.trans skipped kept,
    fun strict => proper ((skipped.strict (.inl strict)).trans strict)⟩

instance : Restores k advance := ⟨fun run => (advance_eq_ok _ run).2.1⟩

theorem regexp_kind {s : Source} {c c' : Cursor} (run : Scan.regexp s c = .ok t c') :
  t.kind = .regexp
  := by
  iterate 9 obtain ⟨_, _, -, run⟩ := computation_bind_eq_ok.1 run
  cases run
  rfl

instance : Restores k advanceRegexp := by
  constructor
  intro s p p' a run
  obtain ⟨_, p1, comments, run⟩ := computation_bind_eq_ok.1 run
  obtain ⟨t, p2, first, run⟩ := computation_bind_eq_ok.1 run
  obtain ⟨c, read, rfl⟩ := scan_eq_ok first
  have set : Restores k (modify fun p => { p with lookahead := t }) :=
    change fun _ _ => ⟨rfl, id, fun _ => rfl, rfl, fun _ _ kind => by
      cases (regexp_kind t read).symm.trans kind⟩
  exact Course.trans (leads comments) (Course.trans (leads first) (leads run))

instance (x : Parse Bool) (y : Parse α) [Restores k x] [Restores k y] (acc : Array α) (n : Nat) :
  Restores k (collectWhile x y acc n)
  := by induction n generalizing acc <;> (unfold collectWhile; infer_instance)

/-! ### Changed contexts -/

theorem restores_within {j : Bool} {change : Context → Context}
    {restore : Context → Context → Context} {x : Parse α} [Restores j x]
    (framed : ∀ c d, (restore c d.frame).frame = (restore c d).frame := by intros; rfl)
    (back : ∀ c, (restore c (change c).frame).frame = c.frame := by intros; rfl)
    (yields : ∀ c d : Context, (d.allowYield = true → (change c).allowYield = true) →
      (restore c d).allowYield = true → c.allowYield = true := by
        intro _ _ kept yields; first | exact yields | exact kept yields)
    (turned : ∀ c : Context, c.strict = true → (change c).strict = true := by
        intro _ strict; first | exact strict | rfl)
    (strict : ∀ c d : Context,
      ((change c).strict = true ∨ j = true → d.strict = (change c).strict) →
      c.strict = true ∨ k = true → (restore c d).strict = c.strict := by
        intro _ _ kept fixed; first | rfl | exact kept fixed) : Restores k (within change restore x)
  := by
  constructor
  intro s p p' a run
  obtain ⟨_, _, ⟨⟩, run⟩ := computation_bind_eq_ok.1 run
  obtain ⟨_, _, ⟨⟩, run⟩ := computation_bind_eq_ok.1 run
  obtain ⟨b, p1, inner, run⟩ := computation_bind_eq_ok.1 run
  cases run
  have kept := leads (R := Parser.Restored j) inner
  refine ⟨?_, yields _ _ kept.allowYield, strict _ _ kept.strict, kept.inModule,
    fun isStrict => kept.proper (turned _ isStrict)⟩
  calc (restore p.context p1.context).frame
      = (restore p.context p1.context.frame).frame := (framed _ _).symm
    _ = (restore p.context (change p.context).frame).frame := by rw [kept.frame]
    _ = p.context.frame := back _

variable (x : Parse α) [Restores k x] (b b' : Bool)

instance : Restores k (withIn b x) := restores_within
instance : Restores k (withYield b x) := restores_within
instance : Restores k (withFunction b b' x) := restores_within
instance : Restores k (asStrict x) := restores_within (j := k)
instance : Restores k (inFunction x) := restores_within
instance : Restores k (inLoop x) := restores_within
instance : Restores k (inSwitch x) := restores_within
instance : Restores k (inherit x) := restores_within

instance : Restores k (labeled v x)
  := restores_within (fun _ _ => rfl) fun _ => by simp [Context.frame]

instance : Restores k refuseInitializer := by
  refine after fun _ => ?_
  split <;> infer_instance

instance : Restores k (isolate x) := restores_within (j := k)

end Parse

end ScriptLens
