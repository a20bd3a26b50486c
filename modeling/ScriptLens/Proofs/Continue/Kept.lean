import ScriptLens.Proofs.Continue.Carrying

/-!
# The analysis that keeps the states in which loops are continued

Outside of loops, the analysis that keeps states keeps the one in which the loop at hand is
continued.
-/

namespace ScriptLens.Analysis

set_option synthInstance.maxSize 100000

variable {t : Tree} {m m' : Machine} {n : Nat}

theorem kept_expr (n : Nat) (t : Tree) : (kept true n).expr t = (kept false n).expr t := by
  cases n <;> rfl

theorem kept_exec (n : Nat) (hoisting : Bool) (cannot : (!isLoop t && mayContinue t) = false) :
  (kept true n).exec t hoisting = (kept false n).exec t hoisting
  := by
  cases n with
  | zero => rfl
  | succ n =>
    unfold kept
    dsimp only
    by_cases loops : isLoop t = true
    · rw [if_pos loops, if_pos loops]
    · have cannot : mayContinue t = false := by simpa [loops] using cannot
      simp only [cannot, Bool.and_false]

theorem execLoop_continued [(carrying State.Held).Engines (kept false n) (kept false n)]
    (t : Tree) (isForIn : Bool) : Carries State.HeldOrDropped (execLoop (kept true n) t isForIn)
  := by
  have expr (u : Tree) : (carrying State.Held).Related ((kept true n).expr u)
      ((kept true n).expr u) := by
    rw [kept_expr]
    infer_instance
  have head (u : Tree) : (carrying State.Held).Related (loopHeadPart (kept true n) u)
      (loopHeadPart (kept true n) u) := by
    unfold loopHeadPart
    split
    · rename_i declares
      rw [kept_exec n false (by simp [isLoop, mayContinue, beq_iff_eq.1 declares])]
      infer_instance
    · infer_instance
  have parts := Congruence.loops_loopParts (carrying State.Any) (kept true n) (kept true n) t isForIn
  apply loop_continued
  · have start : (carrying State.Held).Related (loopStart (kept true n) t)
        (loopStart (kept true n) t) := by
      unfold loopStart
      infer_instance
    exact start.rel
  · intro x isTest
    have test : (carrying State.Held).Related
        (do let v ← (kept true n).expr (t.get .test); passThrough (t.get .test); return v)
        (do let v ← (kept true n).expr (t.get .test); passThrough (t.get .test); return v) :=
      inferInstance
    unfold loopParts at isTest
    dsimp only at isTest
    split at isTest
    · cases isTest
    · cases isTest
      exact test.rel
  · exact parts.body.rel
  · exact parts.update.rel

theorem keptLoop_keeps {x : Analysis Unit} (inner : Carries State.HeldOrDropped x) :
  Carries State.Held (keptLoop x)
  := by
  intro m a m' run
  obtain ⟨followed, undropped⟩ := keptLoop_eq_ok run
  obtain ⟨setting, same | bottom⟩ := inner m a m' followed
  · exact ⟨setting, .inl same⟩
  · rcases undropped with before | after
    · exact ⟨setting, .inr ⟨before, bottom⟩⟩
    · rw [bottom] at after
      cases after

instance kept_keeps (n : Nat) : (carrying State.Held).Engines (kept false n) (kept false n) := by
  induction n with
  | zero => exact (carrying State.Held).engines_zero
  | succ n ih =>
    refine @.mk _ _ _ ⟨?expr, ?invoke, ?program⟩ ?exec ?steadyExpr ?steadyInvoke
    case expr =>
      intro t
      have inner : (carrying State.Held).Related (evalExpr (kept false n) t)
        (evalExpr (kept false n) t) := inferInstance
      exact Carries.settled inner.rel
    case exec =>
      intro t hoisting
      apply Carries.settled
      split
      · rename_i loops
        have statement : (carrying State.HeldOrDropped).Related
            (execStatement (kept true n) t hoisting) (execStatement (kept true n) t hoisting) :=
          Congruence.related_loopStatement _ hoisting loops
            fun isForIn => ⟨execLoop_continued t isForIn⟩
        exact keptLoop_keeps statement.rel
      · rename_i notLoop
        intro m a m' run
        obtain ⟨_, m1, passed, followed⟩ := bind_eq_ok.1 run
        obtain ⟨goesOn, rfl⟩ := require_eq_ok.1 passed
        have statement : (carrying State.Held).Related
            (execStatement (kept false n) t hoisting) (execStatement (kept false n) t hoisting) :=
          Congruence.related_execStatement _ _ _ t hoisting (bne_iff_ne.1 goesOn)
            fun loops => absurd loops notLoop
        exact statement.rel _ _ _ followed
    case invoke =>
      intro callee site args this
      exact Carries.settled (carries_invoke State.Held (kept false n) callee site args this).rel
    case program =>
      intro t text
      exact Carries.settled (carries_runProgram State.Held (kept false n) t text)
    case steadyExpr | steadyInvoke => intros; exact Steady.settled _

/-! ### Watching the states in which a loop is continued -/

/-- All states that have been joined into the one in which the loop at hand is continued pass a
test. -/
def Accepts (c : Setting) (passes : State → Bool) (m : Machine) : Prop :=
  m.session.continued.isBottom = true ∨
    ∀ s : State, s.Feeds c m.session.continued → passes s = true

variable {α β : Type} {c : Setting} {passes : State → Bool}

/-- If all states joined in the end pass the test, those joined before do, and the second computation
does the same as the first one. -/
def Watches (c : Setting) (passes : State → Bool) (x y : Analysis α) : Prop :=
  ∀ m a m', m.setting = c → x m = .ok a m' →
    m'.setting = c ∧ (Accepts c passes m' → Accepts c passes m ∧ y m = .ok a m')

variable {x : Analysis α}

theorem Carries.watches (kept : Carries State.Held x) : Watches c passes x x := by
  intro m a m' setting run
  obtain ⟨setting', same | ⟨bottom, -⟩⟩ := kept m a m' run
  · refine ⟨setting'.trans setting, fun accepts => ⟨?_, run⟩⟩
    unfold Accepts at accepts ⊢
    rw [same] at accepts
    exact accepts
  · exact ⟨setting'.trans setting, fun _ => ⟨.inl bottom, run⟩⟩

theorem Watches.settled {y : Analysis α} (inner : Watches c passes x y) :
  Watches c passes (settled x) y
  := fun m a m' setting run => inner m a m' setting (settled_eq_ok.1 run)

/-- Watching carries over from engines to the analyses they drive. -/
abbrev watching (c : Setting) (passes : State → Bool) : Congruence where
  Rel := Watches c passes
  passive x _ := ((carrying State.Held).passive x).watches
  bind {_ _ _ _ _ _} first rest := by
    intro m b m' setting run
    obtain ⟨a, m1, run1, run2⟩ := bind_eq_ok.1 run
    obtain ⟨setting1, back1⟩ := first m a m1 setting run1
    obtain ⟨setting2, back2⟩ := rest a m1 b m' setting1 run2
    refine ⟨setting2, fun accepts => ?_⟩
    obtain ⟨accepts1, same2⟩ := back2 accepts
    obtain ⟨accepts0, same1⟩ := back1 accepts1
    exact ⟨accepts0, bind_eq_ok.2 ⟨a, m1, same1, same2⟩⟩
  effect := (carrying State.Held).effect.watches

instance : (watching c passes).Broad
  where
  elsewhere s inner := by
    intro m q m' setting run
    obtain ⟨m1, ended, value, rfl⟩ := onState_eq_ok run
    obtain ⟨setting', back⟩ := inner { m with state := s } _ _ setting ended
    refine ⟨setting', fun accepts => ?_⟩
    obtain ⟨before, same⟩ := back accepts
    obtain ⟨a, s'⟩ := q
    obtain rfl : s' = m1.state := value
    refine ⟨before, ?_⟩
    rw [onState, same]
  attempt inner := by
    intro m a m' setting run
    rw [catchUnwind] at run ⊢
    split at run
    · rename_i ended
      cases run
      obtain ⟨setting', back⟩ := inner _ _ _ setting ended
      refine ⟨setting', fun accepts => ?_⟩
      obtain ⟨before, same⟩ := back accepts
      rw [same]
      exact ⟨before, rfl⟩
    · rename_i abandoned
      exact absurd abandoned Steady.steady
    · cases run

theorem execStatement_continue (r : Engine) (hoisting : Bool) (continues : t.kind = .continueStatement) :
  execStatement r t hoisting = (do
    if ← isBottom then return ()
    enterStatement t
    execContinue)
  := by
  unfold execStatement
  rw [continues]

theorem setLive_state (run : setLive t m = .ok () m') : m'.state = m.state := by
  rw [setLive, get_bind] at run
  split at run
  · cases run
    rfl
  · cases run
    rfl

theorem enterStatement_state (run : enterStatement t m = .ok () m') : m'.state = m.state := by
  obtain ⟨_, m1, lives, rest⟩ := bind_eq_ok.1 run
  split at rest
  · cases rest
  · cases rest
    exact (setLive_state lives : m1.state = m.state)

theorem watches_continue (r r' : Engine) (hoisting : Bool) (continues : t.kind = .continueStatement) :
  Watches c passes (execStatement r t hoisting)
    (do
      let s ← state
      require (s.isBottom || passes s)
      execStatement r' t hoisting)
  := by
  rw [execStatement_continue r hoisting continues, execStatement_continue r' hoisting continues]
  intro m a m' setting run
  suffices joined : m'.setting = c ∧ (Accepts c passes m' →
      Accepts c passes m ∧ (m.state.isBottom || passes m.state) = true) by
    refine ⟨joined.1, fun accepts => ?_⟩
    obtain ⟨before, passed⟩ := joined.2 accepts
    rw [state_bind]
    exact ⟨before, bind_eq_ok.2 ⟨(), m, require_eq_ok.2 ⟨passed, rfl⟩, run⟩⟩
  rw [isBottom_bind] at run
  cases bottom : m.state.isBottom with
  | true =>
    rw [bottom, if_pos rfl] at run
    cases run
    exact ⟨setting, fun accepts => ⟨accepts, rfl⟩⟩
  | false =>
    rw [bottom, if_neg Bool.false_ne_true] at run
    obtain ⟨_, m1, entered, rest⟩ := bind_eq_ok.1 run
    have same := Passive.same entered
    rw [execContinue, session_bind, state_bind] at rest
    obtain ⟨u, n, joined, ended⟩ := lift_domain_bind_eq_ok.1 rest
    cases ended
    rw [same.setting, setting, same.continued, enterStatement_state entered] at joined
    refine ⟨same.setting.trans setting, fun accepts => ?_⟩
    rcases accepts with nothing | accepts
    · have reached := (State.join_scopes joined).1
      rw [bottom, Bool.and_false] at reached
      rw [reached] at nothing
      cases nothing
    · exact ⟨.inr fun s feeds => accepts s (.left feeds joined), accepts _ (.right .refl joined)⟩

instance : (watching c passes).Engines (kept true n) (watched passes n) := by
  induction n with
  | zero => exact (watching c passes).engines_zero
  | succ n ih =>
    have keeps := kept_keeps (n + 1)
    refine @.mk _ _ _ ⟨?expr, ?invoke, ?program⟩ ?exec ?steadyExpr ?steadyInvoke
    case expr => intro t; exact Carries.watches (keeps.expr t)
    case exec =>
      intro t hoisting
      by_cases continues : (!isLoop t && mayContinue t) = true
      · obtain ⟨notLoop, may⟩ := Bool.and_eq_true_iff.1 continues
        have notLoop : ¬ isLoop t = true := by simpa using notLoop
        have inner : (kept true (n + 1)).exec t hoisting =
            settled (execStatement (kept true n) t hoisting) := by
          change settled (if isLoop t then _ else if true && mayContinue t then _ else _) = _
          rw [if_neg notLoop, if_pos (by simpa using may)]
        have outer : (watched passes (n + 1)).exec t hoisting = (do
            if t.kind == .continueStatement then
              let s ← state
              require (s.isBottom || passes s)
            execStatement (watched passes n) t hoisting) := if_pos continues
        rw [inner, outer]
        apply Watches.settled
        by_cases isContinue : t.kind = .continueStatement
        · rw [if_pos (beq_iff_eq.2 isContinue)]
          exact watches_continue _ _ hoisting isContinue
        · rw [if_neg (by simpa using isContinue)]
          have statement : (watching c passes).Related (execStatement (kept true n) t hoisting)
              (execStatement (watched passes n) t hoisting) :=
            Congruence.related_execStatement _ _ _ t hoisting isContinue
              fun loops => absurd loops notLoop
          exact statement.rel
      · have same := kept_exec (n + 1) hoisting (Bool.eq_false_iff.2 continues)
        have unwatched : (watched passes (n + 1)).exec t hoisting = (kept true (n + 1)).exec t hoisting
          := if_neg continues
        rw [unwatched, same]
        exact Carries.watches (keeps.exec t hoisting)
    case invoke =>
      intro callee site args this
      exact Carries.watches (keeps.invoke callee site args this)
    case program => intro t text; exact Carries.watches (keeps.program t text)
    case steadyExpr | steadyInvoke => intros; exact Steady.settled _

end ScriptLens.Analysis
