import ScriptLens.Proofs.Analysis.Refinement
import ScriptLens.Proofs.Continue.Feeds

/-!
# What becomes of the state in which a loop is continued

`carrying Q` relates computations that leave the options alone and take the state in which the loop
at hand is continued only to states that it is related to by `Q`.
-/

namespace ScriptLens.Analysis

def mayContinue (t : Tree) : Bool :=
  t.kind == .continueStatement || t.kind == .ifStatement || t.kind == .switchStatement ||
    t.kind == .blockStatement || t.kind == .tryStatement

def keptLoop (body : Analysis Unit) : Analysis Unit := do
  let before := (← session).continued
  body
  require (before.isBottom || !(← session).continued.isBottom)

/-- The engine of an analysis that fails where the state in which a loop is continued is dropped; the
first argument says whether there is a loop around the current point of the current function. -/
def kept : Bool → Nat → Engine
  | _, 0 => engine 0
  | inLoop, n + 1 =>
    { expr := fun t => settled (evalExpr (kept false n) t)
      exec := fun t hoisting => settled (
        if isLoop t then keptLoop (execStatement (kept true n) t hoisting)
        else if inLoop && mayContinue t then execStatement (kept true n) t hoisting
        else do
          require (t.kind != .continueStatement)
          execStatement (kept false n) t hoisting)
      invoke := fun callee site args this => settled (invoke (kept false n) callee site args this)
      program := fun t text => settled (runProgram (kept false n) t text) }

def watched (passes : State → Bool) : Nat → Engine
  | 0 => engine 0
  | n + 1 =>
    { kept true (n + 1) with
      exec := fun t hoisting =>
        if !isLoop t && mayContinue t then do
          if t.kind == .continueStatement then
            let s ← state
            require (s.isBottom || passes s)
          execStatement (watched passes n) t hoisting
        else (kept true (n + 1)).exec t hoisting }

/-! ### The analysis that keeps states is the analysis -/

variable {x y : Analysis Unit} {m m' : Machine}

theorem keptLoop_eq_ok (run : keptLoop x m = .ok () m') :
  x m = .ok () m' ∧ (m.session.continued.isBottom = true ∨ m'.session.continued.isBottom = false)
  := by
  rw [keptLoop, session_bind] at run
  obtain ⟨_, m1, followed, rest⟩ := bind_eq_ok.1 run
  rw [session_bind] at rest
  obtain ⟨kept, rfl⟩ := require_eq_ok.1 rest
  refine ⟨followed, ?_⟩
  simpa using kept

theorem Refines.keptLoop (inner : Refines x y) : Refines (keptLoop x) y
  := fun m _ m' run => inner m () m' (keptLoop_eq_ok run).1

/-- Where the analysis that keeps states has a result, the analysis has the same. -/
instance (inLoop : Bool) (n : Nat) : refinement.Engines (kept inLoop n) (engine n) := by
  induction n generalizing inLoop with
  | zero => exact refinement.engines_zero
  | succ n ih =>
    apply refinement_succ (kept false n)
    · exact fun t => .settled (.refl _)
    · intro t hoisting outside
      have inside : refinement.Related (execStatement (kept true n) t hoisting)
        (execStatement (engine n) t hoisting) := inferInstance
      apply Refines.settled
      split
      · exact inside.rel.keptLoop
      split
      · exact inside.rel
      · exact outside.require
    · exact fun callee site args this => .settled (.refl _)
    · exact fun t text => .settled (.refl _)
    · exact fun t => Steady.settled _
    · exact fun callee site args this => Steady.settled _

end ScriptLens.Analysis

namespace ScriptLens

def State.Held (s s' : State) : Prop := s' = s ∨ s.isBottom = true ∧ s'.isBottom = true

def State.Any (_ _ : State) : Prop := True

def State.HeldOrDropped (s s' : State) : Prop := s' = s ∨ s'.isBottom = true

namespace Analysis

set_option synthInstance.maxSize 100000

variable {α β : Type} {m m' : Machine} {Q : State → State → Prop}

/-- A computation that leaves the options alone and takes the state in which the loop at hand is
continued to a related one. -/
def Carries (Q : State → State → Prop) (x : Analysis α) : Prop :=
  ∀ m a m', x m = .ok a m' → m'.setting = m.setting ∧ Q m.session.continued m'.session.continued

abbrev carrying (Q : State → State → Prop) [Std.Refl Q] [IsTrans State Q] : Congruence where
  Rel x _ := Carries Q x
  passive x _ := by
    intro m a m' run
    have same := Passive.same run
    exact ⟨same.setting, same.continued ▸ Std.Refl.refl _⟩
  bind first rest := by
    intro m b m' run
    obtain ⟨a, m1, run1, run2⟩ := bind_eq_ok.1 run
    obtain ⟨setting1, carried1⟩ := first m a m1 run1
    obtain ⟨setting2, carried2⟩ := rest a m1 b m' run2
    exact ⟨setting2.trans setting1, IsTrans.trans _ _ _ carried1 carried2⟩
  effect := by
    intro m a m' run
    cases run
    exact ⟨rfl, Std.Refl.refl _⟩

instance [Std.Refl Q] [IsTrans State Q] : (carrying Q).Broad
  where
  elsewhere s inner := by
    intro m a m' run
    obtain ⟨m1, ended, -, rfl⟩ := onState_eq_ok run
    have carried := inner _ _ _ ended
    exact carried
  attempt inner := by
    intro m a m' run
    rw [Analysis.catchUnwind] at run
    split at run
    · rename_i ended
      cases run
      exact inner _ _ _ ended
    · rename_i abandoned
      exact absurd abandoned Steady.steady
    · cases run

instance : Std.Refl State.Any := ⟨fun _ => trivial⟩

instance : IsTrans State State.Any := ⟨fun _ _ _ _ _ => trivial⟩

instance : (carrying State.Any).Forgetful
  where
  forgets s := by
    intro m a m' run
    cases run
    exact ⟨rfl, trivial⟩
  counts := inferInstance

instance : (carrying State.Any).Nesting
  where
  enters i := by
    intro m a m' run
    cases run
    exact ⟨rfl, trivial⟩
  leaves saved := (carrying State.Any).passive (leaveLoop saved)

instance : Std.Refl State.Held := ⟨fun _ => .inl rfl⟩

instance : IsTrans State State.Held := by
  constructor
  rintro s t u (rfl | ⟨bottom, bottom'⟩) (rfl | ⟨again, bottom''⟩)
  · exact .inl rfl
  · exact .inr ⟨again, bottom''⟩
  · exact .inr ⟨bottom, bottom'⟩
  · exact .inr ⟨bottom, bottom''⟩

instance : Std.Refl State.HeldOrDropped := ⟨fun _ => .inl rfl⟩

instance : IsTrans State State.HeldOrDropped := by
  constructor
  rintro s t u (rfl | bottom) (rfl | bottom')
  · exact .inl rfl
  · exact .inr bottom'
  · exact .inr bottom
  · exact .inr bottom'

/-! ### Calls and programs -/

section

variable {x : Analysis α} {o : Obj} {body : Tree} {site : Option Tree}

theorem Carries.settled (inner : Carries Q x) : Carries Q (settled x)
  := fun m a m' run => inner m a m' (settled_eq_ok.1 run)

theorem Carries.mono (inner : Carries State.Held x) : Carries State.HeldOrDropped x := by
  intro m a m' run
  obtain ⟨setting, same | ⟨-, bottom⟩⟩ := inner m a m' run
  · exact ⟨setting, .inl same⟩
  · exact ⟨setting, .inr bottom⟩

theorem Carries.keptLoop {x : Analysis Unit} (inner : Carries Q x) : Carries Q (keptLoop x)
  := fun m a m' run => inner m a m' (keptLoop_eq_ok run).1

variable (Q) [Std.Refl Q] [IsTrans State Q]

theorem carries_changeSession {f : Session → Session} (kept : ∀ s, (f s).continued = s.continued) :
  (carrying Q).Related (changeSession f) (changeSession f)
  := by
  constructor
  intro m a m' run
  cases run
  refine ⟨rfl, ?_⟩
  change Q _ (f m.session).continued
  rw [kept]
  exact Std.Refl.refl _

instance : (carrying Q).Related (beginCall o body site) (beginCall o body site) := by
  have raise : (carrying Q).Related
      (changeSession fun s =>
        { s with result := .absent, returned := .bottom, callers := s.callers ++ [s.last]
                 isPure := true }) _ :=
    carries_changeSession Q fun _ => rfl
  unfold beginCall
  infer_instance

instance (saved : Session) (v : Value) :
  (carrying Q).Related (endCall o body site saved v) (endCall o body site saved v)
  := by
  have back : (carrying Q).Related
      (changeSession fun s =>
        { s with last := s.callers.getLast?.getD none, callers := s.callers.dropLast
                 isPure := saved.isPure && s.isPure, usesClosure := saved.usesClosure }) _ :=
    carries_changeSession Q fun _ => rfl
  unfold endCall
  infer_instance

variable (r : Engine) [(carrying Q).Engines r r]

instance (args : List Value)
    (this : Receiver) :
  (carrying Q).Related (callFunction r o body site args this)
    (callFunction r o body site args this)
  := by
  unfold callFunction callBody
  infer_instance

instance carries_invoke (callee : Callee) (site : Option Tree) (args : List Value)
    (this : Receiver) :
  (carrying Q).Related (invoke r callee site args this) (invoke r callee site args this)
  := by
  have set (b : Bool) : (carrying Q).Related (changeSession fun s => { s with isPure := b }) _ :=
    carries_changeSession Q fun _ => rfl
  exact Congruence.related_invoke_of ..

theorem carries_runProgram (t : Tree) (text : Text) : Carries Q (runProgram r t text) := by
  intro m a m' run
  have body : (carrying Q).Related (runBody r t) (runBody r t) := inferInstance
  obtain ⟨m1, followed, rfl⟩ := runProgram_eq_ok.1 run
  obtain ⟨setting, -⟩ := body.rel _ _ _ followed
  exact ⟨setting, Std.Refl.refl _⟩

end

instance (inLoop : Bool) (n : Nat) : (carrying State.Any).Engines (kept inLoop n) (kept inLoop n)
  := by
  induction n generalizing inLoop with
  | zero => exact (carrying State.Any).engines_zero
  | succ n ih =>
    have statement (b : Bool) (t : Tree) (hoisting : Bool) :
        (carrying State.Any).Related (execStatement (kept b n) t hoisting)
          (execStatement (kept b n) t hoisting) := inferInstance
    refine @.mk _ _ _ ⟨?expr, ?invoke, ?program⟩ ?exec ?steadyExpr ?steadyInvoke
    case expr =>
      intro t
      have inner : (carrying State.Any).Related (evalExpr (kept false n) t)
        (evalExpr (kept false n) t) := inferInstance
      exact Carries.settled inner.rel
    case exec =>
      intro t hoisting
      apply Carries.settled
      split
      · exact Carries.keptLoop (statement true t hoisting).rel
      split
      · exact (statement true t hoisting).rel
      · exact (carrying State.Any).bind ((carrying State.Any).passive _)
          fun _ => (statement false t hoisting).rel
    case invoke =>
      intro callee site args this
      exact Carries.settled (carries_invoke State.Any (kept false n) callee site args this).rel
    case program =>
      intro t text
      exact Carries.settled (carries_runProgram State.Any (kept false n) t text)
    case steadyExpr | steadyInvoke => intros; exact Steady.settled _

/-! ### Loops -/

section

variable {parts : LoopParts} {p p' : LoopProgress} {v : Value} {outer : State} {done : Bool}

theorem loopBody_continued (body : Carries State.Any parts.body)
    (update : Carries State.Any parts.update)
    (run : loopBody parts p v outer m = .ok (done, p') m') :
  m'.setting = m.setting ∧ m'.session.continued = outer
  := by
  obtain ⟨_, m1, followed, rest⟩ := bind_eq_ok.1 run
  obtain ⟨_, m2, updated, rest⟩ := bind_eq_ok.1 rest
  rw [state_bind, session_bind] at rest
  obtain ⟨s, n, -, rest⟩ := lift_domain_bind_eq_ok.1 rest
  rw [setState_bind, changeSession_bind] at rest
  have same := Passive.same rest
  exact ⟨same.setting.trans ((update _ _ _ updated).1.trans (body _ _ _ followed).1),
    same.continued⟩

def HandsOn (s s' : State) : Option (Value × State) → Prop
  | none => s.HeldOrDropped s'
  | some (_, outer) => outer = s ∧ s'.isBottom = true

variable {next : Option (Value × State)}

theorem decideLoop_eq_ok (run : decideLoop p v outer m = .ok (p', next) m') :
  m.Same m' ∧ ∀ q, next = some q → q.2 = outer
  := by
  obtain ⟨_, m1, consumed, rest⟩ := bind_eq_ok.1 run
  obtain ⟨q, m2, limited, rest⟩ := bind_eq_ok.1 rest
  have same := (Passive.same consumed).trans (Passive.same limited)
  split at rest
  · cases rest
    exact ⟨same, fun _ isNext => (Option.some.inj isNext) ▸ rfl⟩
  · obtain ⟨b, -, ended⟩ := lift_except_bind_eq_ok.1 rest
    split at ended
    · cases ended
      exact ⟨same, fun _ isNext => (Option.some.inj isNext) ▸ rfl⟩
    · cases ended
      refine ⟨same, ?_⟩
      intro q impossible
      cases impossible

theorem loopTest_continued (test : ∀ x, parts.test = some x → Carries State.Held x)
    (run : loopTest parts p m = .ok (p', next) m') :
  m'.setting = m.setting ∧ HandsOn m.session.continued m'.session.continued next
  := by
  rw [loopTest] at run
  obtain ⟨_, m1, marked, rest⟩ := bind_eq_ok.1 run
  obtain ⟨⟨stable, header⟩, m2, headed, rest⟩ := bind_eq_ok.1 rest
  have same := (Passive.same marked).trans (Passive.same headed)
  dsimp only at rest
  split at rest
  · cases rest
    exact ⟨same.setting, .inl same.continued⟩
  rw [session_bind, changeSession_bind] at rest
  obtain ⟨w, m3, tested, rest⟩ := bind_eq_ok.1 rest
  have after : m3.setting = m.setting ∧ m3.session.continued.isBottom = true := by
    rw [← same.setting]
    cases isTest : parts.test with
    | none =>
      rw [isTest] at tested
      cases tested
      exact ⟨rfl, rfl⟩
    | some x =>
      rw [isTest] at tested
      obtain ⟨setting, unchanged | ⟨-, bottom⟩⟩ := test x isTest _ _ _ tested
      · exact ⟨setting, by rw [unchanged]; rfl⟩
      · exact ⟨setting, bottom⟩
  have decided (run : decideLoop { p with header, lastTrue := false, count := p.count + 1 } w
      m2.session.continued m3 = .ok (p', next) m') :
      m'.setting = m.setting ∧ HandsOn m.session.continued m'.session.continued next := by
    obtain ⟨unchanged, handed⟩ := decideLoop_eq_ok run
    have bottom : m'.session.continued.isBottom = true := unchanged.continued ▸ after.2
    refine ⟨unchanged.setting.trans after.1, ?_⟩
    cases next with
    | none => exact .inr bottom
    | some q => exact ⟨(handed q rfl).trans same.continued, bottom⟩
  split at rest
  · rw [isBottom_bind] at rest
    split at rest
    · cases rest
      exact ⟨after.1, .inr after.2⟩
    · exact decided rest
  · exact decided rest

theorem loopWithin_continued (n : Nat) (test : ∀ x, parts.test = some x → Carries State.Held x)
    (body : Carries State.Any parts.body) (update : Carries State.Any parts.update) :
  Carries State.HeldOrDropped (loopWithin parts n p)
  := by
  induction n generalizing p with
  | zero => intro m q m' run; cases run
  | succ n ih =>
    intro m q m' run
    obtain ⟨⟨done, p1⟩, m1, stepped, rest⟩ := bind_eq_ok.1 run
    obtain ⟨⟨p2, next⟩, m2, tested, stepped⟩ := bind_eq_ok.1 stepped
    obtain ⟨setting, atTest⟩ := loopTest_continued test tested
    cases next with
    | none =>
      cases stepped
      cases rest
      exact ⟨setting, atTest⟩
    | some next =>
      obtain ⟨w, outer⟩ := next
      obtain ⟨rfl, -⟩ := atTest
      obtain ⟨setting', back⟩ := loopBody_continued body update stepped
      cases done with
      | true =>
        cases rest
        exact ⟨setting'.trans setting, .inl back⟩
      | false =>
        obtain ⟨setting'', after⟩ := ih _ _ _ rest
        rw [back] at after
        exact ⟨setting''.trans (setting'.trans setting), after⟩

theorem loop_continued {t : Tree} {start : Analysis Unit} {n : Nat} (begins : Carries State.Held start)
    (test : ∀ x, parts.test = some x → Carries State.Held x)
    (body : Carries State.Any parts.body) (update : Carries State.Any parts.update) :
  Carries State.HeldOrDropped (loop t start parts n)
  := by
  have starts : (carrying State.HeldOrDropped).Related start start := ⟨begins.mono⟩
  have enters : (carrying State.HeldOrDropped).Related (enterLoop t start) (enterLoop t start) := by
    unfold enterLoop
    infer_instance
  have iterates (n : Nat) (p : LoopProgress) : (carrying State.HeldOrDropped).Related
      (loopWithin parts n p) (loopWithin parts n p) := ⟨loopWithin_continued n test body update⟩
  have whole : (carrying State.HeldOrDropped).Related (loop t start parts n)
      (loop t start parts n) := by
    unfold loop
    infer_instance
  exact whole.rel

end

end Analysis

end ScriptLens
