import Mathlib.Logic.Relation
import ScriptLens.Proofs.Analysis.Onward

/-!
# Calls that are evaluated again

When calls of one call expression are nested too deeply, all but the outermost of them are abandoned
and that one is evaluated again, as often as it takes.
-/

namespace ScriptLens

/-- Where the analysis is in a program and what it has seen of the current function is the same in two
sessions, apart from what the function may have returned. -/
structure Session.SameSurroundings (s s' : Session) : Prop where
  loops : s'.loops = s.loops
  trace : s'.trace = s.trace
  broken : s'.broken = s.broken
  continued : s'.continued = s.continued
  callers : s'.callers = s.callers
  isPure : s'.isPure = s.isPure
  usesClosure : s'.usesClosure = s.usesClosure

/-- What the current function may have returned is the same in two sessions. -/
structure Session.SameReturn (s s' : Session) : Prop where
  result : s'.result = s.result
  returned : s'.returned = s.returned

namespace Analysis

variable {r : Engine} {t : Tree} {callee : Callee} {this : Receiver} {site : Nat}
  {m m' m1 : Machine}

theorem recursionState_eq_ok {s : Option State} (run : recursionState t m = .ok s m') :
  m'.session = m.session
  := by
  obtain ⟨v, m1, noted, run⟩ := bind_eq_ok.1 run
  obtain ⟨-, rfl⟩ := EStateM.Result.ok.inj noted
  split at run <;> obtain ⟨-, rfl⟩ := pure_eq_ok.1 run <;> rfl

theorem previousCut_eq_ok {old : Option State} (run : previousCut t m = .ok old m') :
  m'.session = m.session
  := by
  obtain ⟨s, m1, looked, run⟩ := bind_eq_ok.1 run
  have first := recursionState_eq_ok looked
  cases s with
  | none =>
    cases run
    exact first
  | some s =>
    obtain ⟨u, n, -, run⟩ := lift_domain_bind_eq_ok.1 run
    cases run
    exact first

/-- Evaluates a call that is abandoned up to itself, and goes back to evaluate it again; fails if it
is not abandoned, or further. -/
def retry (r : Engine) (t : Tree) (callee : Callee) (this : Receiver) (site : Nat) :
    Analysis Unit := do
  let old ← previousCut t
  let saved ← session
  match ← catchUnwind (attemptCall r t callee this) with
  | .ok _ => fail .unfinished
  | .error other =>
    if other != site then fail .unfinished
    restart t old saved

/-- A call that was entered in `m` is abandoned, and it is evaluated again from `m'`. -/
def Retry (r : Engine) (t : Tree) (callee : Callee) (this : Receiver) (site : Nat)
    (m m' : Machine) : Prop :=
  retry r t callee this site m = .ok () m'

def Abandoned (r : Engine) (t : Tree) (callee : Callee) (this : Receiver) (site : Nat)
    (old : Option State) (m m1 : Machine) : Prop :=
  ∃ m0, previousCut t m = .ok old m0 ∧
    catchUnwind (attemptCall r t callee this) m0 = .ok (.error site) m1

theorem Retry.abandoned (again : Retry r t callee this site m m') :
  ∃ old m1, Abandoned r t callee this site old m m1 ∧ restart t old m.session m1 = .ok () m'
  := by
  obtain ⟨old, m0, cut, again⟩ := bind_eq_ok.1 again
  rw [session_bind, previousCut_eq_ok cut] at again
  obtain ⟨attempt, m1, caught, again⟩ := bind_eq_ok.1 again
  cases attempt with
  | ok v => cases again
  | error other =>
    by_cases own : other = site
    · subst own
      dsimp only at again
      rw [bne_self_eq_false, if_neg Bool.false_ne_true] at again
      exact ⟨old, m1, ⟨m0, cut, caught⟩, again⟩
    · dsimp only at again
      rw [if_pos (bne_iff_ne.2 own)] at again
      cases again

theorem Retry.untilStable_eq (again : Retry r t callee this site m m') (n : Nat) :
  untilStable r t callee this site (n + 1) m = untilStable r t callee this site n m'
  := by
  obtain ⟨old, m1, ⟨m0, cut, abandoned⟩, restarted⟩ := again.abandoned
  rw [untilStable, bind_of_ok cut, session_bind, bind_of_ok abandoned, previousCut_eq_ok cut]
  simp only [bne_self_eq_false, Bool.false_eq_true, if_false]
  exact bind_of_ok restarted

theorem lift_domain_session {α : Type} {d : Domain α} {a : α}
    (run : (liftM d : Analysis α) m = .ok a m') : m'.session = m.session
  := by
  obtain ⟨n, -, rfl⟩ := lift_domain_eq_ok.1 run
  rfl

theorem cutOff_session {cut : State}
    (run : (do
      if ← (← state).equal cut then
        setNote t .skip (.flag true)
        setState (← (← state).assign cut) : Analysis Unit) m = .ok () m') : m'.session = m.session
  := by
  rw [state_bind] at run
  obtain ⟨stable, -, rest⟩ := lift_except_bind_eq_ok.1 run
  split at rest
  · obtain ⟨_, m2, noted, rest⟩ := bind_eq_ok.1 rest
    have written : m2.session = m.session := by
      cases noted
      rfl
    rw [state_bind] at rest
    obtain ⟨s, m3, assigned, rest⟩ := bind_eq_ok.1 rest
    cases rest
    exact (lift_domain_session assigned).trans written
  · cases rest
    rfl

theorem restart_session {old : Option State} {saved : Session}
    (run : restart t old saved m = .ok () m') :
  m'.session = { m.session with returned := saved.returned, result := saved.result }
  := by
  obtain ⟨cut, m1, looked, run⟩ := bind_eq_ok.1 run
  have first := recursionState_eq_ok looked
  split at run
  · rename_i old cut
    rw [state_bind] at run
    obtain ⟨s, m2, assigned, run⟩ := bind_eq_ok.1 run
    rw [setState_bind, changeSession_bind, state_bind] at run
    obtain ⟨u, m3, unified, run⟩ := bind_eq_ok.1 run
    rw [← first, ← lift_domain_session assigned]
    exact (cutOff_session run).trans (lift_domain_session unified)
  · cases run
  · cases run

/-! ### Any number of evaluations -/

section

variable {n : Nat} {old : Option State}

theorem Abandoned.onward (abandoned : Abandoned (engine n) t callee this site old m m1) :
  m.Onward LoopContext.Inside m1
  := by
  obtain ⟨m0, cut, caught⟩ := abandoned
  have before : Keeps (Machine.Onward LoopContext.Inside) (previousCut t) := by
    unfold previousCut
    refine .after fun _ => ?_
    split <;> infer_instance
  have attempt : Keeps (Machine.Onward LoopContext.Inside) (attemptCall (engine n) t callee this) :=
    keeps_of_related _ inferInstance
  exact Chained.trans (before.ended cut) (Keeps.ended caught)

theorem Retry.session_eq (again : Retry (engine n) t callee this site m m') :
  ∃ old m1, Abandoned (engine n) t callee this site old m m1 ∧
    m'.session =
      { m1.session with returned := m.session.returned, result := m.session.result }
  := by
  obtain ⟨old, m1, abandoned, restarted⟩ := again.abandoned
  exact ⟨old, m1, abandoned, restart_session restarted⟩

theorem retries_onward
    (again : Relation.ReflTransGen (Retry (engine n) t callee this site) m m') :
  (∃ j, ∀ k, untilStable (engine n) t callee this site (k + j) m =
      untilStable (engine n) t callee this site k m') ∧
    m.session.SameReturn m'.session ∧ m.session.loops <:+ m'.session.loops ∧
    m.session.callers <+: m'.session.callers
  := by
  induction again with
  | refl => exact ⟨⟨0, fun _ => rfl⟩, ⟨rfl, rfl⟩, List.suffix_rfl, List.prefix_rfl⟩
  | tail _ step ih =>
    obtain ⟨⟨j, same⟩, returns, loops, callers⟩ := ih
    obtain ⟨old, m1, abandoned, session⟩ := step.session_eq
    have onward := abandoned.onward
    rw [session]
    refine ⟨⟨j + 1, fun k => ?_⟩, ⟨returns.result, returns.returned⟩, loops.trans onward.loops,
      callers.trans onward.callers⟩
    rw [← Nat.add_assoc, Nat.add_right_comm, same, step.untilStable_eq]

/-- However often a call is evaluated again: what the current function may have returned is as it was
when the call was first entered, and all else is as it was when the call was last abandoned.  The loops
and callers of the first time are still there, below those that have not been left since. -/
theorem retries_restore_return
    (again : Relation.TransGen (Retry (engine n) t callee this site) m m') :
  (∃ j, ∀ k, untilStable (engine n) t callee this site (k + j + 1) m =
      untilStable (engine n) t callee this site k m') ∧
    m.session.SameReturn m'.session ∧
    ∃ m0 old m1, Relation.ReflTransGen (Retry (engine n) t callee this site) m m0 ∧
      Abandoned (engine n) t callee this site old m0 m1 ∧
      m.session.loops <:+ m1.session.loops ∧ m.session.callers <+: m1.session.callers ∧
      m1.session.SameSurroundings m'.session ∧
      (m.session.SameSurroundings m'.session ↔ m.session.SameSurroundings m1.session)
  := by
  obtain ⟨m0, before, last⟩ := Relation.TransGen.tail'_iff.1 again
  obtain ⟨⟨j, same⟩, returns, loops, callers⟩ := retries_onward before
  obtain ⟨old, m1, abandoned, session⟩ := last.session_eq
  have onward := abandoned.onward
  refine ⟨⟨j, fun k => ?_⟩, ?_, m0, old, m1, before, abandoned, loops.trans onward.loops,
    callers.trans onward.callers, ?_, ?_⟩
  · rw [Nat.add_right_comm, same, last.untilStable_eq]
  · rw [session]
    exact ⟨returns.result, returns.returned⟩
  · rw [session]
    exact ⟨rfl, rfl, rfl, rfl, rfl, rfl, rfl⟩
  · rw [session]
    constructor <;> intro ⟨loops, trace, broken, continued, callers, isPure, usesClosure⟩ <;>
      exact ⟨loops, trace, broken, continued, callers, isPure, usesClosure⟩

end

/-! ### A function that calls itself in a loop -/

def impatientMachine : Machine := { setting := { options := { maxRecursion := 0 } } }

def enterLoopingCall : Analysis (Tree × Callee × Nat) := do
  setState (← State.fresh true)
  let p ← parseScript "function f() \x7b while (u) f(); \x7d" 1
  let declaration := (p.tree.get .body).items.headD .null
  (engine 30).exec declaration true
  let loop := ((declaration.get .body).get .body).items.headD .null
  let t := (loop.get .body).get .expression
  let callee := Callee.object (← object 1)
  setNote t .active (.count 0)
  let site ← callSiteId t
  cutRecursion t site
  changeActive t 1
  return (t, callee, site)

set_option maxRecDepth 20000 in
theorem loopingCall_retry :
  ∃ t callee site m m', enterLoopingCall impatientMachine = .ok (t, callee, site) m ∧
    Retry (engine 30) t callee .unbound site m m' ∧ m.session.loops.length = 0 ∧
    m'.session.loops.length = 1
  := by
  have found : ends enterLoopingCall impatientMachine (fun (t, callee, site) m =>
      ends (retry (engine 30) t callee .unbound site) m fun _ m' =>
        m.session.loops.length == 0 && m'.session.loops.length == 1) = true := by decide +kernel
  obtain ⟨⟨t, callee, site⟩, m, entered, found⟩ := exists_of_ends found
  obtain ⟨_, m', retried, found⟩ := exists_of_ends found
  rw [Bool.and_eq_true, beq_iff_eq, beq_iff_eq] at found
  exact ⟨t, callee, site, m, m', entered, retried, found⟩

/-- A function that calls itself in a loop is evaluated again. -/
theorem retries_restore_return_looping :
  ∃ t callee site m m', Retry (engine 30) t callee .unbound site m m' ∧
    m.session.SameReturn m'.session
  := by
  obtain ⟨t, callee, site, m, m', -, again, -⟩ := loopingCall_retry
  exact ⟨t, callee, site, m, m', again, (retries_restore_return (.single again)).2.1⟩

/-- The loop in which the call was abandoned is still around it when it is evaluated again. -/
theorem loopingCall_not_restored :
  ∃ t callee site m m', enterLoopingCall impatientMachine = .ok (t, callee, site) m ∧
    Retry (engine 30) t callee .unbound site m m' ∧ m'.session.loops ≠ m.session.loops
  := by
  obtain ⟨t, callee, site, m, m', entered, again, before, after⟩ := loopingCall_retry
  refine ⟨t, callee, site, m, m', entered, again, fun same => ?_⟩
  rw [same, before] at after
  cases after

end Analysis

end ScriptLens
