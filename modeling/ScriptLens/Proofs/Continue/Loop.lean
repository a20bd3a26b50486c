import ScriptLens.Proofs.Continue.Kept

/-!
# Continued loops

Every state in which an iteration of a loop is continued is joined into the state in which the
condition of the loop is evaluated next, whatever loops there are in its body, as long as none of
them drops the states that were joined before it.
-/

namespace ScriptLens.Analysis

set_option synthInstance.maxSize 100000

variable {t : Tree} {isForIn : Bool} {n : Nat} {p p' : LoopProgress} {v : Value}
  {outer header : State} {done stable : Bool} {m m' m'' : Machine}

theorem execLoop_broken (r : Engine) (run : execLoop r t isForIn m = .ok () m') :
  m'.session.broken = m.session.broken
  := by
  rw [execLoop, loop, isBottom_bind] at run
  split at run
  · cases run
    rfl
  · obtain ⟨m1, followed, rfl⟩ := consuming_eq_ok run
    rw [session_bind] at followed
    obtain ⟨_, m2, -, rest⟩ := bind_eq_ok.1 followed
    rw [options_bind] at rest
    obtain ⟨_, m3, -, rest⟩ := bind_eq_ok.1 rest
    obtain ⟨_, m4, -, rest⟩ := bind_eq_ok.1 rest
    obtain ⟨_, m5, -, left⟩ := bind_eq_ok.1 rest
    rw [leaveLoop, session_bind] at left
    obtain ⟨returned, m6, -, ⟨⟩⟩ := bind_eq_ok.1 left
    rfl

/-! ### From the end of an iteration to the next condition -/

theorem collect_feeds (run : collect m = .ok () m') :
  m'.setting = m.setting ∧ m.state.Feeds m.setting m'.state
  := by
  rw [collect, state_bind] at run
  obtain ⟨s, m1, collected, ⟨⟩⟩ := bind_eq_ok.1 run
  rw [collectIn, changeSession_bind, options_bind] at collected
  split at collected
  · obtain ⟨k, cleaned, rfl⟩ := lift_domain_eq_ok.1 collected
    exact ⟨rfl, .collect .refl cleaned⟩
  · cases collected
    exact ⟨rfl, .refl⟩

theorem absorb_feeds {s s' : State} (run : absorb s m = .ok s' m') :
  m'.setting = m.setting ∧ m.state.Feeds m.setting m'.state
  := by
  rw [absorb, state_bind] at run
  obtain ⟨u, k, joined, rest⟩ := lift_domain_bind_eq_ok.1 run
  rw [state_bind] at rest
  obtain ⟨w, k', copied, rest⟩ := lift_domain_bind_eq_ok.1 rest
  cases rest
  exact ⟨rfl, .copy (.right .refl joined) copied⟩

theorem mergeHead_feeds (run : mergeHead p m = .ok (stable, header) m') :
  m.state.Feeds m.setting m'.state
  := by
  obtain ⟨_, m1, collected, rest⟩ := bind_eq_ok.1 run
  obtain ⟨previous, m2, cloned, rest⟩ := bind_eq_ok.1 rest
  obtain ⟨h, m3, absorbed, rest⟩ := bind_eq_ok.1 rest
  obtain ⟨previous', m4, unified, rest⟩ := bind_eq_ok.1 rest
  obtain ⟨b, m5, compared, rest⟩ := bind_eq_ok.1 rest
  cases rest
  obtain ⟨setting, first⟩ := collect_feeds collected
  obtain ⟨_, -, rfl⟩ := lift_domain_eq_ok.1 cloned
  obtain ⟨-, second⟩ := absorb_feeds absorbed
  obtain ⟨_, -, rfl⟩ := lift_domain_eq_ok.1 unified
  obtain ⟨-, rfl⟩ := lift_except_eq_ok.1 compared
  rw [setting] at second
  exact first.trans second

theorem loopHead_feeds (run : loopHead p m = .ok (stable, header) m') :
  m.state.Feeds m.setting m'.state
  := by
  unfold loopHead at run
  split at run
  · split at run
    · rw [state_bind] at run
      obtain ⟨same, -, rest⟩ := lift_except_bind_eq_ok.1 run
      cases same with
      | true =>
        cases rest
        exact .refl
      | false =>
        change (state >>= _) m = _ at rest
        rw [state_bind] at rest
        obtain ⟨s, _, -, ended⟩ := lift_domain_bind_eq_ok.1 rest
        cases ended
        exact .refl
    · cases run
      exact .refl
  · rw [options_bind] at run
    cases limit : m.setting.options.maxIterations with
    | none =>
      rw [limit] at run
      cases run
    | some k =>
      simp only [limit] at run
      split at run
      · cases run
      · exact mergeHead_feeds run

theorem markIteration_state (run : markIteration m = .ok () m') :
  m'.setting = m.setting ∧ m'.state = m.state
  := by
  rw [markIteration, session_bind] at run
  cases traced : m.session.trace with
  | none =>
    rw [traced] at run
    cases run
  | some l =>
    rw [traced] at run
    cases run
    exact ⟨rfl, rfl⟩

theorem countIteration_state (run : countIteration m = .ok () m') : m'.state = m.state := by
  rw [countIteration, options_bind] at run
  cases run
  rfl

theorem endIteration_state (run : endIteration p v m = .ok (done, p') m') : m'.state = m.state := by
  rw [endIteration, session_bind] at run
  have counted (q : LoopProgress) (run : (do countIteration; return (false, q) : Analysis _) m =
      .ok (done, p') m') : m'.state = m.state := by
    obtain ⟨_, m1, counted, ⟨⟩⟩ := bind_eq_ok.1 run
    exact countIteration_state counted
  split at run
  · rw [isBottom_bind] at run
    split at run
    · cases run
      rfl
    · exact counted _ run
  · exact counted _ run

/-! ### Iterations -/

theorem loopBody_watched (passes : State → Bool)
    (run : loopBody (loopParts (kept true n) t isForIn) p v outer m = .ok (done, p') m')
    (accepts : ∀ s : State, s.Feeds m.setting m'.state → passes s = true) :
  loopBody (loopParts (watched passes n) t isForIn) p v outer m = .ok (done, p') m'
  := by
  have parts := Congruence.loops_loopParts (watching m.setting passes) (kept true n)
    (watched passes n) t isForIn
  obtain ⟨_, m1, followed, rest⟩ := bind_eq_ok.1 run
  obtain ⟨_, m2, updated, ended⟩ := bind_eq_ok.1 rest
  obtain ⟨setting1, back1⟩ := parts.body.rel m _ m1 rfl followed
  obtain ⟨setting2, back2⟩ := parts.update.rel m1 _ m2 setting1 updated
  have joined : m2.session.continued.Feeds m.setting m'.state := by
    rw [state_bind, session_bind] at ended
    obtain ⟨s, k, joins, after⟩ := lift_domain_bind_eq_ok.1 ended
    rw [setState_bind, changeSession_bind] at after
    rw [setting2] at joins
    rw [endIteration_state after]
    exact .right .refl joins
  obtain ⟨accepts1, sameUpdate⟩ := back2 (.inr fun s feeds => accepts s (feeds.trans joined))
  obtain ⟨-, sameBody⟩ := back1 accepts1
  exact bind_eq_ok.2 ⟨(), m1, sameBody, bind_eq_ok.2 ⟨(), m2, sameUpdate, ended⟩⟩

theorem loopBody_setting
    (run : loopBody (loopParts (kept true n) t isForIn) p v outer m = .ok (done, p') m') :
  m'.setting = m.setting
  := by
  have parts := Congruence.loops_loopParts (carrying State.Any) (kept true n) (kept true n) t isForIn
  exact ((parts.related_loopBody p v outer).rel m _ m' run).1

/-- A loop in which no state is dropped is analysed as usual.  It puts the states in which the loop
around it is left or continued back as they were, or drops the latter.  Whatever `continue` is met in
an iteration, the state there is joined into the state in which the condition is evaluated next. -/
theorem continue_reaches_test (n : Nat) (t : Tree) (isForIn : Bool) :
  (∀ m m', execLoop (kept true n) t isForIn m = .ok () m' →
    execLoop (engine n) t isForIn m = .ok () m' ∧ m'.session.broken = m.session.broken ∧
    (m'.session.continued = m.session.continued ∨ m'.session.continued.isBottom = true)) ∧
  ∀ p p' v outer done stable header m m' m'',
    loopBody (loopParts (kept true n) t isForIn) p v outer m = .ok (done, p') m' →
    (do markIteration; loopHead p') m' = .ok (stable, header) m'' →
    loopBody (loopParts (engine n) t isForIn) p v outer m = .ok (done, p') m' ∧
    ∀ passes : State → Bool, (∀ s : State, s.Feeds m.setting m''.state → passes s = true) →
      loopBody (loopParts (watched passes n) t isForIn) p v outer m = .ok (done, p') m'
  := by
  constructor
  · intro m m' run
    have refines : refinement.Related (execLoop (kept true n) t isForIn)
      (execLoop (engine n) t isForIn) := inferInstance
    obtain ⟨-, continued⟩ := execLoop_continued t isForIn m () m' run
    exact ⟨refines.rel m () m' run, execLoop_broken _ run, continued⟩
  · intro p p' v outer done stable header m m' m'' run next
    have refines := (Congruence.loops_loopParts refinement (kept true n) (engine n) t
      isForIn).related_loopBody p v outer
    refine ⟨refines.rel m _ m' run, fun passes accepts => ?_⟩
    apply loopBody_watched passes run
    intro s feeds
    apply accepts
    obtain ⟨_, m1, marked, head⟩ := bind_eq_ok.1 next
    obtain ⟨setting, same⟩ := markIteration_state marked
    have onwards := loopHead_feeds head
    rw [setting, same, loopBody_setting run] at onwards
    exact feeds.trans onwards

def firstLoop? (text : Text) : Option (Machine × Tree) := do
  let p ← (parseScript text 1).toOption
  let t ← (p.tree.get .body).items.head?
  let m := Machine.start {} true text p
  return ({ m with session := { m.session with trace := some #[] } }, t)

/-- Whether the loop that a program starts with has an iteration, and then a next one. -/
def goesOn (r : Engine) (text : Text) : Bool :=
  match firstLoop? text with
  | some (m, t) =>
    match loopBody (loopParts r t false) { unrolling := false } .top .bottom m with
    | .ok (_, p) m' =>
      match (do markIteration; loopHead p) m' with
      | .ok _ m'' => !m''.state.isBottom
      | .error _ _ => false
    | .error _ _ => false
  | none => false

theorem goesOn_spec {r : Engine} {text : Text} (goes : goesOn r text = true) :
  ∃ m t done p m' stable header m'', firstLoop? text = some (m, t) ∧
    loopBody (loopParts r t false) { unrolling := false } .top .bottom m = .ok (done, p) m' ∧
    (do markIteration; loopHead p) m' = .ok (stable, header) m''
  := by
  unfold goesOn at goes
  split at goes
  · rename_i m t first
    split at goes
    · rename_i done p m' run
      split at goes
      · rename_i head m'' next
        exact ⟨m, t, done, p, m', head.1, head.2, m'', first, run, next⟩
      · cases goes
    · cases goes
  · cases goes

set_option maxRecDepth 20000 in
/-- The state of a `continue` goes past a loop after it whose condition is unknown. -/
theorem continue_passes_loop :
  ∃ m t done p m' stable header m'',
    firstLoop? "while (u) { if (v) { x = 1; continue; } while (w) { y = 2; } }" = some (m, t) ∧
    loopBody (loopParts (kept true 30) t false) { unrolling := false } .top .bottom m =
      .ok (done, p) m' ∧
    (do markIteration; loopHead p) m' = .ok (stable, header) m'' ∧
    ∀ passes : State → Bool, (∀ s : State, s.Feeds m.setting m''.state → passes s = true) →
      loopBody (loopParts (watched passes 30) t false) { unrolling := false } .top .bottom m =
        .ok (done, p) m'
  := by
  have goes : goesOn (kept true 30)
      "while (u) { if (v) { x = 1; continue; } while (w) { y = 2; } }" = true := by
    decide +kernel
  obtain ⟨m, t, done, p, m', stable, header, m'', first, run, next⟩ := goesOn_spec goes
  obtain ⟨-, watches⟩ := (continue_reaches_test 30 t false).2 _ _ _ _ _ _ _ m m' m'' run next
  exact ⟨m, t, done, p, m', stable, header, m'', first, run, next, watches⟩

set_option maxRecDepth 20000 in
/-- A loop whose condition does not hold drops the state of the `continue` before it: the variable
keeps its value from before the loop. -/
theorem continue_is_dropped :
  ∃ o, analyze {} true "x = 0; while (u) { if (v) { x = 1; continue; } while (0) {} }" = .ok o ∧
    globalValue? o.machine "x" = some (.prim (.num (.ofNat 0)))
  := by
  have found : (analyze {} true
      "x = 0; while (u) { if (v) { x = 1; continue; } while (0) {} }").toOption.any
      (fun o => decide (globalValue? o.machine "x" = some (.prim (.num (.ofNat 0))))) = true := by
    decide +kernel
  obtain ⟨o, analyzed, value⟩ := except_any_eq_true found
  exact ⟨o, analyzed, of_decide_eq_true value⟩

end ScriptLens.Analysis
