import ScriptLens.Proofs.While.Expression
import ScriptLens.Proofs.While.Guard

/-!
# Loops of the while-language

A guarded loop is sound if its condition and its body are.  The states in which the condition is
evaluated, taken together, are an invariant of the loop: they stand for the store in which the loop
begins, and with a store for the one after an iteration.
-/

open ScriptLens.State List

namespace ScriptLens

namespace Notes

variable {s s' : Notes} {t u : Tree}

theorem valueOf_eraseAt (s : Notes) (i : Nat) (u : Tree) :
  (s.eraseAt i .staticValue).valueOf u = s.valueOf u ∨
    (s.eraseAt i .staticValue).valueOf u = none
  := by
  have same : (s.eraseAt i .staticValue).ids = s.ids := rfl
  rw [valueOf, valueOf, same]
  cases s.ids[u.ref]? with
  | none =>
    left
    rfl
  | some j =>
    rw [Option.bind_some, Option.bind_some, getAt_eraseAt]
    split
    · right
      rfl
    · left
      rfl

theorem valueOf_ne_none (keeps : s.keepsValues s' = true)
    (ids : ∀ (r : Nat) i, s.ids[r]? = some i → s'.ids[r]? = some i) {v : Value}
    (value : s.valueOf t = some v) : s'.valueOf t ≠ none
  := by
  obtain ⟨i, known, found⟩ := Option.bind_eq_some_iff.1 value
  rw [valueOf, ids _ i known, Option.bind_some]
  cases entry : s.table[i]? with
  | none =>
    rw [getAt, entry] at found
    cases found
  | some l =>
    have member := Std.TreeMap.mem_toList_iff_getElem?_eq_some.2 entry
    have kept := all_eq_true.1 keeps (i, l) member
    rw [found, Option.isNone_some, Bool.false_or] at kept
    apply Option.isSome_iff_ne_none.1 kept

end Notes

namespace Machine

variable {m m' m'' : Machine}

theorem Erases.quiet (erases : m.Erases m') (keeps : m.notes.keepsValues m'.notes = true) :
  m.Quiet m'
  := by
  refine ⟨erases, fun well t => ?_⟩
  rcases erases.kept well t with same | lost
  · apply same
  · cases value : m.notes.valueOf t with
    | none => apply lost
    | some v => apply (Notes.valueOf_ne_none keeps erases.ids value lost).elim

end Machine

namespace Analysis

instance : Chained Machine.Erases
  := ⟨fun m => (Machine.Quiet.refl m).toErases, .trans⟩

instance : Marking (keeping Machine.Erases)
  where
  reads t _ := ⟨.step fun _ => ⟨_, _, rfl, (quiet_nodeId (t := t) rfl).1.toErases⟩⟩
  writes t n free w := ⟨.step fun _ =>
    ⟨_, _, rfl, (quiet_setNote (t := t) (a := w) (free.other (by decide)) rfl).toErases⟩⟩

instance : Comparing (keeping Machine.Erases) := by
  constructor
  intro a b
  have erase : Keeps Machine.Erases (do
      let i ← nodeId a
      modify fun m => { m with notes := m.notes.eraseAt i .staticValue } : Analysis Unit) := by
    refine .step fun m => ⟨_, _, rfl, ?_⟩
    obtain ⟨quiet, known⟩ := quiet_nodeId (t := a) (m := m) rfl
    apply quiet.toErases.trans
    refine ⟨rfl, rfl, rfl, rfl, rfl, rfl, fun _ _ => id, fun well => well.insert known _, ?_⟩
    intro _ t
    apply Notes.valueOf_eraseAt
  unfold compareValues
  infer_instance

end Analysis

open While Analysis

/-- From one machine to another, the runs that are given are followed: the values of the expressions
on the way are noted, and the store at the end is covered or, if it is reached by `break`, among
those in which the loop is left. -/
structure Machine.Follows (E : Tree → Prop) (R : Store → List Event → Bool → Store → Prop)
    (m m' : Machine) : Prop where
  leads : m.Leads E m'
  covers : ∀ ρ es b ρ', m.state.Describes ρ → R ρ es b ρ' →
    (∀ e ∈ es, m'.Noted e) ∧ if b then m'.session.broken.Describes ρ' else m'.state.Describes ρ'

def Analysis.Following (E : Tree → Prop) (x : Analysis Unit)
    (R : Store → List Event → Bool → Store → Prop) : Prop :=
  ∀ m m', m.Tame E → x m = .ok () m' → m.Follows E R m'

theorem Machine.Follows.between {E : Tree → Prop} {R : Store → List Event → Bool → Store → Prop}
    {m m1 m2 m' : Machine}
    (tame : m.Tame E) (before : m.Quiet m1) (follows : m1.Follows E R m2) (after : m2.Quiet m') :
  m.Follows E R m'
  := by
  refine ⟨(before.leads tame).trans (follows.leads.trans (after.leads follows.leads.tame)), ?_⟩
  intro ρ es b ρ' describes runs
  rw [← before.state] at describes
  obtain ⟨noted, ends⟩ := follows.covers ρ es b ρ' describes runs
  rw [after.state, after.broken]
  refine ⟨?_, ends⟩
  intro e member
  apply after.noted follows.leads.tame.notes (noted e member)

theorem State.describes_of_covers {s t : State} {ρ : Store} (tameS : s.Tame) (tameT : t.Tame)
    (covers : s.covers t = true) (describes : t.Describes ρ) : s.Describes ρ
  := by
  rw [State.covers, Bool.and_eq_true, Bool.not_eq_true'] at covers
  obtain ⟨notBottom, allVariables⟩ := covers
  obtain ⟨o, foundO, scopeO⟩ := (tameS.shape notBottom).scope
  obtain ⟨p, foundP, scopeP⟩ := (tameT.shape describes.1).scope
  rw [foundO, foundP] at allVariables
  use notBottom
  intro o' again
  cases foundO.symm.trans again
  intro x v free found
  have checked := all_eq_true.1 allVariables _ (scopeO.distinct.get?_text.1 found)
  rcases Bool.or_eq_true_iff.1 checked with isTop | same
  · left
    apply Value.eq_top isTop
  · cases foundW : p.get? (.text x) with
    | none =>
      rw [foundW] at same
      cases same
    | some w =>
      rw [foundW] at same
      apply (scopeO.plain free found).holds_of_equal (scopeP.plain free foundW) same
      apply describes.2 p foundP x w free foundW

namespace Analysis

variable {E : Tree → Prop} {m m' : Machine} {p q : LoopProgress}

variable {s header outer : State} {stable done : Bool} {c : Value} {next : Option (Value × State)}
    {k : Value.Kind} {parts : LoopParts} {x : Analysis Value}
    {R : Store → List Event → Bool → Store → Prop}

/-- Absorbing a state loses no store. -/
theorem absorb_leads {u : State} (tame : m.Tame E) (isTame : s.Tame) (run : absorb s m = .ok u m') :
  m.Leads E m' ∧ u.Tame ∧ (∀ ρ, m.state.Describes ρ → u.Describes ρ) ∧
    ∀ ρ, m'.state.Describes ρ ↔ u.Describes ρ
  := by
  rw [absorb, state_bind] at run
  obtain ⟨joined, m1, merged, run⟩ := bind_eq_ok.1 run
  obtain ⟨leads1, -, joins⟩ := join_leads tame isTame tame.state merged
  rw [state_bind] at run
  obtain ⟨copy, n, result, run⟩ := lift_domain_bind_eq_ok.1 run
  obtain ⟨mirrors, rfl⟩ := assign_mirrors leads1.tame.state.heap joins.tame result
  cases run
  have leads2 := leads_nextId leads1.tame (Nat.le_refl _)
  have leads3 := leads_setState leads2.tame mirrors.tame
  exact ⟨leads1.trans (leads2.trans leads3), joins.tame,
    fun ρ describes => joins.describes ρ (.inr describes), mirrors.describes⟩

/-- A head that is merged covers what comes to it. -/
theorem mergeHead_spec (tame : m.Tame E) (tameP : p.header.Tame)
    (run : mergeHead p m = .ok (stable, header) m') :
  m.Leads E m' ∧ header.Tame ∧ (∀ ρ, m.state.Describes ρ → m'.state.Describes ρ) ∧
    (∀ ρ, header.Describes ρ → m'.state.Describes ρ) ∧
    (stable = true → ∀ ρ, m.state.Describes ρ → p.header.Describes ρ)
  := by
  obtain ⟨_, m1, collected, run⟩ := bind_eq_ok.1 run
  obtain ⟨leads1, mirrors1⟩ := collect_leads tame collected
  obtain ⟨previous, m2, cloned, run⟩ := bind_eq_ok.1 run
  obtain ⟨leads2, same2, copy⟩ := clone_leads leads1.tame tameP cloned
  obtain ⟨joined, m3, absorbed, run⟩ := bind_eq_ok.1 run
  obtain ⟨leads3, tameJ, grows, same3⟩ := absorb_leads leads2.tame tameP absorbed
  rw [same2] at grows
  obtain ⟨unified, m4, matched, run⟩ := bind_eq_ok.1 run
  obtain ⟨leads4, same4, mirrors4⟩ := unify_leads leads3.tame copy.tame tameJ matched
  obtain ⟨equal, isEqual, last⟩ := lift_except_bind_eq_ok.1 run
  obtain ⟨pair, rfl⟩ := EStateM.Result.ok.inj last
  obtain ⟨rfl, rfl⟩ := Prod.mk.inj pair
  have grows : ∀ ρ, m.state.Describes ρ → joined.Describes ρ :=
    fun ρ describes => grows ρ ((mirrors1.describes ρ).2 describes)
  rw [same4]
  refine ⟨leads1.trans (leads2.trans (leads3.trans leads4)), tameJ, ?_, ?_, ?_⟩
  · intro ρ describes
    apply (same3 ρ).2 (grows ρ describes)
  · intro ρ describes
    apply (same3 ρ).2 describes
  · rintro rfl ρ describes
    have before := equal_describes mirrors4.tame tameJ isEqual (grows ρ describes)
    apply (copy.describes ρ).1
    apply (mirrors4.describes ρ).1 before

/-- So does every head; nothing new comes to a stable one. -/
theorem loopHead_spec (tame : m.Tame E) (tameP : p.header.Tame)
    (run : loopHead p m = .ok (stable, header) m') :
  m.Leads E m' ∧ header.Tame ∧ (∀ ρ, m.state.Describes ρ → m'.state.Describes ρ) ∧
    (∀ ρ, header.Describes ρ → m'.state.Describes ρ ∨ p.header.Describes ρ) ∧
    (stable = true → ∀ ρ, m.state.Describes ρ → p.header.Describes ρ)
  := by
  rw [loopHead] at run
  split at run
  · rename_i unrolling
    split at run
    · rename_i round
      simp only [state_bind] at run
      obtain ⟨equal, isEqual, after⟩ := lift_except_bind_eq_ok.1 run
      cases equal with
      | true =>
        cases after
        refine ⟨tame.leads, tameP, fun _ => id, fun _ => .inr, fun _ ρ describes => ?_⟩
        apply equal_describes tameP tame.state isEqual describes
      | false =>
        simp only [Bool.false_eq_true, if_false, state_bind] at after
        obtain ⟨s, m2, cloned, ⟨⟩⟩ := bind_eq_ok.1 after
        obtain ⟨leads, same, mirrors⟩ := clone_leads tame tame.state cloned
        rw [same]
        refine ⟨leads, mirrors.tame, fun _ => id, fun ρ describes => ?_, nofun⟩
        left
        apply (mirrors.describes ρ).1 describes
    · cases run
      exact ⟨tame.leads, tameP, fun _ => id, fun _ => .inr, nofun⟩
  · rw [options_bind] at run
    cases limit : m.setting.options.maxIterations with
    | none =>
      rw [limit] at run
      cases run
    | some n =>
      rw [limit] at run
      dsimp only at run
      split at run
      · cases run
      · obtain ⟨leads, tameH, grows, head, stops⟩ := mergeHead_spec tame tameP run
        exact ⟨leads, tameH, grows, fun ρ describes => .inl (head ρ describes), stops⟩

instance : Keeps Machine.Quiet markIteration := by
  unfold markIteration
  refine .after fun _ => ?_
  split <;> infer_instance

theorem limitIterations_spec (run : limitIterations p m = .ok q m') :
  m.Quiet m' ∧ q.header = p.header ∧ q.lastTrue = p.lastTrue
  := by
  rw [limitIterations, options_bind] at run
  cases limit : m.setting.options.maxIterations with
  | none =>
    rw [limit] at run
    cases run
    exact ⟨Machine.Quiet.refl m, rfl, rfl⟩
  | some n =>
    rw [limit] at run
    dsimp only at run
    split at run
    · split at run
      · cases run
        exact ⟨.aside, rfl, rfl⟩
      · cases run
        exact ⟨Machine.Quiet.refl m, rfl, rfl⟩
    · cases run
      exact ⟨Machine.Quiet.refl m, rfl, rfl⟩

/-- A loop goes on unless its test is false. -/
theorem decideLoop_spec (run : decideLoop p c outer m = .ok (q, next) m') :
  m.Quiet m' ∧ q.header = p.header ∧ q.lastTrue = p.lastTrue ∧
    ((next = some (c, outer) ∧ (c.isTop = false → c.truth = .ok true)) ∨
      (next = none ∧ c.truth = .ok false))
  := by
  obtain ⟨_, m1, consumed, run⟩ := bind_eq_ok.1 run
  obtain ⟨p1, m2, limited, run⟩ := bind_eq_ok.1 run
  obtain ⟨quiet, header, lastTrue⟩ := limitIterations_spec limited
  have quiet := (quiet_run consumed).trans quiet
  cases isTop : c.isTop with
  | true =>
    rw [isTop] at run
    cases run
    exact ⟨quiet, header, lastTrue, .inl ⟨rfl, nofun⟩⟩
  | false =>
    rw [isTop] at run
    obtain ⟨truth, isTruth, after⟩ := lift_except_bind_eq_ok.1 run
    cases truth with
    | true =>
      cases after
      exact ⟨quiet, header, lastTrue, .inl ⟨rfl, fun _ => isTruth⟩⟩
    | false =>
      cases after
      exact ⟨quiet, header, lastTrue, .inr ⟨rfl, isTruth⟩⟩

theorem leads_continued (tame : m.Tame E) (bottom : s.isBottom = true) :
  m.Leads E { m with session := { m.session with continued := s } }
  := ⟨⟨tame.options, tame.state, tame.broken, bottom, tame.returned, tame.fresh, tame.notes,
    tame.kinds⟩, fun _ _ noted => noted, fun _ describes => describes⟩

/-- The condition of a loop is evaluated soundly, and not at all where the loop is not reached. -/
structure Testing (E : Tree → Prop) (k : Value.Kind) (parts : LoopParts) (x : Analysis Value)
    (T : Store → Concrete → List Event → Store → Prop) : Prop where
  test : parts.test = some x
  assumed : parts.assumed.isTop = false
  changing : Changing E k x T
  skips : ∀ m v m', m.state.isBottom = true → x m = .ok v m' → m.Quiet m'

/-- The start of an iteration, where `head` is the state in which the condition is evaluated. -/
structure Tested (T : Store → Concrete → List Event → Store → Prop) (p q : LoopProgress)
    (next : Option (Value × State)) (m m' : Machine) (head : State) : Prop where
  grows : ∀ ρ, m.state.Describes ρ → head.Describes ρ
  header : ∀ ρ, q.header.Describes ρ → head.Describes ρ ∨ p.header.Describes ρ
  covers : ∀ ρ c es ρ', head.Describes ρ → T ρ c es ρ' →
    m'.state.Describes ρ' ∧ ∀ e ∈ es, m'.Noted e
  leaves : ∀ ρ c es ρ', head.Describes ρ → T ρ c es ρ' → next = none →
    c.toBool = false ∧ q.lastTrue = false
  goesOn : ∀ ρ c es ρ' v s, head.Describes ρ → T ρ c es ρ' → next = some (v, s) →
    v.isTop = false → c.toBool = true

section

variable {T : Store → Concrete → List Event → Store → Prop}

/-- The start of an iteration: the loop is stable, or its condition is evaluated. -/
theorem loopTest_spec (testing : Testing E k parts x T) (tame : m.Tame E) (tameP : p.header.Tame)
    (run : loopTest parts p m = .ok (q, next) m') :
  m.Leads E m' ∧ q.header.Tame ∧ (∀ v s, next = some (v, s) → s.isBottom = true) ∧
    ((next = none ∧ ∀ ρ, m.state.Describes ρ → p.header.Describes ρ) ∨
      ∃ head, Tested T p q next m m' head)
  := by
  rw [loopTest, testing.test, testing.assumed] at run
  obtain ⟨_, m1, marked, run⟩ := bind_eq_ok.1 run
  have quiet1 := quiet_run marked
  have leads1 := quiet1.leads tame
  obtain ⟨⟨stable, header⟩, m2, headed, run⟩ := bind_eq_ok.1 run
  obtain ⟨leads2, tameH, grows, heads, stops⟩ := loopHead_spec leads1.tame tameP headed
  rw [quiet1.state] at grows stops
  cases stable with
  | true =>
    simp only [if_true] at run
    cases run
    refine ⟨leads1.trans leads2, tameH, ?_, .inl ⟨rfl, stops rfl⟩⟩
    intro v s impossible
    cases impossible
  | false =>
    simp only [Bool.false_eq_true, if_false, session_bind, changeSession_bind] at run
    have leads3 := leads_continued leads2.tame (s := .bottom) rfl
    have sameState : Machine.state { m2 with session := { m2.session with continued := .bottom } } =
      m2.state := rfl
    generalize { m2 with session := { m2.session with continued := .bottom } } = n
      at run leads3 sameState
    rw [← sameState] at grows heads
    obtain ⟨c, m3, tested, run⟩ := bind_eq_ok.1 run
    simp only [Bool.not_false, if_true, isBottom_bind] at run
    have before := leads1.trans (leads2.trans leads3)
    cases bottom : n.state.isBottom with
    | true =>
      have nothing : ∀ ρ, ¬ n.state.Describes ρ := fun ρ => not_describes bottom
      have quiet := testing.skips _ c m3 bottom tested
      rw [quiet.state, if_pos bottom] at run
      cases run
      refine ⟨before.trans (quiet.leads before.tame), tameH, ?_,
        .inr ⟨n.state, grows, heads, ?_, ?_, ?_⟩⟩
      · intro v s impossible
        cases impossible
      · intro ρ _ _ _ impossible
        apply (nothing ρ impossible).elim
      · intro ρ _ _ _ impossible
        apply (nothing ρ impossible).elim
      · intro ρ _ _ _ _ _ impossible
        apply (nothing ρ impossible).elim
    | false =>
      obtain ⟨leads4, stays, isIn, covers⟩ := testing.changing _ c m3 before.tame bottom tested
      rw [stays] at run
      obtain ⟨quiet, sameHeader, sameLast, decided⟩ := decideLoop_spec run
      refine ⟨before.trans (leads4.trans (quiet.leads leads4.tame)), sameHeader ▸ tameH, ?_,
        .inr ⟨n.state, grows, sameHeader ▸ heads, ?_, ?_, ?_⟩⟩
      · intro v s isNext
        rcases decided with ⟨rfl, -⟩ | ⟨rfl, -⟩
        · cases isNext
          apply leads2.tame.continued
        · cases isNext
      · intro ρ d es ρ' describes evaluates
        obtain ⟨-, still, noted⟩ := covers ρ d es ρ' describes evaluates
        rw [quiet.state]
        use still
        intro e member
        apply quiet.noted leads4.tame.notes (noted e member)
      · intro ρ d es ρ' describes evaluates isNext
        obtain ⟨isCovered, -, -⟩ := covers ρ d es ρ' describes evaluates
        rcases decided with ⟨rfl, -⟩ | ⟨-, truth⟩
        · cases isNext
        · exact ⟨isIn.toBool_of_truth isCovered truth, sameLast⟩
      · intro ρ d es ρ' v s describes evaluates isNext known
        obtain ⟨isCovered, -, -⟩ := covers ρ d es ρ' describes evaluates
        rcases decided with ⟨rfl, truth⟩ | ⟨rfl, -⟩
        · cases isNext
          apply isIn.toBool_of_truth isCovered (truth known)
        · cases isNext

end

instance : Keeps Machine.Quiet countIteration := by
  refine .after fun _ => .change fun m => ?_
  obtain ⟨_, _, _, _, _, _, _, _, _, session⟩ := m
  obtain ⟨_, _, _, _, _, _, _, loops, _, _, _, _, _, _⟩ := session
  cases loops <;> exact .aside

theorem endIteration_spec (run : endIteration p c m = .ok (done, q) m') :
  m.Quiet m' ∧ q.header = p.header ∧ (done = true → m.state.isBottom = true)
  := by
  have goesOn : ∀ p' : LoopProgress, p'.header = p.header →
      (do countIteration; return (false, p') : Analysis (Bool × LoopProgress)) m = .ok (done, q) m' →
      m.Quiet m' ∧ q.header = p.header ∧ (done = true → m.state.isBottom = true) := by
    intro p' header run
    obtain ⟨_, m1, counted, run⟩ := bind_eq_ok.1 run
    cases run
    exact ⟨quiet_run counted, header, nofun⟩
  rw [endIteration, session_bind] at run
  cases leaves : m.session.broken.isBottom with
  | true =>
    rw [leaves] at run
    apply goesOn _ _ run
    cases c.isTop <;> rfl
  | false =>
    rw [leaves] at run
    simp only [Bool.not_false, if_true, isBottom_bind] at run
    cases bottom : m.state.isBottom with
    | true =>
      rw [bottom] at run
      cases run
      exact ⟨Machine.Quiet.refl m, rfl, fun _ => rfl⟩
    | false =>
      rw [bottom] at run
      rw [bottom] at goesOn
      apply goesOn _ _ run
      cases c.isTop <;> rfl

theorem loopBody_spec (body : Following E (do parts.body; parts.update) R) (tame : m.Tame E)
    (bottom : outer.isBottom = true)
    (run : loopBody parts p c outer m = .ok (done, q) m') :
  m.Leads E m' ∧ q.header = p.header ∧ ∀ ρ es b ρ', m.state.Describes ρ → R ρ es b ρ' →
    (∀ e ∈ es, m'.Noted e) ∧
    if b then m'.session.broken.Describes ρ' else done = false ∧ m'.state.Describes ρ'
  := by
  obtain ⟨_, m0, executed, run⟩ := bind_eq_ok.1 run
  obtain ⟨_, m1, updated, run⟩ := bind_eq_ok.1 run
  obtain ⟨leads1, follows⟩ := body m m1 tame (bind_eq_ok.2 ⟨_, m0, executed, updated⟩)
  rw [state_bind, session_bind] at run
  obtain ⟨s, m2, joined, run⟩ := bind_eq_ok.1 run
  obtain ⟨rfl, rfl⟩ := join_bottom leads1.tame.continued joined
  simp only [setState_bind, changeSession_bind] at run
  have leads2 := leads_continued leads1.tame bottom
  obtain ⟨quiet, sameHeader, isDone⟩ := endIteration_spec run
  refine ⟨leads1.trans (leads2.trans (quiet.leads leads2.tame)), sameHeader, ?_⟩
  intro ρ es b ρ' describes runs
  obtain ⟨noted, ends⟩ := follows ρ es b ρ' describes runs
  constructor
  · intro e member
    apply quiet.noted leads2.tame.notes (noted e member)
  · cases b with
    | true =>
      rw [if_pos rfl, quiet.broken]
      apply ends
    | false =>
      rw [if_neg Bool.false_ne_true, quiet.state]
      refine ⟨?_, ends⟩
      cases done with
      | false => rfl
      | true => apply (not_describes (isDone rfl) ends).elim

/-- What the analysis of a loop, when it is over, says on a store in which the condition is
evaluated: the values of the condition and of the body are noted; where the condition does not hold
the store is described by the last state or by one that was watched; and after an iteration the store
is among `K`, or where the loop was left. -/
structure Steps (T : Store → Concrete → List Event → Store → Prop)
    (R : Store → List Event → Bool → Store → Prop) (m : Machine) (p : LoopProgress)
    (seen : List State) (K : Store → Prop) (ρ : Store) : Prop where
  test : ∀ c es ρ1, T ρ c es ρ1 → ∀ e ∈ es, m.Noted e
  ends : ∀ c es ρ1, T ρ c es ρ1 → c.toBool = false →
    (p.lastTrue = false ∧ m.state.Describes ρ1) ∨ ∃ s ∈ seen, s.Describes ρ1
  body : ∀ c es ρ1, T ρ c es ρ1 → c.toBool = true → ∀ fs b ρ', R ρ1 fs b ρ' →
    (∀ e ∈ fs, m.Noted e) ∧ if b then m.session.broken.Describes ρ' else K ρ'

section

variable {k : Value.Kind} {parts : LoopParts} {x : Analysis Value}
  {T : Store → Concrete → List Event → Store → Prop} {R : Store → List Event → Bool → Store → Prop}
  {seen seen' : List State}

theorem Steps.mono {K K' : Store → Prop} {ρ : Store} (steps : Steps T R m p seen K ρ)
    (le : ∀ ρ, K ρ → K' ρ) : Steps T R m p seen K' ρ
  := by
  refine ⟨steps.test, steps.ends, ?_⟩
  intro c es ρ1 evaluates holds fs b ρ' runs
  obtain ⟨noted, after⟩ := steps.body c es ρ1 evaluates holds fs b ρ' runs
  use noted
  cases b with
  | true => apply after
  | false => apply le ρ' after

/-- The steps of an iteration, where `m1` is the machine after the condition, `m2` the one after the
body and `m'` the one after the loop. -/
theorem Tested.steps {m1 m2 : Machine} {p1 : LoopProgress} {v : Value} {outer s : State} {done : Bool}
    {K : Store → Prop} {ρ : Store} (tested : Tested T p p1 (some (v, outer)) m m1 s)
    (insideT : ∀ ρ c es ρ', T ρ c es ρ' → ∀ e ∈ es, E e.1)
    (insideR : ∀ ρ es b ρ', R ρ es b ρ' → ∀ e ∈ es, E e.1)
    (follows : ∀ ρ es b ρ', m1.state.Describes ρ → R ρ es b ρ' → (∀ e ∈ es, m2.Noted e) ∧
      if b then m2.session.broken.Describes ρ' else done = false ∧ m2.state.Describes ρ')
    (leads1 : m1.Leads E m2) (leads2 : m2.Leads E m') (watched : v.isTop = true → m1.state ∈ seen)
    (next : ∀ ρ, done = false → m2.state.Describes ρ → K ρ) (describes : s.Describes ρ) :
  Steps T R m' q seen K ρ
  := by
  constructor
  · intro c es ρ1 evaluates e member
    have inside := insideT ρ c es ρ1 evaluates e member
    apply (leads1.trans leads2).noted e inside
    apply (tested.covers ρ c es ρ1 describes evaluates).2 e member
  · intro c es ρ1 evaluates fails
    right
    refine ⟨m1.state, ?_, (tested.covers ρ c es ρ1 describes evaluates).1⟩
    apply watched
    by_contra known
    have holds := tested.goesOn ρ c es ρ1 v outer describes evaluates rfl (Bool.eq_false_iff.2 known)
    rw [fails] at holds
    cases holds
  · intro c es ρ1 evaluates _ fs b ρ' runs
    obtain ⟨after1, -⟩ := tested.covers ρ c es ρ1 describes evaluates
    obtain ⟨noted, after⟩ := follows ρ1 fs b ρ' after1 runs
    constructor
    · intro e member
      apply leads2.noted e (insideR ρ1 fs b ρ' runs e member) (noted e member)
    · cases b with
      | true => apply leads2.broken ρ' after
      | false => apply next ρ' after.1 after.2

/-- The states in which the condition of a loop is evaluated stand for an invariant of the loop.
`J` is what they stand for in the iterations so far. -/
theorem watchedWithin_steps (testing : Testing E k parts x T)
    (body : Following E (do parts.body; parts.update) R) (insideT : ∀ ρ c es ρ', T ρ c es ρ' → ∀ e ∈ es, E e.1)
    (insideR : ∀ ρ es b ρ', R ρ es b ρ' → ∀ e ∈ es, E e.1) (n : Nat) {J : Store → Prop}
    (tame : m.Tame E) (tameP : p.header.Tame) (head : ∀ ρ, p.header.Describes ρ → J ρ)
    (tameSeen : ∀ s ∈ seen, s.Tame) (run : watchedWithin parts n p seen m = .ok (q, seen') m') :
  m.Leads E m' ∧ (∀ s ∈ seen', s.Tame) ∧ seen ⊆ seen' ∧
    ∃ I : Store → Prop, (∀ ρ, m.state.Describes ρ → I ρ ∨ J ρ) ∧
      ∀ ρ, I ρ → Steps T R m' q seen' (fun ρ => I ρ ∨ J ρ) ρ
  := by
  induction n generalizing m p seen J with
  | zero =>
    rw [watchedWithin] at run
    cases run
  | succ n ih =>
    rw [watchedWithin] at run
    obtain ⟨⟨p1, next⟩, m1, tested, run⟩ := bind_eq_ok.1 run
    obtain ⟨leads1, tameH, outerBottom, stable | ⟨s, isTested⟩⟩ :=
      loopTest_spec testing tame tameP tested
    · obtain ⟨rfl, again⟩ := stable
      cases run
      refine ⟨leads1, tameSeen, Subset.refl _, fun _ => False, ?_, fun _ => False.elim⟩
      intro ρ describes
      right
      apply head ρ (again ρ describes)
    cases next with
    | none =>
      cases run
      refine ⟨leads1, tameSeen, Subset.refl _, s.Describes, ?_, ?_⟩
      · intro ρ describes
        left
        apply isTested.grows ρ describes
      · intro ρ describes
        constructor
        · intro c es ρ1 evaluates
          apply (isTested.covers ρ c es ρ1 describes evaluates).2
        · intro c es ρ1 evaluates _
          left
          use (isTested.leaves ρ c es ρ1 describes evaluates rfl).2
          apply (isTested.covers ρ c es ρ1 describes evaluates).1
        · intro c es ρ1 evaluates holds
          have fails := (isTested.leaves ρ c es ρ1 describes evaluates rfl).1
          rw [holds] at fails
          cases fails
    | some next =>
      obtain ⟨v, outer⟩ := next
      simp only [state_bind] at run
      obtain ⟨⟨done, p2⟩, m2, stepped, run⟩ := bind_eq_ok.1 run
      obtain ⟨leads2, sameHeader, follows⟩ := loopBody_spec body leads1.tame
        (outerBottom v outer rfl) stepped
      generalize isSeen : (if v.isTop then m1.state :: seen else seen) = seen1 at run
      have watched : v.isTop = true → m1.state ∈ seen1 := by
        intro isTop
        rw [← isSeen, if_pos isTop]
        apply mem_cons_self
      have keeps : seen ⊆ seen1 := by
        rw [← isSeen]
        split
        · apply subset_cons_self
        · apply Subset.refl
      have tameSeen1 : ∀ s ∈ seen1, s.Tame := by
        rw [← isSeen]
        split
        · apply forall_mem_cons.2 ⟨leads1.tame.state, tameSeen⟩
        · apply tameSeen
      cases done with
      | true =>
        cases run
        refine ⟨leads1.trans leads2, tameSeen1, keeps, s.Describes, ?_, ?_⟩
        · intro ρ describes
          left
          apply isTested.grows ρ describes
        · intro ρ describes
          apply isTested.steps insideT insideR follows leads2 leads2.tame.leads watched _ describes
          intro _ impossible
          cases impossible
      | false =>
        have headers : ∀ ρ, p2.header.Describes ρ → J ρ ∨ s.Describes ρ := by
          intro ρ describes
          rw [sameHeader] at describes
          rcases isTested.header ρ describes with new | old
          · right
            apply new
          · left
            apply head ρ old
        obtain ⟨leads3, tameSeen2, keeps2, I, begins, invariant⟩ :=
          ih leads2.tame (sameHeader ▸ tameH) headers tameSeen1 run
        refine ⟨leads1.trans (leads2.trans leads3), tameSeen2, Subset.trans keeps keeps2,
          fun ρ => I ρ ∨ s.Describes ρ, ?_, ?_⟩
        · intro ρ describes
          left
          right
          apply isTested.grows ρ describes
        · have regroup : ∀ ρ, I ρ ∨ J ρ ∨ s.Describes ρ → (I ρ ∨ s.Describes ρ) ∨ J ρ := by
            intro ρ
            tauto
          rintro ρ (later | now)
          · apply (invariant ρ later).mono regroup
          · apply isTested.steps insideT insideR follows leads2 leads3 _ _ now
            · intro isTop
              apply keeps2 (watched isTop)
            · intro ρ' _ after
              apply regroup ρ' (begins ρ' after)

/-! ### The whole loop -/

theorem Steps.iterates {I : Store → Prop} {answer : State} {ρ ρ' : Store} {es : List Event}
    (invariant : ∀ ρ, I ρ → Steps T R m p seen I ρ)
    (ends : ∀ ρ, (p.lastTrue = false ∧ m.state.Describes ρ) ∨ m.session.broken.Describes ρ →
      answer.Describes ρ)
    (covers : ∀ s ∈ seen, ∀ ρ, s.Describes ρ → answer.Describes ρ)
    (begins : I ρ) (iterates : Iterates T R ρ es ρ') : (∀ e ∈ es, m.Noted e) ∧ answer.Describes ρ'
  := by
  induction iterates with
  | @done ρ ρ1 v es test stops =>
    have steps := invariant ρ begins
    refine ⟨steps.test v es ρ1 test, ?_⟩
    rcases steps.ends v es ρ1 test stops with last | ⟨s, member, describes⟩
    · apply ends ρ1 (.inl last)
    · apply covers s member ρ1 describes
  | @leave ρ ρ1 ρ2 v es fs test holds run =>
    have steps := invariant ρ begins
    obtain ⟨noted, broken⟩ := steps.body v es ρ1 test holds fs true ρ2 run
    refine ⟨forall_mem_append.2 ⟨steps.test v es ρ1 test, noted⟩, ends ρ2 (.inr broken)⟩
  | @step ρ ρ1 ρ2 ρ3 v es fs gs test holds run _ ih =>
    have steps := invariant ρ begins
    obtain ⟨noted, again⟩ := steps.body v es ρ1 test holds fs false ρ2 run
    obtain ⟨notedRest, described⟩ := ih again
    have notedLater := forall_mem_append.2 ⟨noted, notedRest⟩
    exact ⟨forall_mem_append.2 ⟨steps.test v es ρ1 test, notedLater⟩, described⟩

theorem Iterates.inside {ρ ρ' : Store} {es : List Event}
    (insideT : ∀ ρ c es ρ', T ρ c es ρ' → ∀ e ∈ es, E e.1)
    (insideR : ∀ ρ es b ρ', R ρ es b ρ' → ∀ e ∈ es, E e.1) (iterates : Iterates T R ρ es ρ') :
  ∀ e ∈ es, E e.1
  := by
  induction iterates with
  | done test => exact insideT _ _ _ _ test
  | leave test _ run =>
    exact forall_mem_append.2 ⟨insideT _ _ _ _ test, insideR _ _ _ _ run⟩
  | step test _ run _ ih =>
    have later := forall_mem_append.2 ⟨insideR _ _ _ _ run, ih⟩
    exact forall_mem_append.2 ⟨insideT _ _ _ _ test, later⟩

variable {t : Tree}

theorem require_bind_eq_ok {α : Type} {b : Bool} {f : Unit → Analysis α} {a : α}
    (run : (require b >>= f) m = .ok a m') : b = true ∧ f () m = .ok a m'
  := by
  cases b with
  | true => exact ⟨rfl, run⟩
  | false => cases run

theorem enterLoop_spec (tame : m.Tame E) (run : enterLoop t (pure ()) m = .ok () m') :
  m'.Tame E ∧ m'.state = m.state ∧ ∀ e, m.Noted e → m'.Noted e
  := by
  rw [enterLoop, changeSession_bind, pure_bind] at run
  obtain ⟨i, m1, numbered, run⟩ := bind_eq_ok.1 run
  cases run
  obtain ⟨quiet, -⟩ := quiet_nodeId numbered
  have begins : Machine.Tame E { m with session :=
      { m.session with trace := some #[], returned := .bottom, broken := .bottom } } :=
    ⟨tame.options, tame.state, tame_bottom, tame.continued, rfl, tame.fresh, tame.notes,
      tame.kinds⟩
  have tame1 := quiet.tame begins
  refine ⟨⟨tame1.options, tame1.state, tame1.broken, tame1.continued, tame1.returned, tame1.fresh,
    tame1.notes, tame1.kinds⟩, quiet.state, ?_⟩
  intro e noted
  apply quiet.noted tame.notes noted

theorem joinBroken_spec (tame : m.Tame E) (run : joinBroken p m = .ok () m') :
  m.Leads E m' ∧
    ∀ ρ, (p.lastTrue = false ∧ m.state.Describes ρ) ∨ m.session.broken.Describes ρ →
      m'.state.Describes ρ
  := by
  have joins : ∀ n : Machine, n.Tame E →
      (do setState (← (← state).join (← session).broken) : Analysis Unit) n = .ok () m' →
      n.Leads E m' ∧
        ∀ ρ, n.state.Describes ρ ∨ n.session.broken.Describes ρ → m'.state.Describes ρ := by
    intro n tame run
    rw [state_bind, session_bind] at run
    obtain ⟨s, m1, joined, run⟩ := bind_eq_ok.1 run
    cases run
    obtain ⟨leads, -, joins⟩ := join_leads tame tame.state tame.broken joined
    exact ⟨leads.trans (leads_setState leads.tame joins.tame), joins.describes⟩
  rw [joinBroken] at run
  cases lastTrue : p.lastTrue with
  | true =>
    rw [lastTrue] at run
    have leads := leads_setState tame (tame_toBottom m.state)
    obtain ⟨leads', describes⟩ := joins _ leads.tame run
    refine ⟨leads.trans leads', ?_⟩
    rintro ρ (⟨impossible, -⟩ | broken)
    · cases impossible
    · apply describes ρ (.inr broken)
  | false =>
    rw [lastTrue] at run
    obtain ⟨leads, describes⟩ := joins m tame run
    refine ⟨leads, ?_⟩
    rintro ρ (⟨-, last⟩ | broken)
    · apply describes ρ (.inl last)
    · apply describes ρ (.inr broken)

theorem leaveLoop_spec {saved : Session} (tame : m.Tame E) (broken : saved.broken.Tame)
    (returned : saved.returned.isBottom = true) (run : leaveLoop saved m = .ok () m') :
  m'.Tame E ∧ m'.state = m.state ∧ m'.notes = m.notes ∧ m'.session.broken = saved.broken
  := by
  rw [leaveLoop, session_bind] at run
  obtain ⟨s, m1, joined, last⟩ := bind_eq_ok.1 run
  obtain ⟨rfl, rfl⟩ := join_bottom returned joined
  cases last
  exact ⟨⟨tame.options, tame.state, broken, tame.continued, tame.returned, tame.fresh, tame.notes,
    tame.kinds⟩, rfl, rfl, rfl⟩

theorem Following.consuming {x : Analysis Unit} (following : Following E x R) :
  Following E (consuming x) R
  := by
  intro m m' tame run
  obtain ⟨m1, m2, before, inner, after⟩ := consuming_run run
  have follows := following m1 m2 (before.tame tame) inner
  apply follows.between tame before (after follows.leads.tame.state.pending)

theorem Following.reached {x : Analysis Unit}
    (following : ∀ m m', m.Tame E → m.state.isBottom = false → x m = .ok () m' → m.Follows E R m') :
  Following E (do if ← isBottom then return () else x) R
  := by
  intro m m' tame run
  rw [isBottom_bind] at run
  cases bottom : m.state.isBottom with
  | true =>
    rw [bottom] at run
    cases run
    refine ⟨tame.leads, ?_⟩
    intro ρ es b ρ' impossible
    apply (not_describes bottom impossible).elim
  | false =>
    rw [bottom] at run
    apply following m m' tame bottom run

theorem guardedLoop_following {patience : Nat} (testing : Testing E k parts x T)
    (body : Following E (do parts.body; parts.update) R)
    (insideT : ∀ ρ c es ρ', T ρ c es ρ' → ∀ e ∈ es, E e.1)
    (insideR : ∀ ρ es b ρ', R ρ es b ρ' → ∀ e ∈ es, E e.1) :
  Following E (guardedLoop t (pure ()) parts patience)
    fun ρ es b ρ' => b = false ∧ Iterates T R ρ es ρ'
  := by
  suffices loops : Following E (consuming _) _ from
    Following.reached fun m m' tame _ => loops m m' tame
  apply Following.consuming
  intro m m' tame run
  rw [session_bind] at run
  obtain ⟨_, m1, entered, run⟩ := bind_eq_ok.1 run
  obtain ⟨tame1, sameState, noted1⟩ := enterLoop_spec tame entered
  rw [options_bind] at run
  obtain ⟨⟨p, seen⟩, m2, watched, run⟩ := bind_eq_ok.1 run
  have nothing : ∀ ρ, bottom.Describes ρ → False := fun ρ => not_describes rfl
  obtain ⟨leads2, tameSeen, -, I, begins, invariant⟩ := watchedWithin_steps testing body
    insideT insideR _ tame1 tame_bottom nothing (forall_mem_nil _) watched
  simp only [or_false] at begins invariant
  obtain ⟨_, m3, joined, run⟩ := bind_eq_ok.1 run
  obtain ⟨leads3, ends⟩ := joinBroken_spec leads2.tame joined
  rw [state_bind] at run
  obtain ⟨checked, run⟩ := require_bind_eq_ok run
  rw [get_bind] at run
  obtain ⟨_, m4, unrolled, run⟩ := bind_eq_ok.1 run
  rw [get_bind] at run
  obtain ⟨keeps, run⟩ := require_bind_eq_ok run
  have erases : m3.Erases m4 := Keeps.ended unrolled
  have quiet := erases.quiet keeps
  have leads4 := leads3.trans (quiet.leads leads3.tame)
  obtain ⟨tame5, sameState5, sameNotes, sameBroken⟩ :=
    leaveLoop_spec leads4.tame tame.broken tame.returned run
  have noted5 : ∀ e : Event, E e.1 → m2.Noted e → m'.Noted e := by
    intro e isNode noted
    rw [Machine.Noted, sameNotes]
    apply leads4.noted e isNode noted
  constructor
  · refine ⟨tame5, ?_, ?_⟩
    · intro e isNode noted
      apply noted5 e isNode (leads2.noted e isNode (noted1 e noted))
    · intro ρ describes
      rw [sameBroken]
      apply describes
  · rintro ρ es b ρ' describes ⟨rfl, iterates⟩
    rw [← sameState] at describes
    have covers : ∀ s ∈ seen, ∀ ρ, s.Describes ρ → m3.state.Describes ρ := by
      intro s member ρ describes
      have covered := all_eq_true.1 checked s member
      apply describes_of_covers leads3.tame.state (tameSeen s member) covered describes
    obtain ⟨noted, answer⟩ := Steps.iterates invariant ends covers (begins ρ describes) iterates
    rw [sameState5, quiet.state]
    refine ⟨?_, answer⟩
    intro e member
    apply noted5 e (Iterates.inside insideT insideR iterates e member) (noted e member)

end

end Analysis

end ScriptLens
