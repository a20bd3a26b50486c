import ScriptLens.Analysis.Basic
import ScriptLens.Proofs.Computation

/-!
# Results of analyses

What the steps of an analysis give from a machine, and how the result of an analysis is put together
from the results of its steps.
-/

namespace ScriptLens.Analysis

variable {α β : Type} {m m' m'' : Machine} {x : Analysis α} {f : α → Analysis β} {d : Domain α}
  {a : α} {e : Interrupt}

theorem bind_eq_ok {b : β} : (x >>= f) m = .ok b m'' ↔ ∃ a m', x m = .ok a m' ∧ f a m' = .ok b m''
  := estate_bind_eq_ok

theorem bind_of_ok (first : x m = .ok a m') : (x >>= f) m = f a m' := by
  change EStateM.bind x f m = _
  rw [EStateM.bind, first]

theorem bind_of_eq {y : Analysis α} (first : x m = y m') : (x >>= f) m = (y >>= f) m' := by
  change EStateM.bind x f m = EStateM.bind y f m'
  rw [EStateM.bind, EStateM.bind, first]

theorem pure_eq_ok {b : α} : (pure a : Analysis α) m = .ok b m' ↔ b = a ∧ m' = m := by
  constructor
  · intro same
    cases same
    use rfl
  · rintro ⟨rfl, rfl⟩
    rfl

theorem lift_except_eq_ok {x : Except Failure α} :
  (liftM x : Analysis α) m = .ok a m' ↔ x = .ok a ∧ m' = m
  := by
  cases x with
  | error e =>
    constructor
    · nofun
    · rintro ⟨impossible, -⟩
      cases impossible
  | ok b =>
    constructor
    · intro same
      cases same
      use rfl
    · rintro ⟨same, rfl⟩
      cases same
      rfl

theorem lift_except_bind_eq_ok {x : Except Failure α} {b : β} :
  ((liftM x : Analysis α) >>= f) m = .ok b m' ↔ ∃ a, x = .ok a ∧ f a m = .ok b m'
  := by
  simp only [bind_eq_ok, lift_except_eq_ok]
  grind

theorem get_bind {f : Machine → Analysis β} : (get >>= f) m = f m m
  := rfl

variable {n i : Nat} {g : Unit → Analysis β} {s : State} {t : Tree} {body : Analysis α}

theorem lift_domain_of_ok (result : d.eval m.setting m.nextId = .ok (a, n)) :
  (liftM d : Analysis α) m = .ok a { m with nextId := n }
  := by
  change ofDomain d m = _
  rw [Domain.eval] at result
  rw [ofDomain, get_bind, result]
  rfl

theorem lift_domain_of_error {f : Failure} (result : d.eval m.setting m.nextId = .error f) :
  (liftM d : Analysis α) m = .error (.failure f) m
  := by
  change ofDomain d m = _
  rw [Domain.eval] at result
  rw [ofDomain, get_bind, result]
  rfl

theorem lift_domain_eq_ok :
  (liftM d : Analysis α) m = .ok a m' ↔
    ∃ n, d.eval m.setting m.nextId = .ok (a, n) ∧ m' = { m with nextId := n }
  := by
  cases result : d.eval m.setting m.nextId with
  | error f =>
    rw [lift_domain_of_error result]
    constructor
    · intro impossible
      cases impossible
    · rintro ⟨n, impossible, -⟩
      cases impossible
  | ok p =>
    rw [lift_domain_of_ok result]
    constructor
    · intro same
      cases same
      use p.2
    · rintro ⟨n, same, rfl⟩
      cases same
      rfl

theorem lift_domain_bind_eq_ok {b : β} :
  ((liftM d : Analysis α) >>= f) m = .ok b m' ↔
    ∃ a n, d.eval m.setting m.nextId = .ok (a, n) ∧ f a { m with nextId := n } = .ok b m'
  := by
  simp only [bind_eq_ok, lift_domain_eq_ok]
  grind

/-! ### Steps that always succeed -/

theorem modify_bind {f : Machine → Machine} : (modify f >>= g) m = g () (f m)
  := rfl

theorem options_bind {f : Options → Analysis β} : (options >>= f) m = f m.setting.options m
  := rfl

theorem state_bind {f : State → Analysis β} : (state >>= f) m = f m.state m
  := rfl

theorem setState_bind {f : Unit → Analysis β} : (setState s >>= f) m = f () { m with state := s }
  := rfl

theorem changeState_bind {f : State → State} :
  (changeState f >>= g) m = g () { m with state := f m.state }
  := rfl

theorem isBottom_bind {f : Bool → Analysis β} : (isBottom >>= f) m = f m.state.isBottom m
  := rfl

theorem session_bind {f : Session → Analysis β} : (session >>= f) m = f m.session m
  := rfl

theorem changeSession_bind {f : Session → Session} :
  (changeSession f >>= g) m = g () { m with session := f m.session }
  := rfl

theorem scene_bind {f : Scene → Analysis β} :
  (scene >>= f) m =
    f { heap := m.state.objs, source := m.source, tag := m.nextTag }
      { m with nextTag := m.nextTag + 1 }
  := rfl

theorem nodeId_bind {f : Nat → Analysis β} :
  (nodeId t >>= f) m = f (m.notes.mark t).1 { m with notes := (m.notes.mark t).2 }
  := rfl

theorem note_bind {n : NoteName} {f : Note → Analysis β} :
  (note t n >>= f) m =
    f ((m.notes.mark t).2.getAt (m.notes.mark t).1 n) { m with notes := (m.notes.mark t).2 }
  := rfl

theorem attr_bind {a : Attr} {f : Tree → Analysis β} : (attr t a >>= f) m = f (m.notes.attr t a) m
  := rfl

/-! ### Steps that may fail -/

theorem lift_except_bind {x : Except Failure α} (result : x = .ok a) :
  ((liftM x : Analysis α) >>= f) m = f a m
  := by
  rw [result]
  rfl

theorem localId_bind {f : Nat → Analysis β} (result : m.state.localId = .ok i) :
  (localId >>= f) m = f i m
  := by
  change (ofExcept m.state.localId >>= f) m = _
  rw [result]
  rfl

theorem globalId_bind {f : Nat → Analysis β} (result : m.state.globalId = .ok i) :
  (globalId >>= f) m = f i m
  := by
  change (ofExcept m.state.globalId >>= f) m = _
  rw [result]
  rfl

theorem object_bind {o : Obj} {f : Obj → Analysis β} (found : m.state.objs.get? i = some o) :
  (object i >>= f) m = f o m
  := by
  change (ofExcept (m.state.obj i) >>= f) m = _
  rw [State.obj, found]
  rfl

/-! ### Interruptions -/

theorem bind_eq_error :
  (x >>= f) m = .error e m'' ↔
    x m = .error e m'' ∨ ∃ a m', x m = .ok a m' ∧ f a m' = .error e m''
  := by
  change EStateM.bind x f m = _ ↔ _
  rw [EStateM.bind]
  cases first : x m with
  | ok a m1 =>
    constructor
    · intro run
      exact .inr ⟨a, m1, rfl, run⟩
    · rintro (impossible | ⟨_, _, same, run⟩)
      · cases impossible
      · cases same
        exact run
  | error e1 m1 =>
    constructor
    · intro run
      cases run
      exact .inl rfl
    · rintro (same | ⟨_, _, impossible, _⟩)
      · cases same
        rfl
      · cases impossible

theorem bind_of_error (first : x m = .error e m') : (x >>= f) m = .error e m'
  := bind_eq_error.2 (.inl first)

theorem lift_domain_eq_error (run : (liftM d : Analysis α) m = .error e m') : ∃ f, e = .failure f
  := by
  cases result : d.eval m.setting m.nextId with
  | ok p =>
    rw [lift_domain_of_ok result] at run
    cases run
  | error f =>
    rw [lift_domain_of_error result] at run
    cases run
    exact ⟨f, rfl⟩

theorem onState_eq_ok {p : α × State} (run : onState s body m = .ok p m') :
  ∃ m1, body { m with state := s } = .ok p.1 m1 ∧ p.2 = m1.state ∧
    m' = { m1 with state := m.state }
  := by
  rw [onState] at run
  split at run
  · rename_i a m1 ended
    cases run
    use m1, ended, rfl
  · cases run

theorem onState_eq_error (run : onState s body m = .error e m') :
  ∃ m1, body { m with state := s } = .error e m1 ∧ m' = { m1 with state := m.state }
  := by
  rw [onState] at run
  split at run
  · cases run
  · rename_i e1 m1 interrupted
    cases run
    exact ⟨m1, interrupted, rfl⟩

theorem consuming_of_ok (ended : x { m with consumed := {} :: m.consumed } = .ok a m') :
  consuming x m = .ok a { m' with
    consumed := m'.consumed.tail
    state := { m'.state with pending := m'.state.pending.diff (m'.consumed.headD {}) } }
  := by
  rw [consuming, consumingIf, modify_bind, bind_assoc, bind_of_ok ended]
  rfl

theorem consuming_of_error (interrupted : x { m with consumed := {} :: m.consumed } = .error e m') :
  consuming x m = .error e m'
  := by
  rw [consuming, consumingIf, modify_bind]
  exact bind_of_error (bind_of_error interrupted)

theorem consuming_eq_ok (run : consuming x m = .ok a m') :
  ∃ m1, x { m with consumed := {} :: m.consumed } = .ok a m1 ∧ m' = { m1 with
    consumed := m1.consumed.tail
    state := { m1.state with pending := m1.state.pending.diff (m1.consumed.headD {}) } }
  := by
  cases ended : x { m with consumed := {} :: m.consumed } with
  | error e m1 => cases (consuming_of_error ended).symm.trans run
  | ok b m1 =>
    cases (consuming_of_ok ended).symm.trans run
    exact ⟨m1, rfl, rfl⟩

def globalValue? (m : Machine) (name : Text) : Option Value := do
  let g ← m.state.objs.get? (← m.state.gref)
  g.get? (.text name)

end ScriptLens.Analysis
