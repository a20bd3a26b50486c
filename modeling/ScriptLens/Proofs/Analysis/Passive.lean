import ScriptLens.Analysis.Program
import ScriptLens.Proofs.Analysis.Run

/-!
# What computations keep

A discipline is a property of computations that holds of all steps one after another if it holds of
each of them.
-/

namespace ScriptLens

open NoteName

/-- What steers an analysis is the same in two machines. -/
structure Machine.Same (m m' : Machine) : Prop where
  setting : m'.setting = m.setting
  isPure : m'.session.isPure = m.session.isPure
  continued : m'.session.continued = m.session.continued

theorem Machine.Same.trans {m m' m'' : Machine} (first : m.Same m') (second : m'.Same m'') :
  m.Same m''
  := ⟨second.setting.trans first.setting, second.isPure.trans first.isPure,
    second.continued.trans first.continued⟩

/-- Two machines differ at most in parts that any step may change. -/
structure Machine.Agrees (m m' : Machine) : Prop where
  setting : m'.setting = m.setting
  notes : m'.notes = m.notes
  callers : m'.session.callers = m.session.callers
  loops : m'.session.loops = m.session.loops
  isPure : m'.session.isPure = m.session.isPure
  continued : m'.session.continued = m.session.continued

def NoteName.lasting : List NoteName :=
  [.evalTree, .targetBody, .targetParams, .targetsAgree, .staticValue, .contextValues]

class NoteName.Free (n : NoteName) : Prop where
  other {k : NoteName} : k ∈ lasting → n ≠ k

theorem NoteName.Free.of {n : NoteName} (absent : n ∉ lasting := by decide) : n.Free
  := ⟨fun lasts same => absent (same ▸ lasts)⟩

instance : skip.Free := .of
instance : active.Free := .of
instance : recursionState.Free := .of
instance : processed.Free := .of
instance : calleeIsPure.Free := .of
instance : unrolled.Free := .of
instance : reason.Free := .of
instance : isEval.Free := .of
instance : madeFunction.Free := .of
instance : evalUnused.Free := .of

/-- A relation between machines that holds after some steps if it holds for each of them. -/
class Chained (R : Machine → Machine → Prop) : Prop where
  refl (m : Machine) : R m m
  trans {m m' m'' : Machine} : R m m' → R m' m'' → R m m''

/-- A relation between machines that single steps keep. -/
class Plain (R : Machine → Machine → Prop) : Prop extends Chained R where
  free {m m' : Machine} : m.Agrees m' → R m m'
  mark (m : Machine) (t : Tree) : R m { m with notes := (m.notes.mark t).2 }
  write (m : Machine) (i : Nat) (n : NoteName) (v : Note) [n.Free] :
    R m { m with notes := m.notes.setAt i n v }
  erase (m : Machine) (i : Nat) (n : NoteName) [n.Free] :
    R m { m with notes := m.notes.eraseAt i n }
  extend (m : Machine) (t : Tree) (a : Attr) (u : Tree) :
    R m { m with notes := m.notes.setAttr t a u }
  refl _ := free ⟨rfl, rfl, rfl, rfl, rfl, rfl⟩

theorem Plain.aside {R : Machine → Machine → Prop} [Plain R] {m m' : Machine}
    (agrees : m.Agrees m' := by exact ⟨rfl, rfl, rfl, rfl, rfl, rfl⟩) : R m m'
  := free agrees

instance : Plain Machine.Same
  where
  trans := .trans
  free agrees := ⟨agrees.setting, agrees.isPure, agrees.continued⟩
  mark _ _ := ⟨rfl, rfl, rfl⟩
  write _ _ _ _ _ := ⟨rfl, rfl, rfl⟩
  erase _ _ _ _ := ⟨rfl, rfl, rfl⟩
  extend _ _ _ _ := ⟨rfl, rfl, rfl⟩

namespace Analysis

variable {α β : Type} {R : Machine → Machine → Prop}

variable {x : Analysis α} {m m' : Machine}

theorem catchUnwind_eq_ok {a : Except Nat α} (run : catchUnwind x m = .ok a m') :
  (∃ v, a = .ok v ∧ x m = .ok v m') ∨
    ∃ site m1 c, a = .error site ∧ x m = .error (.unwind site) m1 ∧ m' = { m1 with consumed := c }
  := by
  rw [catchUnwind] at run
  split at run
  · rename_i v m1 ended
    cases run
    exact .inl ⟨v, rfl, ended⟩
  · rename_i site m1 abandoned
    cases run
    exact .inr ⟨site, m1, _, rfl, abandoned, rfl⟩
  · cases run

theorem catchUnwind_eq_error {e : Interrupt} (run : catchUnwind x m = .error e m') :
  ∃ f, e = .failure f
  := by
  rw [catchUnwind] at run
  split at run
  · cases run
  · cases run
  · rename_i e1 m1 other interrupted
    obtain ⟨rfl, rfl⟩ := EStateM.Result.error.inj run
    cases e1 with
    | failure f => exact ⟨f, rfl⟩
    | unwind site => exact (other site rfl).elim

theorem runProgram_eq_ok {r : Engine} {t : Tree} {text : Text} :
  runProgram r t text m = .ok () m' ↔ ∃ m1,
    runBody r t { m with session := { source := text, isQuiet := true }, source := text } = .ok () m1 ∧
      m' = { m1 with session := m.session }
  := by
  rw [runProgram, inSession, reporting]
  generalize runBody r t _ = ran
  cases ran with
  | ok a m1 =>
    constructor
    · intro run
      cases run
      exact ⟨m1, rfl, rfl⟩
    · rintro ⟨_, ⟨⟩, rfl⟩
      rfl
  | error e m1 =>
    constructor
    · intro run
      dsimp only at run
      cases printed : printInterrupt e m1 <;> rw [printed] at run <;> cases run
    · rintro ⟨_, ⟨⟩, -⟩

/-! ### Disciplines -/

/-- A property of computations that steps have one after another if each of them has it, where looking
at anything but the setting and what has been consumed makes no difference. -/
structure Discipline where
  Holds {α : Type} : Analysis α → Prop
  pure {α : Type} (a : α) : Holds (pure a)
  fail {α : Type} (f : Failure) : Holds (fail f : Analysis α)
  bind {α β : Type} {x : Analysis α} {f : α → Analysis β} :
    Holds x → (∀ a, Holds (f a)) → Holds (x >>= f)
  options : Holds options
  look {α : Type} {f : Machine → Analysis α}
    (others : ∀ m c k, f { m with setting := c, consumed := k } = f m) :
    (∀ m, Holds (f m)) → Holds (get >>= f)

class Obeys (K : Discipline) (x : Analysis α) : Prop where
  holds : K.Holds x

namespace Obeys

variable {K : Discipline} {x : Analysis α} {f : α → Analysis β}

instance pure (a : α) : Obeys K (pure a : Analysis α)
  := ⟨K.pure a⟩

instance fail (f : Failure) : Obeys K (fail f : Analysis α)
  := ⟨K.fail f⟩

theorem both (first : Obeys K x) (rest : ∀ a, Obeys K (f a)) : Obeys K (x >>= f)
  := ⟨K.bind first.holds fun a => (rest a).holds⟩

instance bind (x : Analysis α) (f : α → Analysis β) [Obeys K x] [∀ a, Obeys K (f a)] :
  Obeys K (x >>= f)
  := both inferInstance inferInstance

theorem after [Obeys K x] (rest : ∀ a, Obeys K (f a)) : Obeys K (x >>= f)
  := both inferInstance rest

theorem look {f : Machine → Analysis α} (rest : ∀ m, Obeys K (f m))
    (others : ∀ m c k, f { m with setting := c, consumed := k } = f m := by intros; rfl) :
  Obeys K (get >>= f)
  := ⟨K.look others fun m => (rest m).holds⟩

instance ite (c : Prop) [Decidable c] (x y : Analysis α) [Obeys K x] [Obeys K y] :
  Obeys K (if c then x else y)
  := by split <;> infer_instance

instance ofExcept (x : Except Failure α) : Obeys K (ofExcept x) := by
  cases x with
  | ok a => exact Obeys.pure a
  | error f => exact Obeys.fail f

instance liftExcept (x : Except Failure α) : Obeys K (liftM x : Analysis α)
  := Obeys.ofExcept x

end Obeys

section

variable {K : Discipline} (t : Tree)

instance : Obeys K options
  := ⟨K.options⟩

instance : Obeys K state
  := .look inferInstance

instance : Obeys K isBottom
  := .look inferInstance

instance : Obeys K session
  := .look inferInstance

instance (a : Attr) : Obeys K (attr t a)
  := .look inferInstance

instance : Obeys K localId
  := by unfold localId; infer_instance

instance : Obeys K globalId
  := by unfold globalId; infer_instance

instance (i : Nat) : Obeys K (object i)
  := by unfold object; infer_instance

end

/-- Something on a node may be looked up or noted. -/
class Marking (K : Discipline) : Prop where
  reads (t : Tree) (n : NoteName) : Obeys K (note t n)
  writes (t : Tree) (n : NoteName) [n.Free] (w : Note) : Obeys K (setNote t n w)

attribute [instance] Marking.reads Marking.writes

/-- Single steps may be made that do not change the current scopes or the session. -/
class Stepping (K : Discipline) : Prop extends Marking K where
  newId : Obeys K newId
  newRefs (n : Nat) : Obeys K (modify fun m => { m with nextRef := n } : Analysis Unit)
  scene : Obeys K scene
  print (x : Text) : Obeys K (print x)
  nodeId (t : Tree) : Obeys K (nodeId t)
  setAttr (t : Tree) (a : Attr) (u : Tree) : Obeys K (setAttr t a u)
  consume (v : Value) : Obeys K (consume v)
  begins : Obeys K (modify fun m => { m with consumed := {} :: m.consumed } : Analysis Unit)
  ends (letGo : Bool) : Obeys K (modify fun m =>
    let s := m.state
    let c := m.consumed.headD {}
    let s := if letGo then { s with pending := s.pending.diff c } else s
    { m with consumed := m.consumed.tail, state := s } : Analysis Unit)

attribute [instance] Stepping.newId Stepping.newRefs Stepping.scene Stepping.print Stepping.nodeId
  Stepping.setAttr Stepping.consume Stepping.begins Stepping.ends

/-- Steps may be made that stay in the current scopes. -/
class Local (K : Discipline) : Prop extends Stepping K where
  changeState {f : State → State} (scopes : ∀ s, (f s).isBottom = s.isBottom ∧ (f s).lref = s.lref ∧
    (f s).frames = s.frames) : Obeys K (changeState f)
  giveUp : Obeys K (Analysis.changeState State.toBottom)
  changeSession (functions : Session → List Tree) (last : Session → Option Tree)
    (needClean : Session → Bool) (trace : Session → Option (Array Int))
    (usesClosure : Session → Bool) :
    Obeys K (changeSession fun s =>
      { s with functions := functions s, last := last s, needClean := needClean s
               trace := trace s, usesClosure := usesClosure s })
  collect : Obeys K collect

attribute [instance] Local.giveUp Local.changeSession Local.collect

/-- States may be computed and replaced, and computations may be run on them or be abandoned. -/
class Wide (K : Discipline) : Prop extends Stepping K where
  throw {α : Type} (e : Interrupt) : Obeys K (throw e : Analysis α)
  changeState (f : State → State) : Obeys K (changeState f)
  changeSession (source : Session → Text) (isQuiet : Session → Bool)
    (functions : Session → List Tree) (last : Session → Option Tree) (needClean : Session → Bool)
    (trace : Session → Option (Array Int)) (result : Session → Value)
    (returned broken : Session → State) (usesClosure : Session → Bool) :
    Obeys K (changeSession fun s =>
      { s with source := source s, isQuiet := isQuiet s, functions := functions s, last := last s
               needClean := needClean s, trace := trace s, result := result s
               returned := returned s, broken := broken s, usesClosure := usesClosure s })
  domain {α : Type} (d : Domain α) : Obeys K (ofDomain d)
  onState {α : Type} (s : State) (x : Analysis α) [Obeys K x] : Obeys K (onState s x)

attribute [instance] Wide.throw Wide.changeState Wide.changeSession Wide.domain Wide.onState

section

variable {K : Discipline} [Wide K] (s : State)

instance : Obeys K (setState s)
  := Wide.changeState fun _ => s

instance (d : Domain α) : Obeys K (liftM d : Analysis α)
  := Wide.domain d

instance : Obeys K (collectIn s)
  := by unfold collectIn; infer_instance

instance : Local K
  where
  changeState _ := inferInstance
  giveUp := inferInstance
  changeSession _ _ _ _ _ := inferInstance
  collect := by unfold Analysis.collect; infer_instance

end

section

variable {K : Discipline} [Local K] (t : Tree) (v : Value) (i : Nat)

theorem obeys_changeState {f : State → State} (scopes : ∀ s, (f s).isBottom = s.isBottom ∧
    (f s).lref = s.lref ∧ (f s).frames = s.frames := by intro; exact ⟨rfl, rfl, rfl⟩) :
  Obeys K (changeState f)
  := Local.changeState scopes

instance (objs : State → Heap) (pending : State → IdSet) (value : State → Value) :
  Obeys K (changeState fun s => { s with objs := objs s, pending := pending s, value := value s })
  := obeys_changeState

instance (o : Obj) : Obeys K (changeState fun s => s.putObj i o)
  := obeys_changeState

instance (f : Obj → Obj) : Obeys K (changeObject i f)
  := obeys_changeState

instance : Obeys K (changeState fun s => s.hold v)
  := obeys_changeState

instance : Obeys K (release v)
  := obeys_changeState

instance (o : Obj) : Obeys K (newObject o)
  := by unfold newObject; infer_instance

instance : Obeys K (setLive t)
  := by unfold setLive; exact .look inferInstance

instance : Obeys K (passThrough t)
  := by unfold passThrough; infer_instance

end

/-! ### Relations between machines -/

class Keeps (R : Machine → Machine → Prop) (x : Analysis α) : Prop where
  ended {m : Machine} {a : α} {m' : Machine} : x m = .ok a m' → R m m'
  abandoned {m : Machine} {site : Nat} {m' : Machine} : x m = .error (.unwind site) m' → R m m'

abbrev Passive (x : Analysis α) : Prop := Keeps Machine.Same x

namespace Keeps

variable {x : Analysis α} {f : α → Analysis β}

theorem mono {R' : Machine → Machine → Prop} (more : ∀ {m m'}, R m m' → R' m m')
    (kept : Keeps R x) : Keeps R' x
  := ⟨fun run => more (kept.ended run), fun run => more (kept.abandoned run)⟩

theorem step {x : Analysis α} (steps : ∀ m, ∃ a m', x m = .ok a m' ∧ R m m') : Keeps R x := by
  constructor
  · intro m a m' run
    obtain ⟨b, m1, ended, kept⟩ := steps m
    cases ended.symm.trans run
    apply kept
  · intro m site m' run
    obtain ⟨b, m1, ended, kept⟩ := steps m
    cases ended.symm.trans run

theorem change {f : Machine → Machine} (kept : ∀ m : Machine, R m (f m)) : Keeps R (modify f)
  := step fun m => ⟨(), f m, rfl, kept m⟩

variable [Chained R]

theorem throw (e : Interrupt) : Keeps R (throw e : Analysis α) := by
  constructor
  · intro m a m' run
    cases run
  · intro m site m' run
    cases run
    apply Chained.refl

theorem both (first : Keeps R x) (rest : ∀ a, Keeps R (f a)) : Keeps R (x >>= f) := by
  constructor
  · intro m b m' run
    obtain ⟨a, m1, run1, run2⟩ := bind_eq_ok.1 run
    apply Chained.trans (first.ended run1) ((rest a).ended run2)
  · intro m site m' run
    obtain abandoned | ⟨a, m1, run1, run2⟩ := bind_eq_error.1 run
    · apply first.abandoned abandoned
    · apply Chained.trans (first.ended run1) ((rest a).abandoned run2)

theorem after [first : Keeps R x] (rest : ∀ a, Keeps R (f a)) : Keeps R (x >>= f)
  := first.both rest

end Keeps

def keeping (R : Machine → Machine → Prop) [Chained R] : Discipline where
  Holds := Keeps R
  pure _ := .step fun m => ⟨_, m, rfl, Chained.refl m⟩
  fail _ := .throw _
  bind := .both
  options := .step fun m => ⟨_, m, rfl, Chained.refl m⟩
  look _ rest := .both (.step fun m => ⟨m, m, rfl, Chained.refl m⟩) rest

instance obeys_of_keeps [Chained R] [kept : Keeps R x] : Obeys (keeping R) x
  := ⟨kept⟩

instance (priority := low) keeps_of_obeys [Chained R] [obeys : Obeys (keeping R) x] : Keeps R x
  := obeys.holds

theorem Passive.same [Passive x] {a : α} (run : x m = .ok a m') : m.Same m'
  := Keeps.ended run

section

variable [Plain R]

instance keeps_nodeId (t : Tree) : Keeps R (nodeId t)
  := .step fun m => ⟨_, _, rfl, Plain.mark m t⟩

instance (x : Analysis α) [Keeps R x] : Keeps R (catchUnwind x) := by
  constructor
  · intro m a m' run
    obtain ⟨v, -, ended⟩ | ⟨site, m1, c, -, abandoned, rfl⟩ := catchUnwind_eq_ok run
    · apply Keeps.ended ended
    · apply Chained.trans (Keeps.abandoned abandoned) Plain.aside
  · intro m site m' run
    obtain ⟨f, ⟨⟩⟩ := catchUnwind_eq_error run

theorem keeps_ofDomain (d : Domain α) : Keeps R (ofDomain d) := by
  constructor
  · intro m a m' run
    obtain ⟨n, -, rfl⟩ := lift_domain_eq_ok.1 run
    exact Plain.aside
  · intro m site m' run
    obtain ⟨f, ⟨⟩⟩ := lift_domain_eq_error run

theorem keeps_onState (s : State) (inside : Keeps R x) : Keeps R (onState s x) := by
  have enter (m : Machine) : R m { m with state := s } := Plain.aside
  have leave (m m1 : Machine) : R m1 { m1 with state := m.state } := Plain.aside
  constructor
  · intro m a m' run
    obtain ⟨m1, ended, -, rfl⟩ := onState_eq_ok run
    apply Chained.trans (Chained.trans (enter m) (inside.ended ended)) (leave m m1)
  · intro m site m' run
    obtain ⟨m1, abandoned, rfl⟩ := onState_eq_error run
    apply Chained.trans (Chained.trans (enter m) (inside.abandoned abandoned)) (leave m m1)

instance : Wide (keeping R)
  where
  reads t n := .both inferInstance fun _ => .look inferInstance
  writes t n _ w := .both inferInstance fun i => ⟨.change fun m => Plain.write m i n w⟩
  newId := ⟨.step fun _ => ⟨_, _, rfl, Plain.aside⟩⟩
  newRefs _ := ⟨.change fun _ => Plain.aside⟩
  scene := ⟨.step fun _ => ⟨_, _, rfl, Plain.aside⟩⟩
  print _ := ⟨.change fun _ => Plain.aside⟩
  nodeId _ := inferInstance
  setAttr t a u := ⟨.change fun m => Plain.extend m t a u⟩
  consume _ := ⟨.change fun m => by split <;> exact Plain.aside⟩
  begins := ⟨.change fun _ => Plain.aside⟩
  ends _ := ⟨.change fun _ => Plain.aside⟩
  throw e := ⟨.throw e⟩
  changeState _ := ⟨.change fun _ => Plain.aside⟩
  changeSession _ _ _ _ _ _ _ _ _ _ := ⟨.change fun _ => Plain.aside⟩
  domain d := ⟨keeps_ofDomain d⟩
  onState s _ inside := ⟨keeps_onState s inside.holds⟩

end

theorem passive_changeSession {f : Session → Session}
    (kept : ∀ s, (f s).isPure = s.isPure ∧ (f s).continued = s.continued) :
  Passive (changeSession f)
  := .change fun m => ⟨rfl, (kept m.session).1, (kept m.session).2⟩

/-- The callers and the loops around the current point do not steer the analysis. -/
instance (last : Session → Option Tree)
    (callers : Session → List (Option Tree)) (trace : Session → Option (Array Int))
    (loops : Session → LoopContext) (returned broken : Session → State) :
  Passive (changeSession fun s =>
    { s with last := last s, callers := callers s, trace := trace s, loops := loops s
             returned := returned s, broken := broken s })
  := passive_changeSession fun _ => ⟨rfl, rfl⟩

end Analysis

end ScriptLens
