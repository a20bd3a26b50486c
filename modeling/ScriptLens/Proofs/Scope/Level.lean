import ScriptLens.Proofs.Analysis.Refinement
import ScriptLens.Proofs.Continue.Feeds

/-!
# Computations that keep to their scopes

A point of an analysis is in some scopes: those of the current state, of the states in which the
current function returns, and of those in which loops are left or continued.
-/

namespace ScriptLens

open Domain State

/-! ### Joins of states in the same scopes -/

def Setting.level (c : Setting) : Setting := { c with acrossScopes := false }

def Machine.level (m : Machine) : Machine := { m with setting := m.setting.level }

/-- An operation on states to which it makes no difference whether states in different scopes are
joined. -/
class Indifferent {α : Type} (d : Domain α) : Prop where
  same (c : Setting) (n : Nat) : d.eval c.level n = d.eval c n

namespace Indifferent

variable {α β : Type} (s t : State)

instance pure (a : α) : Indifferent (pure a : Domain α)
  := ⟨fun _ _ => rfl⟩

instance throw (f : Failure) : Indifferent (throw f : Domain α)
  := ⟨fun _ _ => rfl⟩

instance (f : Failure) (g : α → Domain β) : Indifferent ((MonadExcept.throw f : Domain α) >>= g)
  := ⟨fun _ _ => rfl⟩

instance newId : Indifferent newId
  := ⟨fun _ _ => rfl⟩

instance options : Indifferent options
  := ⟨fun _ _ => rfl⟩

instance lift (x : Except Failure α) : Indifferent (liftM x : Domain α)
  := ⟨fun _ _ => by simp⟩

instance bind (d : Domain α) (f : α → Domain β) [Indifferent d] [∀ a, Indifferent (f a)] :
  Indifferent (d >>= f)
  := by
  constructor
  intro c n
  cases first : d.eval c n with
  | error e => rw [eval_bind_error first, eval_bind_error ((same c n).trans first)]
  | ok p => rw [eval_bind_ok first, eval_bind_ok ((same c n).trans first), same]

theorem reading {f : Setting → Domain α} (other : ∀ c, f c.level = f c) [∀ c, Indifferent (f c)] :
  Indifferent (read >>= f)
  := by
  constructor
  intro c n
  change (f c.level).eval c.level n = (f c).eval c n
  rw [other, same]

instance ite (p : Prop) [Decidable p] (d e : Domain α) [Indifferent d] [Indifferent e] :
  Indifferent (if p then d else e)
  := by split <;> infer_instance

instance assign : Indifferent (s.assign t) := by
  unfold State.assign
  refine @ite _ _ _ _ _ inferInstance ?_
  refine @ite _ _ _ _ _ inferInstance ?_
  refine @reading _ _ (fun _ => rfl) fun _ => ?_
  dsimp only
  split <;> infer_instance

instance clone : Indifferent t.clone
  := by unfold State.clone State.fresh; infer_instance

instance matchHeaps (first second rest : Heap) (m : Renaming) (work : List Matching) :
  Indifferent (matchHeaps first second rest m work)
  := by fun_induction State.matchHeaps first second rest m work <;> infer_instance

instance matchFrom (rest : Heap) (m : Renaming) (l : List (Option Nat × Option Nat)) :
  Indifferent (matchFrom s t rest m l)
  := by
  induction l generalizing rest m with
  | nil => unfold State.matchFrom; infer_instance
  | cons p l ih => unfold State.matchFrom; infer_instance

instance unify : Indifferent (s.unify t)
  := by unfold State.unify; infer_instance

instance cleanup : Indifferent s.cleanup := by
  unfold State.cleanup
  refine @ite _ _ _ _ _ inferInstance ?_
  refine @bind _ _ _ _ inferInstance fun _ => ?_
  refine @bind _ _ _ _ inferInstance fun _ => ?_
  refine @bind _ _ _ _ inferInstance fun _ => ?_
  exact reading fun _ => rfl

theorem join {s t : State} {p : Option Nat × List Nat} (first : s.At p) (second : t.At p) :
  Indifferent (s.join t)
  := by
  unfold State.join
  by_cases bottomT : t.isBottom = true
  · rw [if_pos bottomT]
    infer_instance
  rw [if_neg bottomT]
  by_cases bottomS : s.isBottom = true
  · rw [if_pos bottomS]
    infer_instance
  rw [if_neg bottomS]
  have scopes : s.scopes = t.scopes :=
    (first (Bool.eq_false_iff.2 bottomS)).trans (second (Bool.eq_false_iff.2 bottomT)).symm
  obtain ⟨lref, frames⟩ := Prod.mk.inj scopes
  have level : (s.lref != t.lref || s.frames != t.frames) = false := by simp [lref, frames]
  simp only [level]
  refine @ite _ _ _ _ _ inferInstance ?_
  refine @bind _ _ _ _ inferInstance fun _ => ?_
  refine @bind _ _ _ _ ?_ fun _ => ?_
  · rw [if_neg (by decide)]
    infer_instance
  refine @bind _ _ _ _ inferInstance fun _ => ?_
  refine @bind _ _ _ _ inferInstance fun _ => ?_
  split <;> infer_instance

end Indifferent

/-! ### Spots -/

/-- The scopes at a point of an analysis: the local scope and those of the callers, and the scopes of
the states in which the current function returns and loops are left or continued. -/
structure Spot where
  scope : Nat
  frames : List Nat
  returned : Option Nat × List Nat
  broken : Option Nat × List Nat
  continued : Option Nat × List Nat

def Spot.here (φ : Spot) : Option Nat × List Nat := (some φ.scope, φ.frames)

/-- What is known about the scopes of the states in a result. -/
class HasStates (α : Type) where
  fine : Spot → α → Prop

instance (priority := low) noStates (α : Type) : HasStates α := ⟨fun _ _ => True⟩

instance : HasStates State := ⟨fun φ s => s.At φ.here⟩

instance : HasStates (List State) := ⟨fun φ l => ∀ s ∈ l, s.At φ.here⟩

instance : HasStates LoopProgress := ⟨fun φ p => p.header.At φ.here⟩

instance : HasStates Session :=
  ⟨fun φ s => s.returned.At φ.returned ∧ s.broken.At φ.broken ∧ s.continued.At φ.continued⟩

instance {ε α : Type} : HasStates (Except ε α) := ⟨fun _ x => ∃ a, x = .ok a⟩

instance {α β : Type} [HasStates α] [HasStates β] : HasStates (α × β) :=
  ⟨fun φ p => HasStates.fine φ p.1 ∧ HasStates.fine φ p.2⟩

structure Machine.In (φ : Spot) (m : Machine) : Prop where
  state : m.state.At φ.here
  session : HasStates.fine φ m.session

namespace Analysis

set_option synthInstance.maxSize 100000

variable {φ ψ χ : Spot} {α β : Type} [HasStates α] [HasStates β]

class Fine (φ : Spot) (a : α) : Prop where
  fine : HasStates.fine φ a

class Stateless (α : Type) [HasStates α] : Prop where
  fine (φ : Spot) (a : α) : HasStates.fine φ a

instance (priority := low) stateless (α : Type) : @Stateless α (noStates α)
  := ⟨fun _ _ => trivial⟩

instance (priority := low) fine_stateless [Stateless α] (a : α) : Fine φ a
  := ⟨Stateless.fine φ a⟩

instance (a : α) (b : β) [Fine φ a] [Fine φ b] : Fine φ (a, b)
  := ⟨Fine.fine, Fine.fine⟩

instance (p : α × β) [pair : Fine φ p] : Fine φ p.1
  := ⟨pair.fine.1⟩

instance (p : α × β) [pair : Fine φ p] : Fine φ p.2
  := ⟨pair.fine.2⟩

/-- A computation leads from one spot to another and never joins states in different scopes. -/
def Leads (φ ψ : Spot) (x : Analysis α) : Prop :=
  ∀ m a m', m.In φ → x m = .ok a m' →
    m'.In ψ ∧ HasStates.fine ψ a ∧ x m.level = .ok a m'.level

theorem Leads.bind {x : Analysis α} {f : α → Analysis β} (first : Leads φ ψ x)
    (rest : ∀ a [Fine ψ a], Leads ψ χ (f a)) : Leads φ χ (x >>= f)
  := by
  intro m b m' isIn run
  obtain ⟨a, m1, run1, run2⟩ := bind_eq_ok.1 run
  obtain ⟨isIn1, fine1, level1⟩ := first m a m1 isIn run1
  obtain ⟨isIn2, fine2, level2⟩ := @rest a ⟨fine1⟩ m1 b m' isIn1 run2
  exact ⟨isIn2, fine2, bind_eq_ok.2 ⟨a, m1.level, level1, level2⟩⟩

class Stays (φ : Spot) (x : Analysis α) : Prop where
  leads : Leads φ φ x

class Endless (x : Analysis α) : Prop where
  endless (m : Machine) (a : α) (m' : Machine) : x m ≠ .ok a m'

omit [HasStates α] in
instance (e : Interrupt) : Endless (throw e : Analysis α)
  := ⟨fun _ _ _ run => by cases run⟩

omit [HasStates α] [HasStates β] in
instance (x : Analysis α) (f : α → Analysis β) [∀ a, Endless (f a)] : Endless (x >>= f) := by
  constructor
  intro m b m' run
  obtain ⟨a, m1, -, run⟩ := bind_eq_ok.1 run
  exact Endless.endless m1 b m' run

namespace Stays

theorem step {x : Analysis α} {g : Machine → α} {f : Machine → Machine}
    (steps : ∀ m, x m = .ok (g m) (f m)) (result : ∀ m, g m.level = g m)
    (same : ∀ m, f m.level = (f m).level)
    (kept : ∀ m : Machine, m.In φ → (f m).In φ ∧ HasStates.fine φ (g m)) : Stays φ x
  := by
  constructor
  intro m a m' isIn run
  cases (steps m).symm.trans run
  refine ⟨(kept m isIn).1, (kept m isIn).2, ?_⟩
  rw [steps, result, same]

variable {x : Analysis α} {g : Machine → α} {f : α → Analysis β}

theorem aside [Stateless α] {f : Machine → Machine}
    (steps : ∀ m, x m = .ok (g m) (f m) := by intro; rfl)
    (result : ∀ m, g m.level = g m := by intro; rfl)
    (same : ∀ m, f m.level = (f m).level := by intro; rfl)
    (state : ∀ m, (f m).state = m.state := by intro; rfl)
    (session : ∀ m, (f m).session = m.session := by intro; rfl) : Stays φ x
  := by
  refine step steps result same fun m isIn => ⟨⟨?_, ?_⟩, Stateless.fine φ _⟩
  · rw [state]
    exact isIn.state
  · rw [session]
    exact isIn.session

instance pure (a : α) [Fine φ a] : Stays φ (pure a : Analysis α)
  := step (fun _ => rfl) (fun _ => rfl) (fun _ => rfl) fun _ isIn => ⟨isIn, Fine.fine⟩

instance (priority := low) endless (x : Analysis α) [Endless x] : Stays φ x
  := ⟨fun m a m' _ run => absurd run (Endless.endless m a m')⟩

instance fail (f : Failure) : Stays φ (fail f : Analysis α)
  := ⟨fun _ _ _ _ run => by cases run⟩

theorem both (first : Stays φ x) (rest : ∀ a [Fine φ a], Stays φ (f a)) : Stays φ (x >>= f)
  := ⟨first.leads.bind fun a _ => (rest a).leads⟩

instance bind (x : Analysis α) (f : α → Analysis β) [Stays φ x] [∀ a, Stays φ (f a)] :
  Stays φ (x >>= f)
  := both inferInstance fun _ _ => inferInstance

theorem after [Stays φ x] (rest : ∀ a [Fine φ a], Stays φ (f a)) : Stays φ (x >>= f)
  := both inferInstance rest

instance ite (c : Prop) [Decidable c] (x y : Analysis α) [Stays φ x] [Stays φ y] :
  Stays φ (if c then x else y)
  := by split <;> infer_instance

instance onState (s : State) (x : Analysis α) [other : Fine φ s] [Stays φ x] : Stays φ (onState s x)
  := by
  constructor
  intro m p m' isIn run
  obtain ⟨m1, ended, value, rfl⟩ := onState_eq_ok run
  obtain ⟨a, t⟩ := p
  obtain rfl : t = m1.state := value
  have start : Machine.In φ { m with state := s } := ⟨other.fine, isIn.session⟩
  obtain ⟨isIn1, fine, level⟩ := Stays.leads _ a m1 start ended
  refine ⟨⟨isIn.state, isIn1.session⟩, ⟨fine, isIn1.state⟩, ?_⟩
  have level : x { m.level with state := s } = _ := level
  rw [Analysis.onState, level]
  rfl

instance catchUnwind (x : Analysis α) [Stays φ x] [Steady x] : Stays φ (catchUnwind x) := by
  constructor
  intro m a m' isIn run
  obtain ⟨v, rfl, ended⟩ | ⟨site, m1, c, -, abandoned, -⟩ := catchUnwind_eq_ok run
  · obtain ⟨isIn', -, level⟩ := Stays.leads m v m' isIn ended
    refine ⟨isIn', ⟨v, rfl⟩, ?_⟩
    rw [Analysis.catchUnwind, level]
  · exact absurd abandoned Steady.steady

theorem domain {d : Domain α} [Indifferent d]
    (fine : ∀ c n a n', d.eval c n = .ok (a, n') → HasStates.fine φ a) :
  Stays φ (liftM d : Analysis α)
  := by
  constructor
  intro m a m' isIn run
  obtain ⟨n, result, rfl⟩ := lift_domain_eq_ok.1 run
  refine ⟨⟨isIn.state, isIn.session⟩, fine _ _ _ _ result, ?_⟩
  exact lift_domain_eq_ok.2 ⟨n, (Indifferent.same _ _).trans result, rfl⟩

end Stays

/-! ### Operations on states -/

instance (d : Domain α) [lifted : Stays φ (liftM d : Analysis α)] : Stays φ (ofDomain d)
  := lifted

section

variable (s t : State)

instance [there : Fine φ t] : Stays φ (liftM (s.assign t) : Analysis State) := by
  refine .domain fun c n u n' copied notBottom => ?_
  obtain ⟨bottom, scopes⟩ := assign_scopes copied
  have isThere := bottom.symm.trans notBottom
  exact (scopes isThere).symm.trans (there.fine isThere)

instance stays_clone [here : Fine φ s] : Stays φ (liftM s.clone : Analysis State) := by
  refine .domain fun c n u n' copied notBottom => ?_
  obtain ⟨t, n1, -, copied⟩ := eval_bind_eq_ok.1 copied
  obtain ⟨bottom, scopes⟩ := assign_scopes copied
  have isHere := bottom.symm.trans notBottom
  exact (scopes isHere).symm.trans (here.fine isHere)

instance [here : Fine φ s] : Stays φ (liftM (s.unify t) : Analysis State) := by
  refine .domain fun c n u n' unified notBottom => ?_
  obtain ⟨bottom, scopes⟩ := unify_scopes unified
  exact scopes.trans (here.fine (bottom.symm.trans notBottom))

instance stays_join [here : Fine φ s] [there : Fine φ t] :
  Stays φ (liftM (s.join t) : Analysis State)
  := by
  have := Indifferent.join here.fine there.fine
  exact .domain fun c n u n' joined => (join_scopes joined).2 _ here.fine there.fine

instance [here : Fine φ s] : Stays φ (liftM s.cleanup : Analysis State) := by
  refine .domain fun c n u n' run => ?_
  rw [cleanup] at run
  by_cases bottom : s.isBottom = true
  · rw [if_pos bottom] at run
    cases run
    exact here.fine
  · rw [if_neg bottom] at run
    obtain ⟨objs, n1, -, run⟩ := eval_bind_eq_ok.1 run
    obtain ⟨l, n2, -, run⟩ := eval_bind_eq_ok.1 run
    obtain ⟨g, n3, -, run⟩ := eval_bind_eq_ok.1 run
    obtain ⟨setting, n4, -, run⟩ := eval_bind_eq_ok.1 run
    obtain ⟨rest, n5, -, run⟩ := eval_bind_eq_ok.1 run
    cases run
    exact here.fine

end

/-! ### Steps -/

section

variable (s : State) (v : Value)

instance stays_state : Stays φ state
  := .step (fun _ => rfl) (fun _ => rfl) (fun _ => rfl) fun _ isIn => ⟨isIn, isIn.state⟩

instance stays_session : Stays φ session
  := .step (fun _ => rfl) (fun _ => rfl) (fun _ => rfl) fun _ isIn => ⟨isIn, isIn.session⟩

theorem stays_changeState {f : State → State} (kept : ∀ s : State, s.At φ.here → (f s).At φ.here) :
  Stays φ (changeState f)
  := .step (fun _ => rfl) (fun _ => rfl) (fun _ => rfl) fun _ isIn =>
    ⟨⟨kept _ isIn.state, isIn.session⟩, trivial⟩

instance stays_setState [here : Fine φ s] : Stays φ (setState s)
  := stays_changeState fun _ _ => here.fine

instance stays_toBottom : Stays φ (changeState toBottom)
  := stays_changeState fun _ _ notBottom => by cases notBottom

theorem leads_changeSession {f : Session → Session} (here : φ.here = ψ.here)
    (kept : ∀ s, HasStates.fine φ s → HasStates.fine ψ (f s)) : Leads φ ψ (changeSession f)
  := by
  intro m a m' isIn run
  cases run
  exact ⟨⟨here ▸ isIn.state, kept _ isIn.session⟩, trivial, rfl⟩

instance (last : Session → Option Tree) (callers : Session → List (Option Tree))
    (needClean : Session → Bool) (trace : Session → Option (Array Int))
    (loops : Session → LoopContext) (result : Session → Value) (isPure usesClosure : Session → Bool) :
  Stays φ (changeSession fun s =>
    { s with last := last s, callers := callers s, needClean := needClean s, trace := trace s
             loops := loops s, result := result s, isPure := isPure s
             usesClosure := usesClosure s })
  := ⟨leads_changeSession rfl fun _ kept => kept⟩

theorem stays_consume : Stays φ (consume v) := by
  constructor
  intro m a m' isIn run
  unfold consume at run ⊢
  cases run
  cases m with
  | mk setting state nextId nextTag nextRef notes printed source consumed session =>
    cases consumed <;> exact ⟨⟨isIn.state, isIn.session⟩, trivial, rfl⟩

theorem stays_ends (letGo : Bool) :
  Stays φ (modify fun m =>
    let s := m.state
    let c := m.consumed.headD {}
    let s := if letGo then { s with pending := s.pending.diff c } else s
    { m with consumed := m.consumed.tail, state := s } : Analysis Unit)
  := by
  refine .step (fun _ => rfl) (fun _ => rfl) (fun _ => rfl) fun m isIn =>
    ⟨⟨?_, isIn.session⟩, trivial⟩
  dsimp only
  split <;> exact isIn.state

instance stays_consumingIf (x : Analysis (α × Bool)) [Stays φ x] : Stays φ (consumingIf x) := by
  unfold consumingIf
  refine .both .aside fun _ _ => .after fun p _ => .both (stays_ends _) fun _ _ => inferInstance

instance stays_consuming (x : Analysis α) [Stays φ x] : Stays φ (consuming x) := by
  unfold consuming
  exact @stays_consumingIf _ _ _ _ (.after fun _ _ => inferInstance)

instance (x : Analysis α) [Stays φ x] : Stays φ (untraced x) := by
  unfold untraced
  exact .after fun _ _ => .after fun _ _ => .after fun _ _ => inferInstance

end

/-! ### Computations without states among their results -/

def staying (φ : Spot) : Discipline where
  Holds {α} x := @Leads α (noStates α) φ φ x
  pure _ _ _ _ isIn run := by
    cases run
    exact ⟨isIn, trivial, rfl⟩
  fail _ _ _ _ _ run := by cases run
  bind first rest := first.bind fun a _ => rest a
  options _ _ _ isIn run := by
    cases run
    exact ⟨isIn, trivial, rfl⟩
  look others rest m a m' isIn run := by
    obtain ⟨isIn', fine, level⟩ := rest m m a m' isIn run
    refine ⟨isIn', fine, ?_⟩
    rw [← others m m.setting.level m.consumed] at level
    exact level

theorem Stays.obeys {x : Analysis α} (stays : Stays φ x) : Obeys (staying φ) x := by
  constructor
  intro m a m' isIn run
  obtain ⟨isIn', -, level⟩ := stays.leads m a m' isIn run
  exact ⟨isIn', trivial, level⟩

instance [Fine φ s] : Stays φ (collectIn s) := by
  unfold collectIn
  exact .after fun _ _ => .both .aside fun _ _ => inferInstance

instance : Local (staying φ)
  where
  reads _ _ := Stays.obeys .aside
  writes _ _ _ _ := Stays.obeys .aside
  newId := Stays.obeys .aside
  newRefs _ := Stays.obeys .aside
  scene := Stays.obeys .aside
  print _ := Stays.obeys .aside
  nodeId _ := Stays.obeys .aside
  setAttr _ _ _ := Stays.obeys .aside
  consume v := (stays_consume v).obeys
  begins := Stays.obeys .aside
  ends letGo := (stays_ends letGo).obeys
  changeState scopes := by
    refine (stays_changeState fun s isAt notBottom => ?_).obeys
    obtain ⟨bottom, lref, frames⟩ := scopes s
    exact (Prod.ext lref frames).trans (isAt (bottom.symm.trans notBottom))
  giveUp := stays_toBottom.obeys
  changeSession _ _ _ _ _ := ⟨leads_changeSession rfl fun _ kept => kept⟩
  collect := by
    unfold Analysis.collect
    exact (Stays.after fun s _ => .after fun _ _ => inferInstance).obeys

instance : Noting (staying φ) := .of_setNote fun _ _ _ => Stays.obeys .aside

instance : Comparing (staying φ)
  := ⟨obeys_compareValues_of fun _ => Stays.obeys .aside⟩

abbrev confinement (φ : Spot) : Congruence where
  Kept := staying φ
  Rel x _ := (staying φ).Holds x
  passive _ obeys := obeys.holds
  bind := (staying φ).bind
  effect := leads_changeSession rfl fun _ kept => kept

instance (priority := low) stays_of_related [Stateless α] (x : Analysis α)
    [related : (confinement φ).Related x x] : Stays φ x
  := by
  constructor
  intro m a m' isIn run
  obtain ⟨isIn', -, level⟩ := related.rel m a m' isIn run
  exact ⟨isIn', Stateless.fine φ a, level⟩

end Analysis

end ScriptLens
