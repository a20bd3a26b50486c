import ScriptLens.Proofs.Scope.Flow

/-!
# Calls return to their scopes

A function is entered in a scope of its own, above those of its callers, and returns in it.
-/

namespace ScriptLens

def Spot.entered (φ : Spot) (l : Nat) : Spot :=
  { scope := l, frames := φ.frames ++ [φ.scope], returned := (some l, φ.frames ++ [φ.scope])
    broken := φ.broken, continued := φ.continued }

def Spot.fresh (φ : Spot) : Spot :=
  { φ with returned := φ.here, broken := φ.here, continued := φ.here }

def Callee.isPlaced : Callee → Bool
  | .object o => o.body.all (Tree.placed {})
  | _ => true

def Machine.spot (m : Machine) (l : Nat) : Spot where
  scope := l
  frames := m.state.frames
  returned := m.session.returned.scopes
  broken := m.session.broken.scopes
  continued := m.session.continued.scopes

theorem Machine.in_spot {m : Machine} {l : Nat}
    (there : m.state.isBottom = false → m.state.lref = some l) : m.In (m.spot l)
  := ⟨fun notBottom => Prod.ext (there notBottom) rfl, fun _ => rfl, fun _ => rfl, fun _ => rfl⟩

namespace Analysis

set_option synthInstance.maxSize 100000

variable {φ : Spot} (r : Engine) [Calm r] (t : Tree)

/-! ### Calls -/

section

variable {m m' : Machine} (o : Obj) (body : Tree) (site : Option Tree) (args : List Value)
  (this : Receiver)

theorem enterFunction_in (isIn : m.In φ) (returned : m.session.returned.isBottom = true)
    (run : enterFunction o args this m = .ok () m') :
  m'.In (φ.entered m.nextId) ∧ enterFunction o args this m.level = .ok () m'.level
  := by
  unfold enterFunction at run ⊢
  cases run
  refine ⟨⟨fun notBottom => ?_, fun notBottom => ?_, isIn.session.2⟩, rfl⟩
  · obtain ⟨lref, frames⟩ := Prod.mk.inj (isIn.state notBottom)
    change (some m.nextId, m.state.frames ++ m.state.lref.toList) = _
    rw [lref, frames]
    rfl
  · exact Bool.noConfusion (returned.symm.trans notBottom)

theorem leads_leaveFunction (l : Nat) :
  Leads { φ.entered l with returned := φ.returned } φ leaveFunction
  := by
  intro m a m' isIn run
  rw [leaveFunction, state_bind] at run ⊢
  by_cases bottom : m.state.isBottom = true
  · rw [if_pos bottom] at run
    obtain ⟨-, rfl⟩ := pure_eq_ok.1 run
    rw [if_pos (show m'.level.state.isBottom = true from bottom)]
    exact ⟨⟨fun notBottom => Bool.noConfusion (bottom.symm.trans notBottom), isIn.session⟩, trivial,
      rfl⟩
  · obtain ⟨-, frames⟩ := Prod.mk.inj (isIn.state (Bool.eq_false_iff.2 bottom))
    have last : m.state.frames.getLast? = some φ.scope := by
      rw [frames]
      exact List.getLast?_concat
    have rest : m.state.frames.dropLast = φ.frames := by
      rw [frames]
      exact List.dropLast_concat
    rw [if_neg bottom, last] at run
    cases run
    rw [if_neg (show ¬m.level.state.isBottom = true from bottom),
      show m.level.state.frames.getLast? = some φ.scope from last]
    exact ⟨⟨fun _ => Prod.ext rfl rest, isIn.session⟩, trivial, rfl⟩

theorem callBody_in {v : Value} (run : callBody r o body args this m = .ok v m') (isIn : m.In φ)
    (returned : m.session.returned.isBottom = true) (placed : body.placed {} = true) :
  m'.In (φ.entered m.nextId) ∧ callBody r o body args this m.level = .ok v m'.level
  := by
  obtain ⟨_, m1, entered, run⟩ := bind_eq_ok.1 run
  obtain ⟨isIn1, level1⟩ := enterFunction_in o args this isIn returned entered
  have follow : Stays (φ.entered m.nextId)
      (if o.isExpr then r.expr body else do
        r.exec body false
        return .absent) := by
    have := Calm.exec (r := r) (φ := φ.entered m.nextId) false (Spot.suits_nothing rfl) placed
    infer_instance
  obtain ⟨isIn', -, level'⟩ := follow.leads m1 v m' isIn1 run
  exact ⟨isIn', bind_eq_ok.2 ⟨(), m1.level, level1, level'⟩⟩

theorem leads_endCall (saved : Session) [before : Fine φ saved] (v : Value) (l : Nat) :
  Leads (φ.entered l) φ (endCall o body site saved v)
  := by
  have leave (now : Session) [after : Fine (φ.entered l) now] : Leads (φ.entered l) φ (do
      setState (← (← state).join now.returned)
      changeSession fun s => { s with result := saved.result, returned := saved.returned }
      leaveFunction
      return if o.isExpr then v else now.result : Analysis Value) := by
    have : Fine (φ.entered l) now.returned := ⟨after.fine.1⟩
    refine stays_state.leads.bind fun s _ => (stays_join s now.returned).leads.bind fun u _ =>
      (stays_setState u).leads.bind fun _ _ => ?_
    refine Leads.bind (leads_changeSession (ψ := { φ.entered l with returned := φ.returned }) rfl
      fun s kept => ⟨before.fine.1, kept.2⟩) fun _ _ => ?_
    exact (leads_leaveFunction l).bind fun _ _ => (Stays.pure _).leads
  have record : Leads (φ.entered l) φ (recordCall o body site saved v) := by
    unfold recordCall
    refine Stays.leads.bind fun _ _ => stays_session.leads.bind fun now _ =>
      Stays.leads.bind fun _ _ => Stays.leads.bind fun _ _ => ?_
    cases site with
    | none => exact leave now
    | some t => exact Stays.leads.bind fun _ _ => leave now
  exact record.bind fun _ _ => Stays.leads.bind fun _ _ => (Stays.pure _).leads

theorem stays_callFunction (placed : body.placed {} = true) :
  Stays φ (callFunction r o body site args this)
  := by
  rw [callFunction, beginCall]
  constructor
  intro m v m' isIn run
  obtain ⟨saved, m2, begun, run⟩ := bind_eq_ok.1 run
  obtain ⟨_, m1, noted, begun⟩ := bind_eq_ok.1 begun
  obtain ⟨value, m3, followed, ended⟩ := bind_eq_ok.1 run
  obtain ⟨isIn1, -, level1⟩ := Stays.leads m () m1 isIn noted
  cases begun
  have before : Fine φ m1.session := ⟨isIn1.session⟩
  obtain ⟨isIn3, level3⟩ := callBody_in r o body args this followed
    ⟨isIn1.state, State.at_bottom _, isIn1.session.2⟩ rfl placed
  obtain ⟨isIn', fine, level'⟩ := leads_endCall o body site m1.session value _ m3 v m' isIn3 ended
  refine ⟨isIn', fine, bind_eq_ok.2 ⟨m1.session, _, ?_, bind_eq_ok.2 ⟨value, _, level3, level'⟩⟩⟩
  exact bind_eq_ok.2 ⟨(), m1.level, level1, rfl⟩

theorem stays_invoke (callee : Callee) (placed : callee.isPlaced = true) :
  Stays φ (invoke r callee site args this)
  := by
  unfold invoke
  split
  · infer_instance
  · infer_instance
  · split
    · cases site <;> infer_instance
    · rename_i o _ _ body _ isBody
      rw [Callee.isPlaced, isBody] at placed
      exact stays_callFunction r o body site args this placed
    · infer_instance

end

/-! ### Programs -/

section

instance (l : List Ref) : Stays φ (callDeferred r l) := by
  induction l with
  | nil => unfold callDeferred; infer_instance
  | cons f l ih =>
    unfold callDeferred
    repeat' first | infer_instance | refine .after fun _ _ => ?_

instance (deferred : Nat) (header : State) (round n : Nat) [Fine φ header] :
  Stays φ (settle r deferred header round n)
  := by
  induction n generalizing header round with
  | zero => unfold settle; infer_instance
  | succ n ih =>
    unfold settle deferredFunctions
    repeat' first | infer_instance | refine .after fun _ _ => ?_

theorem stays_runBody (returned : φ.returned = φ.here) (placed : (t.get .body).placed {} = true) :
  Stays φ (runBody r t)
  := by
  have statements := stays_hoistedSequence r (Spot.suits_nothing returned) fun _ =>
    Tree.placed_items placed
  have : Fine φ State.bottom := ⟨State.at_bottom _⟩
  unfold runBody
  infer_instance

theorem stays_runProgram (x : Text) (placed : (t.get .body).placed {} = true) :
  Stays φ (runProgram r t x)
  := by
  have body : Stays φ.fresh (runBody r t) := stays_runBody r t rfl placed
  constructor
  intro m a m' isIn run
  obtain ⟨m1, ended, rfl⟩ := runProgram_eq_ok.1 run
  let m0 : Machine := { m with session := { source := x, isQuiet := true }, source := x }
  have start : m0.In φ.fresh :=
    ⟨isIn.state, State.at_bottom _, State.at_bottom _, State.at_bottom _⟩
  obtain ⟨isIn', fine, level⟩ := body.leads m0 _ _ start ended
  exact ⟨⟨isIn'.state, isIn.session⟩, fine, runProgram_eq_ok.2 ⟨m1.level, level, rfl⟩⟩

end

/-! ### Engines -/

/-- The engine of an analysis that fails where a recursion is cut off, or where code is followed in
which a jump does not lead to anything. -/
def calm : Nat → Engine
  | 0 => engine 0
  | n + 1 =>
    { expr := fun t => settled (evalExpr (calm n) t)
      exec := fun t hoisting => settled (execStatement (calm n) t hoisting)
      invoke := fun callee site args this => settled do
        require callee.isPlaced
        invoke (calm n) callee site args this
      program := fun t text => settled do
        require ((t.get .body).placed {})
        runProgram (calm n) t text }

instance calm_refines (n : Nat) : refinement.Engines (calm n) (engine n) := by
  induction n with
  | zero => exact refinement.engines_zero
  | succ n ih =>
    apply refinement_succ (calm n)
    · exact fun t => .settled (.refl _)
    · exact fun t hoisting inner => .settled inner
    · exact fun callee site args this => .settled (.require (.refl _))
    · exact fun t text => .settled (.require (.refl _))
    · exact fun t => Steady.settled _
    · exact fun callee site args this => Steady.settled _

section

variable {α : Type} [HasStates α]

instance stays_settled (x : Analysis α) [Stays φ x] : Stays φ (settled x) := by
  constructor
  intro m a m' isIn run
  obtain ⟨isIn', fine, level⟩ := Stays.leads m a m' isIn (settled_eq_ok.1 run)
  exact ⟨isIn', fine, settled_eq_ok.2 level⟩

theorem stays_required {b : Bool} {x : Analysis α} (rest : b = true → Stays φ x) :
  Stays φ (do require b; x)
  := by
  unfold require
  split
  · rename_i holds
    exact .both inferInstance fun _ _ => rest holds
  · exact ⟨fun _ _ _ _ run => by cases run⟩

end

instance (n : Nat) : Calm (calm n) := by
  induction n with
  | zero =>
    constructor
    all_goals intros
    all_goals first | exact Stays.fail _ | exact Obeys.fail _
  | succ n ih =>
    constructor
    case expr => intro φ t; exact stays_settled _
    case exec =>
      intro φ j t hoisting suits placed
      have := stays_execStatement (calm n) t suits placed hoisting
      exact stays_settled _
    case declares =>
      intro φ t hoisting declares
      have := stays_execDeclaration (φ := φ) (calm n) t declares hoisting
      exact stays_settled _
    case invoke =>
      intro φ callee site args this
      have := stays_required (φ := φ) (stays_invoke (calm n) site args this callee)
      exact stays_settled _
    case program =>
      intro φ t x
      have := stays_required (φ := φ) (stays_runProgram (calm n) t x)
      exact stays_settled _
    case steadyExpr | steadyInvoke => intros; exact Steady.settled _

def declareNested : Analysis Callee := do
  setState (← State.fresh true)
  let f := "function f(x) \x7b while (u) \x7b if (x) break; g(u); continue; \x7d return x; \x7d"
  let g := "function g(y) \x7b switch (y) \x7b case u: break; case v: return 1; \x7d return 2; \x7d"
  let p ← parseScript (Text.ofString f ++ Text.ofString g) 1
  hoist (engine 30) (p.tree.get .body).items
  return .object (← object 1)

end Analysis

end ScriptLens
