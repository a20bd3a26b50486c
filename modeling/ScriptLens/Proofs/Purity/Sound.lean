import ScriptLens.Proofs.Analysis.Refinement
import ScriptLens.Proofs.Object.Join

/-!
# The flag for effects

A computation of the wary analysis after which no effect is noted started without one, and the
harmless analysis does the same.
-/

namespace ScriptLens

def State.scope? (s : State) : Option Obj := s.lref.bind s.objs.get?

def State.isLocal (s : State) (name : Key) : Bool :=
  s.lref == s.gref || s.scope?.any fun o => o.props.contains name

def State.knowsScope (s : State) : Bool :=
  s.lref == s.gref || s.scope?.any fun o => o.missing == .isUndefined

def Callee.isPureNative : Callee → Bool
  | .object o => o.native.isSome && o.isPure
  | _ => false

def Callee.isHarmless : Callee → Bool
  | .object o => if o.native.isSome then o.isPure else o.body.isSome
  | _ => false

namespace Analysis

mutual

def awaited : Tree → Tree
  | .node _ .awaitExpression as => awaitedArgument as
  | t => t

def awaitedArgument : List (Attr × Tree) → Tree
  | [] => .null
  | (a, t) :: l => if a == .argument then awaited t else awaitedArgument l

end

theorem awaited_of_ne {t : Tree} (other : t.kind ≠ .awaitExpression) : awaited t = t := by
  unfold awaited
  split
  · exact absurd rfl other
  · rfl

theorem evalAwaited_eq (r : Engine) (t : Tree) :
  evalAwaited r t = if (awaited t).isNull then return .top else evalPlain r (awaited t)
  := by
  refine awaited.induct
    (fun t => evalAwaited r t = if (awaited t).isNull then return .top else evalPlain r (awaited t))
    (fun as => evalArgument r as = if (awaitedArgument as).isNull then return .top
      else evalPlain r (awaitedArgument as)) ?awaiting ?other ?none ?argument ?next t
  case awaiting => intro i as ih; rw [evalAwaited, awaited]; exact ih
  case other =>
    intro t notAwait
    have same : awaited t = t := by
      unfold awaited
      split
      · exact (notAwait _ _ rfl).elim
      · rfl
    rw [same]
    unfold evalAwaited
    split
    · exact (notAwait _ _ rfl).elim
    · rfl
  case none => rw [evalArgument, awaitedArgument]; rfl
  case argument =>
    intro a t l found ih
    rw [evalArgument, awaitedArgument, if_pos found, if_pos found]
    exact ih
  case next =>
    intro a t l other ih
    rw [evalArgument, awaitedArgument, if_neg other, if_neg other]
    exact ih

def target? (t : Tree) : Option Tree :=
  match (awaited t).kind with
  | .assignmentExpression => some ((awaited t).get .left)
  | .updateExpression => some ((awaited t).get .argument)
  | _ => none

/-- Whether an expression, evaluated to a state, has written to nothing but a local variable. -/
def wroteLocally (t : Tree) (s : State) : Bool :=
  s.isBottom || (target? t).all fun u => u.kind == .identifier && s.isLocal (nameKey (u.get .name))

/-- The engine that fails at what may have an effect on others. -/
def harmless : Nat → Engine
  | 0 => engine 0
  | n + 1 =>
    { expr := fun t => do
        let v ← evalExpr (harmless n) t
        require (wroteLocally t (← state))
        return v
      exec := fun t hoisting => do
        require (t.kind != .classDeclaration)
        execStatement (harmless n) t hoisting
      invoke := fun callee site args this => do
        require callee.isHarmless
        invoke (harmless n) callee site args this
      program := fun _ _ => fail .unfinished }

/-- The engine of an analysis that fails where the flag for effects misses one. -/
def wary : Nat → Engine
  | 0 => engine 0
  | n + 1 =>
    { expr := fun t => settled do
        let v ← evalExpr (wary n) t
        let s ← state
        require ((target? t).isNone || s.isBottom || s.knowsScope)
        return v
      exec := fun t hoisting => settled do
        require (t.kind != .classDeclaration)
        execStatement (wary n) t hoisting
      invoke := fun callee site args this => settled do
        require (!callee.isPureNative || (← session).isPure)
        invoke (wary n) callee site args this
      program := fun t text => settled do
        require !(← session).isPure
        runProgram (wary n) t text }

/-! ### The wary analysis is the analysis -/

theorem Refines.ensure {α : Type} {x : Analysis α} {b : α → State → Bool} :
  Refines (do
    let a ← x
    Analysis.require (b a (← state))
    return a) x
  := by
  intro m a m' run
  obtain ⟨c, m1, first, run⟩ := bind_eq_ok.1 run
  rw [state_bind] at run
  obtain ⟨_, m2, passed, after⟩ := bind_eq_ok.1 run
  obtain ⟨-, rfl⟩ := require_eq_ok.1 passed
  cases after
  exact first

theorem Refines.session {α : Type} {x y : Analysis α} {b : Session → Bool} (inner : Refines x y) :
  Refines (do
    Analysis.require (b (← session))
    x) y
  := .look (fun _ => rfl) fun _ => .require inner

instance (n : Nat) : refinement.Engines (wary n) (engine n) := by
  induction n with
  | zero => exact refinement.engines_zero
  | succ n ih =>
    apply refinement_succ (wary n)
    · exact fun t => .settled .ensure
    · exact fun t hoisting inner => .settled (.require inner)
    · exact fun callee site args this => .settled (.session (.refl _))
    · exact fun t text => .settled (.session (.refl _))
    · exact fun t => Steady.settled _
    · exact fun callee site args this => Steady.settled _

end Analysis

theorem Props.contains_set (ps : Props) (k : Key) (v : Value) : (ps.set k v).contains k = true := by
  rw [contains, get?_set, if_pos (Key.same_iff.2 rfl)]
  rfl

theorem Obj.contains_setMember {o : Obj} {k : Key} {v : Value}
    (known : (o.setMember (some k) v).missing = .isUndefined) :
  (o.setMember (some k) v).props.contains k = true
  := by
  have shown : (o.missing == .isTop) = false := by
    cases missing : o.missing with
    | isUndefined => rfl
    | isTop =>
      rw [setMember] at known
      simp only [missing, beq_self_eq_true, if_true] at known
      split at known
      · rw [missing] at known
        cases known
      · rw [put] at known
        change o.missing = _ at known
        rw [missing] at known
        cases known
  rw [setMember, shown]
  apply Props.contains_set

theorem State.localId_eq_ok {s : State} {l : Nat} (found : s.localId = .ok l) :
  s.lref = some l ∧ ∃ o, s.objs.get? l = some o
  := by
  unfold localId at found
  obtain ⟨i, isScope, found⟩ := except_bind_eq_ok.1 found
  obtain ⟨o, isObj, found⟩ := except_bind_eq_ok.1 found
  cases found
  exact ⟨scopeId_eq_ok isScope, o, obj_eq_ok isObj⟩

def State.WroteLocally (s : State) (t : Tree) : Prop :=
  s.isBottom = true ∨ t.kind = .identifier ∧
    (s.knowsScope = true → s.isLocal (Analysis.nameKey (t.get .name)) = true)

namespace Analysis

variable {α β : Type} {m m' : Machine}

/-- If the first computation ends with no effect noted, there was none before, and the second one
does the same. -/
def Sound (x y : Analysis α) : Prop :=
  ∀ m a m', x m = .ok a m' → m'.session.isPure = true →
    m.session.isPure = true ∧ y m = .ok a m'

namespace Sound

theorem passive (x : Analysis α) [Obeys (keeping Machine.Same) x] : Sound x x := by
  intro m a m' run pure
  rw [← (Passive.same run).isPure]
  exact ⟨pure, run⟩

theorem bind {x y : Analysis α} {f g : α → Analysis β} (first : Sound x y)
    (rest : ∀ a, Sound (f a) (g a)) : Sound (x >>= f) (y >>= g)
  := by
  intro m b m' run pure
  obtain ⟨a, m1, run1, run2⟩ := bind_eq_ok.1 run
  obtain ⟨pure1, same2⟩ := rest a m1 b m' run2 pure
  obtain ⟨pure0, same1⟩ := first m a m1 run1 pure1
  exact ⟨pure0, bind_eq_ok.2 ⟨a, m1, same1, same2⟩⟩

theorem onState {s : State} {x y : Analysis α} (inner : Sound x y) :
  Sound (onState s x) (onState s y)
  := by
  intro m p m' run pure
  obtain ⟨m1, ended, value, rfl⟩ := onState_eq_ok run
  obtain ⟨before, same⟩ := inner _ _ _ ended pure
  obtain ⟨a, s'⟩ := p
  obtain rfl : s' = m1.state := value
  refine ⟨before, ?_⟩
  rw [Analysis.onState, same]

theorem catchUnwind {x y : Analysis α} [Steady x] (inner : Sound x y) :
  Sound (catchUnwind x) (catchUnwind y)
  := by
  intro m a m' run pure
  rw [Analysis.catchUnwind] at run ⊢
  split at run
  · rename_i ended
    cases run
    obtain ⟨before, same⟩ := inner _ _ _ ended pure
    rw [same]
    exact ⟨before, rfl⟩
  · rename_i abandoned
    exact absurd abandoned Steady.steady
  · cases run

theorem effect {y : Analysis Unit} : Sound noteEffect y := by
  intro m a m' run pure
  cases run
  cases pure

end Sound

abbrev soundness : Congruence where
  Rel := Sound
  passive := Sound.passive
  bind := Sound.bind
  effect := Sound.effect

instance : soundness.Broad
  where
  elsewhere _ := Sound.onState
  attempt := Sound.catchUnwind

instance : soundness.Forgetful
  where
  forgets s := by
    intro m a m' run pure
    cases run
    exact ⟨pure, rfl⟩
  counts := inferInstance

instance : soundness.Nesting
  where
  enters i := by
    exact Sound.passive _
  leaves _ := Sound.passive _

/-! ### Calls -/

section

variable (r r' : Engine) [soundness.Engines r r']

variable {o : Obj} {body t : Tree} {args : List Value} {this : Receiver} {site source : Option Tree}
    {v : Value} {s : Slot} {n : NoteName} {w : Note}

instance : soundness.Related (callBody r o body args this) (callBody r' o body args this)
  := by unfold callBody; infer_instance

theorem callFunction_harmless (run : callFunction r o body site args this m = .ok v m') :
  ∃ saved m1 w m2, beginCall o body site m = .ok saved m1 ∧
    endCall o body site saved w m2 = .ok v m' ∧
    (m2.session.isPure = true → callFunction r' o body site args this m = .ok v m')
  := by
  rw [callFunction] at run
  obtain ⟨saved, m1, begun, run⟩ := bind_eq_ok.1 run
  obtain ⟨w, m2, followed, ended⟩ := bind_eq_ok.1 run
  refine ⟨saved, m1, w, m2, begun, ended, fun pure => ?_⟩
  have related : soundness.Related (callBody r o body args this) (callBody r' o body args this) :=
    inferInstance
  rw [callFunction]
  exact bind_eq_ok.2 ⟨saved, m1, begun,
    bind_eq_ok.2 ⟨w, m2, (related.rel m1 w m2 followed pure).2, ended⟩⟩

instance :
  soundness.Related (callFunction r o body site args this) (callFunction r' o body site args this)
  := by
  constructor
  intro m v m' run pure
  obtain ⟨saved, m1, w, m2, begun, ended, same⟩ := callFunction_harmless r r' run
  rw [endCall_isPure ended, (beginCall_eq_ok begun).1] at pure
  obtain ⟨before, after⟩ := Bool.and_eq_true_iff.1 pure
  exact ⟨before, same after⟩

theorem sound_callUnknown (this : Receiver) {y : Analysis Value} : Sound (callUnknown this) y := by
  intro m v m' run pure
  suffices noted : m'.session.isPure = false by
    rw [noted] at pure
    cases pure
  unfold callUnknown at run
  cases this with
  | unbound =>
    cases run
    rfl
  | prim p => cases run
  | object i =>
    obtain ⟨o, m1, found, run⟩ := bind_eq_ok.1 run
    cases run
    rfl

theorem sound_callNative (o : Obj) (f : Native) (site : Option Tree) (args : List Value)
    (this : Receiver)
    (run : (do
      changeSession fun s => { s with isPure := o.isPure }
      if let some t := site then setNote t .calleeIsPure (.flag o.isPure)
      callNative r f site this args : Analysis Value) m = .ok v m')
    (pure : m'.session.isPure = true) :
  o.isPure = true ∧
    (do
      changeSession fun s => { s with isPure := o.isPure }
      if let some t := site then setNote t .calleeIsPure (.flag o.isPure)
      callNative r' f site this args : Analysis Value) m = .ok v m'
  := by
  have related : Sound
      (do
        if let some t := site then setNote t .calleeIsPure (.flag o.isPure)
        callNative r f site this args)
      (do
        if let some t := site then setNote t .calleeIsPure (.flag o.isPure)
        callNative r' f site this args) := by
    have inner : soundness.Related (callNative r f site this args) (callNative r' f site this args)
      := inferInstance
    cases site with
    | none => exact inner.rel
    | some t => exact (Sound.passive (setNote t _ _)).bind fun _ => inner.rel
  rw [changeSession_bind] at run ⊢
  exact related _ v m' run pure

/-- A call, if built-in functions without effects are called only when no effect is noted. -/
theorem sound_invoke (callee : Callee) (site : Option Tree) (args : List Value) (this : Receiver) :
  Sound
    (do
      require (!callee.isPureNative || (← session).isPure)
      invoke r callee site args this)
    (do
      require callee.isHarmless
      invoke r' callee site args this)
  := by
  intro m v m' run pure
  rw [session_bind] at run
  obtain ⟨_, m1, passed, called⟩ := bind_eq_ok.1 run
  obtain ⟨unnoted, rfl⟩ := require_eq_ok.1 passed
  clear run passed
  suffices same : m1.session.isPure = true ∧ callee.isHarmless = true ∧
      invoke r' callee site args this m1 = .ok v m' from
    ⟨same.1, bind_eq_ok.2 ⟨(), m1, require_eq_ok.2 ⟨same.2.1, rfl⟩, same.2.2⟩⟩
  cases callee with
  | unknown => exact absurd (sound_callUnknown this (y := fail .unfinished) m1 v m' called pure).2 nofun
  | nothing =>
    cases called
    cases pure
  | object o =>
    simp only [invoke] at called ⊢
    cases native : o.native with
    | some f =>
      rw [native] at called
      obtain ⟨isPure, same⟩ := sound_callNative r r' o f site args this called pure
      have before : m1.session.isPure = true := by
        simpa [Callee.isPureNative, native, isPure] using unnoted
      exact ⟨before, by simp [Callee.isHarmless, native, isPure], same⟩
    | none =>
      rw [native] at called
      cases isBody : o.body with
      | none =>
        rw [isBody] at called
        exact absurd (sound_callUnknown this (y := fail .unfinished) m1 v m' called pure).2 nofun
      | some body =>
        rw [isBody] at called
        have related : soundness.Related (callFunction r o body site args this)
          (callFunction r' o body site args this) := inferInstance
        obtain ⟨before, same⟩ := related.rel m1 v m' called pure
        exact ⟨before, by simp [Callee.isHarmless, native, isBody], same⟩

/-! ### Assignments -/

set_option synthInstance.maxSize 100000 in
instance : Passive (expose s source v)
  := by unfold expose; split <;> infer_instance

theorem expose_local {l : Nat} {k : Option Key}
    (run : expose { holder := some (.inl l), key := k, isMember := false } source v m = .ok () m') :
  m'.state = m.state
  := by
  cases source with
  | none =>
    cases run
    rfl
  | some e =>
    obtain ⟨n, m1, noted, rest⟩ := bind_eq_ok.1 run
    obtain ⟨-, rfl⟩ := EStateM.Result.ok.inj noted
    split at rest
    · obtain ⟨-, rfl⟩ := EStateM.Result.ok.inj rest
      rfl
    · obtain ⟨-, rfl⟩ := EStateM.Result.ok.inj rest
      rfl

instance : Passive (writeSlot s v)
  := by unfold writeSlot; split <;> infer_instance

def nameSlot (t : Tree) : Analysis Slot := do
  let key := nameKey (t.get .name)
  let i ← (← state).lookup key
  if i != (← localId) then changeSession fun s => { s with isPure := false }
  return { holder := some (.inl i), key := some key, isMember := false }

omit [soundness.Engines r r'] in
theorem slotWithin_succ (n : Nat) (t : Tree) :
  slotWithin r (n + 1) t =
    if t.kind = .identifier then nameSlot t
    else if t.kind = .memberExpression then do
      noteEffect
      memberWithin r n t
    else fail (.badValue "Invalid assignment left type")
  := by
  unfold slotWithin
  split
  · rename_i name
    rw [if_pos name]
    rfl
  · rename_i member
    rw [if_neg (by simp [member]), if_pos member]
    rfl
  · rename_i other1 other2
    rw [if_neg other1, if_neg other2]

theorem nameSlot_local (run : nameSlot t m = .ok s m') (pure : m'.session.isPure = true) :
  m' = m ∧ ∃ l o, m.state.lref = some l ∧ m.state.objs.get? l = some o ∧
    s = { holder := some (.inl l), key := some (nameKey (t.get .name)), isMember := false }
  := by
  rw [nameSlot, state_bind] at run
  obtain ⟨i, -, next⟩ := lift_except_bind_eq_ok.1 run
  rw [localId, bind_assoc, state_bind] at next
  obtain ⟨l, isLocal, after⟩ := lift_except_bind_eq_ok.1 next
  obtain ⟨isScope, o, present⟩ := State.localId_eq_ok isLocal
  split at after
  · cases after
    cases pure
  · rename_i same
    obtain rfl : i = l := by simpa using same
    cases after
    exact ⟨rfl, i, o, isScope, present, rfl⟩

include r'

theorem slot_local (run : slot r t m = .ok s m') (pure : m'.session.isPure = true) :
  t.kind = .identifier ∧ m' = m ∧ ∃ l o, m.state.lref = some l ∧ m.state.objs.get? l = some o ∧
    s = { holder := some (.inl l), key := some (nameKey (t.get .name)), isMember := false }
  := by
  change slotWithin r (3 * chainLength t + 2 + 1) t m = .ok s m' at run
  rw [slotWithin_succ] at run
  split at run
  · rename_i isName
    exact ⟨isName, nameSlot_local run pure⟩
  · split at run
    · obtain ⟨_, m1, noted, found⟩ := bind_eq_ok.1 run
      obtain ⟨-, members, -⟩ := Congruence.related_slots soundness r r' (3 * chainLength t + 2)
      have before := ((members t).rel _ _ _ found pure).1
      exact absurd (Sound.effect (y := fail .unfinished) _ _ _ noted before).2 nofun
    · cases run

theorem assign_local (run : assign r t source v m = .ok () m') (pure : m'.session.isPure = true) :
  t.kind = .identifier ∧
    (m'.state.knowsScope = true → m'.state.isLocal (nameKey (t.get .name)) = true)
  := by
  rw [assign] at run
  obtain ⟨s, m1, found, rest⟩ := bind_eq_ok.1 run
  obtain ⟨_, m2, exposed, written⟩ := bind_eq_ok.1 rest
  have before : m1.session.isPure = true := by
    rw [← (Passive.same exposed).isPure, ← (Passive.same written).isPure]
    exact pure
  obtain ⟨isName, rfl, l, o, isScope, present, rfl⟩ := slot_local r r' found before
  refine ⟨isName, fun known => ?_⟩
  have unchanged : m2.state = m1.state := expose_local exposed
  cases written
  -- The scope lists the name that was put into it.
  have scope (f : Obj → Obj) : (m2.state.updateObj l f).scope? = some (f o) := by
    rw [State.scope?, State.updateObj, unchanged, isScope, Option.bind_some, Heap.lookup_update,
      if_pos rfl, present]
    rfl
  rcases Bool.or_eq_true_iff.1 known with isGlobal | shown
  · exact Bool.or_eq_true_iff.2 (.inl isGlobal)
  · apply Bool.or_eq_true_iff.2 (.inr ?_)
    change (m2.state.updateObj l _).scope?.any _ = true at shown ⊢
    rw [scope, Option.any_some] at shown ⊢
    exact Obj.contains_setMember (beq_iff_eq.1 shown)

theorem evalAssignment_local (run : evalAssignment r t m = .ok v m')
    (pure : m'.session.isPure = true) : m'.state.WroteLocally (t.get .left)
  := by
  obtain ⟨m2, inner, rfl⟩ := consuming_eq_ok run
  change m2.state.WroteLocally _
  dsimp only at inner
  split at inner
  · obtain ⟨w, m3, right, rest⟩ := bind_eq_ok.1 inner
    rw [isBottom_bind] at rest
    split at rest
    · rename_i bottom
      cases rest
      exact .inl bottom
    · obtain ⟨_, m4, consumed, rest⟩ := bind_eq_ok.1 rest
      obtain ⟨_, m5, assigned, rest⟩ := bind_eq_ok.1 rest
      cases rest
      exact .inr (assign_local r r' assigned pure)
  · obtain ⟨w, m3, left, rest⟩ := bind_eq_ok.1 inner
    obtain ⟨_, m4, consumed, rest⟩ := bind_eq_ok.1 rest
    obtain ⟨w', m5, right, rest⟩ := bind_eq_ok.1 rest
    obtain ⟨_, m6, consumed', rest⟩ := bind_eq_ok.1 rest
    rw [scene_bind, options_bind] at rest
    obtain ⟨result, m7, computed, rest⟩ := bind_eq_ok.1 rest
    obtain ⟨_, m8, assigned, rest⟩ := bind_eq_ok.1 rest
    cases rest
    exact .inr (assign_local r r' assigned pure)

theorem evalUpdate_local (run : evalUpdate r t m = .ok v m') (pure : m'.session.isPure = true) :
  m'.state.WroteLocally (t.get .argument)
  := by
  obtain ⟨m2, inner, rfl⟩ := consuming_eq_ok run
  change m2.state.WroteLocally _
  obtain ⟨w, m3, read, rest⟩ := bind_eq_ok.1 inner
  obtain ⟨_, m4, consumed, rest⟩ := bind_eq_ok.1 rest
  rw [scene_bind] at rest
  obtain ⟨_, m5, consumed', rest⟩ := bind_eq_ok.1 rest
  obtain ⟨_, m6, assigned, rest⟩ := bind_eq_ok.1 rest
  obtain rfl : m2 = m6 := by split at rest <;> exact (pure_eq_ok.1 rest).2
  exact .inr (assign_local r r' assigned pure)

theorem evalAwaited_local {u : Tree} (target : target? t = some u)
    (run : evalAwaited r t m = .ok v m') (pure : m'.session.isPure = true) : m'.state.WroteLocally u
  := by
  rw [evalAwaited_eq] at run
  have shown : (awaited t).isNull = false := by
    cases value : awaited t with
    | null => simp [target?, value, Tree.kind] at target
    | _ => rfl
  simp only [shown, Bool.false_eq_true, if_false] at run
  unfold target? at target
  split at target
  · rename_i assigns
    cases target
    rw [evalPlain, assigns] at run
    exact evalAssignment_local r r' run pure
  · rename_i counts
    cases target
    rw [evalPlain, counts] at run
    exact evalUpdate_local r r' run pure
  · cases target

omit [soundness.Engines r r'] r' in
theorem note_state (run : note t n m = .ok w m') : m'.state = m.state := by
  cases run
  rfl

omit [soundness.Engines r r'] r' in
theorem setNote_state (run : setNote t n w m = .ok () m') : m'.state = m.state := by
  cases run
  rfl

omit [soundness.Engines r r'] r' in
theorem noteValue_state (run : noteValue t v m = .ok () m') : m'.state = m.state := by
  rw [noteValue, options_bind] at run
  obtain ⟨old, m1, noted, rest⟩ := bind_eq_ok.1 run
  obtain ⟨_, m2, written, rest⟩ := bind_eq_ok.1 rest
  rw [← note_state noted, ← setNote_state written]
  rw [session_bind] at rest
  by_cases around : (!m2.session.loops.isEmpty) = true
  · rw [if_pos around] at rest
    obtain ⟨l, m3, noted', rest⟩ := bind_eq_ok.1 rest
    obtain ⟨c, m4, ⟨⟩, rest⟩ := bind_eq_ok.1 rest
    rw [← note_state noted', setNote_state rest]
  · rw [if_neg around] at rest
    cases rest
    rfl

theorem evalExpr_local (run : evalExpr r t m = .ok v m') (pure : m'.session.isPure = true)
    (known : ((target? t).isNone || m'.state.isBottom || m'.state.knowsScope) = true) :
  wroteLocally t m'.state = true
  := by
  cases target : target? t with
  | none => simp [wroteLocally, target]
  | some u =>
    suffices wrote : m'.state.WroteLocally u by
      rw [target] at known
      unfold State.WroteLocally at wrote
      simp only [wroteLocally, target]
      grind
    have notCall : t.kind ≠ .callExpression := by
      intro isCall
      rw [target?, awaited_of_ne (by simp [isCall]), isCall] at target
      cases target
    rw [evalExpr, isBottom_bind] at run
    split at run
    · rename_i bottom
      cases run
      exact .inl bottom
    · split at run
      · rename_i null
        cases t with
        | null => cases target
        | _ => cases null
      · obtain ⟨w, m1, evaluated, rest⟩ := bind_eq_ok.1 run
        obtain ⟨_, m2, noted, rest⟩ := bind_eq_ok.1 rest
        rw [changeState_bind, if_neg (by simpa using notCall)] at rest
        cases rest
        change m2.state.WroteLocally u
        rw [noteValue_state noted]
        apply evalAwaited_local r r' target evaluated
        rw [← (Passive.same noted).isPure]
        exact pure

end

/-! ### Engines -/

theorem Sound.settled {x y : Analysis α} (inner : Sound x y) : Sound (settled x) y
  := fun m a m' run => inner m a m' (settled_eq_ok.1 run)

section

variable (r r' : Engine) [soundness.Engines r r'] (t : Tree)

theorem sound_expr :
  Sound
    (do
      let v ← evalExpr r t
      let s ← state
      require ((target? t).isNone || s.isBottom || s.knowsScope)
      return v)
    (do
      let v ← evalExpr r' t
      require (wroteLocally t (← state))
      return v)
  := by
  intro m v m' run pure
  obtain ⟨w, m1, evaluated, rest⟩ := bind_eq_ok.1 run
  rw [state_bind] at rest
  obtain ⟨_, m2, passed, ended⟩ := bind_eq_ok.1 rest
  obtain ⟨known, rfl⟩ := require_eq_ok.1 passed
  cases ended
  have related : soundness.Related (evalExpr r t) (evalExpr r' t) := inferInstance
  obtain ⟨before, same⟩ := related.rel _ _ _ evaluated pure
  refine ⟨before, bind_eq_ok.2 ⟨v, _, same, ?_⟩⟩
  have wrote := evalExpr_local r r' evaluated pure known
  rw [state_bind]
  exact bind_eq_ok.2 ⟨(), _, require_eq_ok.2 ⟨wrote, rfl⟩, rfl⟩

theorem sound_program (text : Text) {y : Analysis Unit} :
  Sound
    (do
      require !(← session).isPure
      runProgram r t text) y
  := by
  intro m a m' run pure
  rw [session_bind] at run
  obtain ⟨_, m1, passed, rest⟩ := bind_eq_ok.1 run
  obtain ⟨noted, rfl⟩ := require_eq_ok.1 passed
  obtain ⟨m2, -, rfl⟩ := runProgram_eq_ok.1 rest
  rw [show m1.session.isPure = true from pure] at noted
  cases noted

end

/-- Where the wary analysis ends with no effect noted, the harmless analysis does the same. -/
instance (n : Nat) : soundness.Engines (wary n) (harmless n) := by
  induction n with
  | zero => exact soundness.engines_zero
  | succ n ih =>
    refine @.mk _ _ _ ⟨?expr, ?invoke, ?program⟩ ?exec ?steadyExpr ?steadyInvoke
    case expr => intro t; exact (sound_expr _ _ t).settled
    case exec =>
      intro t hoisting
      have related : soundness.Related
          (do require (t.kind != .classDeclaration); execStatement (wary n) t hoisting)
          (do require (t.kind != .classDeclaration); execStatement (harmless n) t hoisting) :=
        inferInstance
      exact Sound.settled related.rel
    case invoke => intro callee site args this; exact (sound_invoke _ _ callee site args this).settled
    case program => intro t text; exact (sound_program _ t text).settled
    case steadyExpr | steadyInvoke => intros; exact Steady.settled _

end Analysis

end ScriptLens
