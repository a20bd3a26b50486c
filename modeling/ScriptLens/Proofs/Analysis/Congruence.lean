import ScriptLens.Proofs.Analysis.Frame

/-!
# Comparing analyses

Two analyses of a program that differ in their engines are compared by a relation between their
computations.
-/

namespace ScriptLens.Analysis

open Analysis

set_option synthInstance.maxSize 100000

variable {α β : Type}

/-! ### Computations that abandon nothing -/

def steady : Discipline where
  Holds x := ∀ m site m', x m ≠ .error (.unwind site) m'
  pure _ _ _ _ run := by cases run
  fail _ _ _ _ run := by cases run
  bind first rest m site m' run := by
    obtain abandoned | ⟨a, m1, -, abandoned⟩ := bind_eq_error.1 run
    · exact first m site m' abandoned
    · exact rest a m1 site m' abandoned
  options _ _ _ run := by cases run
  look _ rest m site m' run := rest m m site m' run

abbrev Steady (x : Analysis α) : Prop := Obeys steady x

theorem Steady.steady {x : Analysis α} [Steady x] {m : Machine} {site : Nat} {m' : Machine} :
  x m ≠ .error (.unwind site) m'
  := Obeys.holds (K := Analysis.steady) m site m'

instance (d : Domain α) : Steady (liftM d : Analysis α) := by
  constructor
  intro m site m' run
  obtain ⟨f, ⟨⟩⟩ := lift_domain_eq_error run

theorem steady_step {x : Analysis α}
    (steps : ∀ m, ∃ a m', x m = .ok a m' := by intro; exact ⟨_, _, rfl⟩) : Steady x
  := by
  constructor
  intro m site m' run
  obtain ⟨a, m1, ended⟩ := steps m
  cases ended.symm.trans run

instance : Local steady
  where
  reads _ _ := steady_step
  writes _ _ _ _ := steady_step
  newId := steady_step
  newRefs _ := steady_step
  scene := steady_step
  print _ := steady_step
  nodeId _ := steady_step
  setAttr _ _ _ := steady_step
  consume _ := steady_step
  begins := steady_step
  ends _ := steady_step
  changeState _ := steady_step
  giveUp := steady_step
  changeSession _ _ _ _ _ := steady_step
  collect := by
    have set (s : State) : Steady (setState s) := steady_step
    have change (f : Session → Session) : Steady (changeSession f) := steady_step
    have domain (d : Domain State) : Steady (ofDomain d) := inferInstanceAs (Steady (liftM d))
    unfold collect collectIn
    infer_instance

instance Steady.arguments (r : Engine) [∀ t, Steady (r.expr t)] (callee : Callee) (l : List Tree) :
  Steady (arguments r callee l)
  := by
  induction l with
  | nil => unfold Analysis.arguments; infer_instance
  | cons t l ih => unfold Analysis.arguments; infer_instance

/-! ### Congruences -/

def noteEffect : Analysis Unit := changeSession fun s => { s with isPure := false }

def isLoop (t : Tree) : Bool :=
  t.kind == .whileStatement || t.kind == .forStatement || t.kind == .forInStatement

/-- A relation between computations that is kept by the ways to put them together; it holds for
computations that obey a discipline. -/
structure Congruence where
  Kept : Discipline := keeping Machine.Same
  [steps : Local Kept]
  [noting : Noting Kept]
  Rel {α : Type} : Analysis α → Analysis α → Prop
  passive {α : Type} (x : Analysis α) [Obeys Kept x] : Rel x x
  bind {α β : Type} {x y : Analysis α} {f g : α → Analysis β} :
    Rel x y → (∀ a, Rel (f a) (g a)) → Rel (x >>= f) (y >>= g)
  effect : Rel noteEffect noteEffect

attribute [instance] Congruence.steps Congruence.noting

def loopNoting (noting : Tree → LoopProgress → Analysis Unit) (t : Tree) (start : Analysis Unit)
    (parts : LoopParts) (patience : Nat) : Analysis Unit := do
  if ← isBottom then return ()
  consuming do
    let saved ← session
    enterLoop t start
    let p ← loopWithin parts (iterationBound (← options) patience) {}
    joinBroken p
    noting t p
    leaveLoop saved

namespace Congruence

variable (c : Congruence)

/-- A relation that is kept where computations are run on other states or are caught. -/
class Broad : Prop where
  [wide : Wide c.Kept]
  elsewhere {α : Type} {x y : Analysis α} (s : State) :
    c.Rel x y → c.Rel (onState s x) (onState s y)
  attempt {α : Type} {x y : Analysis α} [Steady x] :
    c.Rel x y → c.Rel (catchUnwind x) (catchUnwind y)

attribute [instance] Broad.wide

class Related (x y : Analysis α) : Prop where
  rel : c.Rel x y

/-- Two engines that a congruence relates on expressions, calls and programs. -/
class Evaluates (r r' : Engine) : Prop where
  expr (t : Tree) : c.Rel (r.expr t) (r'.expr t)
  invoke (callee : Callee) (site : Option Tree) (args : List Value) (this : Receiver) :
    c.Rel (r.invoke callee site args this) (r'.invoke callee site args this)
  program (t : Tree) (x : Text) : c.Rel (r.program t x) (r'.program t x)

/-- Two engines that a congruence relates, the first of which never abandons anything. -/
class Engines (r r' : Engine) : Prop extends c.Evaluates r r' where
  exec (t : Tree) (hoisting : Bool) : c.Rel (r.exec t hoisting) (r'.exec t hoisting)
  steadyExpr (t : Tree) : Steady (r.expr t)
  steadyInvoke (callee : Callee) (site : Option Tree) (args : List Value) (this : Receiver) :
    Steady (r.invoke callee site args this)

/-- Two engines that a congruence relates; a call whose arguments and execution are related is also
related where it may be abandoned. -/
class Follows (r r' : Engine) : Prop extends c.Evaluates r r' where
  exec (t : Tree) (hoisting : Bool) : c.Rel (r.exec t hoisting) (r'.exec t hoisting)
  attempt (t : Tree) (callee : Callee) (this : Receiver) :
    c.Rel (attemptCall r t callee this) (attemptCall r' t callee this) →
    c.Rel (catchUnwind (attemptCall r t callee this)) (catchUnwind (attemptCall r' t callee this))

/-- Two engines that a congruence relates on the expressions after which states are joined. -/
class Branches (r r' : Engine) : Prop where
  call (t : Tree) (made : Option Nat) : c.Rel (evalCall r t made) (evalCall r' t made)
  conditional (t : Tree) : c.Rel (evalConditional r t) (evalConditional r' t)
  maybe (t : Tree) : c.Rel (maybe r t) (maybe r' t)

instance (priority := low) related_passive (x : Analysis α) [Obeys c.Kept x] : c.Related x x
  := ⟨c.passive x⟩

instance related_bind (x y : Analysis α) (f g : α → Analysis β) [c.Related x y]
    [∀ a, c.Related (f a) (g a)] :
  c.Related (x >>= f) (y >>= g)
  := ⟨c.bind Related.rel fun _ => Related.rel⟩

variable {g : α → Analysis β} {x y : Analysis α} {callee : Callee} {this : Receiver} {v : Value}
    {n : Nat}

instance (f : Failure) {g' : α → Analysis β} : c.Related (fail f >>= g) (fail f >>= g')
  := ⟨c.passive (fail f : Analysis β)⟩

theorem Related.after {c : Congruence} {f : α → Analysis β} [c.Related x y]
    (rest : ∀ a, c.Related (f a) (g a)) : c.Related (x >>= f) (y >>= g)
  := inferInstance

theorem Related.both {c : Congruence} {f : α → Analysis β} (first : c.Related x y)
    (rest : ∀ a, c.Related (f a) (g a)) : c.Related (x >>= f) (y >>= g)
  := .after rest

instance related_ite (p : Prop) [Decidable p] (x x' y y' : Analysis α) [c.Related x y]
    [c.Related x' y'] :
  c.Related (if p then x else x') (if p then y else y')
  := by split <;> infer_instance

theorem Related.otherwise {c : Congruence} {p : Prop} [Decidable p] {x' y' : Analysis α}
    [c.Related x y] (rest : c.Related x' y') : c.Related (if p then x else x') (if p then y else y')
  := inferInstance

instance :
  c.Related (changeSession fun s => { s with isPure := false })
    (changeSession fun s => { s with isPure := false })
  := ⟨c.effect⟩

instance related_consumingIf (x y : Analysis (α × Bool)) [c.Related x y] :
  c.Related (consumingIf x) (consumingIf y)
  := by unfold consumingIf; infer_instance

instance related_consuming (x y : Analysis α) [c.Related x y] :
  c.Related (consuming x) (consuming y)
  := by unfold consuming; infer_instance

instance [c.Related x y] : c.Related (untraced x) (untraced y)
  := by unfold untraced; infer_instance

instance (t : Tree) (x y : Analysis Unit) [c.Related x y] : c.Related (whole t x) (whole t y)
  := by unfold whole; infer_instance

/-! ### Engines -/

instance [c.Broad] (s : State) [c.Related x y] : c.Related (onState s x) (onState s y)
  := ⟨Broad.elsewhere s Related.rel⟩

/-- An engine that never abandons anything follows without further ado. -/
instance (r r' : Engine) [c.Broad] [c.Engines r r'] : c.Follows r r'
  where
  exec := Engines.exec
  attempt t callee this related := by
    have exprs : ∀ t, Steady (r.expr t) := Engines.steadyExpr c r'
    have calls := ‹c.Engines r r'›.steadyInvoke
    have steady : Steady (attemptCall r t callee this) := by unfold attemptCall; infer_instance
    exact Broad.attempt related

theorem engines_zero : c.Engines (engine 0) (engine 0) := by
  refine @.mk _ _ _ ⟨?_, ?_, ?_⟩ ?_ ?_ ?_
  all_goals intros
  all_goals first | exact c.passive (fail _) | exact Obeys.fail _

variable (r r' : Engine) (t : Tree)

instance [c.Follows r r'] (hoisting : Bool) : c.Related (r.exec t hoisting) (r'.exec t hoisting)
  := ⟨Follows.exec t hoisting⟩

section

variable [c.Evaluates r r']

instance : c.Related (r.expr t) (r'.expr t)
  := ⟨Evaluates.expr t⟩

instance (site : Option Tree) (args : List Value) :
  c.Related (r.invoke callee site args this) (r'.invoke callee site args this)
  := ⟨Evaluates.invoke callee site args this⟩

instance (x : Text) : c.Related (r.program t x) (r'.program t x)
  := ⟨Evaluates.program t x⟩

/-! ### Slots -/

theorem related_slots (n : Nat) :
  (∀ t, c.Related (slotWithin r n t) (slotWithin r' n t)) ∧
    (∀ t, c.Related (memberWithin r n t) (memberWithin r' n t)) ∧
    ∀ t v, c.Related (narrowed r n t v) (narrowed r' n t v)
  := by
  induction n with
  | zero =>
    refine ⟨fun t => ?_, fun t => ?_, fun t v => ?_⟩
    · unfold slotWithin; infer_instance
    · unfold memberWithin; infer_instance
    · unfold narrowed; infer_instance
  | succ n ih =>
    obtain ⟨slots, members, narrowings⟩ := ih
    refine ⟨fun t => ?_, fun t => ?_, fun t v => ?_⟩
    · unfold slotWithin
      split <;> infer_instance
    · unfold memberWithin
      repeat refine .after fun _ => ?_
      refine .both ?_ fun _ => ?_
      · split
        · repeat refine .after fun _ => ?_
          split <;> infer_instance
        · split <;> infer_instance
      · split <;> infer_instance
    · unfold narrowed
      split
      · repeat refine .after fun _ => ?_
        split
        · split <;> infer_instance
        · infer_instance
      · infer_instance

instance : c.Related (slot r t) (slot r' t)
  := (related_slots c r r' _).1 t

instance : c.Related (memberSlot r t) (memberSlot r' t)
  := (related_slots c r r' _).2.1 t

instance : c.Related (narrow r t v) (narrow r' t v)
  := (related_slots c r r' _).2.2 t v

instance (source : Option Tree) : c.Related (assign r t source v) (assign r' t source v) := by
  unfold assign expose writeSlot
  refine .after fun s => ?_
  split <;> split <;> infer_instance

/-! ### Arguments -/

instance (l : List Tree) : c.Related (arguments r callee l) (arguments r' callee l) := by
  induction l with
  | nil => unfold arguments; infer_instance
  | cons t l ih => unfold arguments; infer_instance

instance : c.Related (attemptCall r t callee this) (attemptCall r' t callee this)
  := by unfold attemptCall; infer_instance

/-! ### Built-in functions -/

section

variable (site : Option Tree) (a b d : Argument) (v : Value)

variable {f : Ref} {x : Text} {args : List Argument}

instance : c.Related (replacementBy r f x) (replacementBy r' f x) := by
  unfold replacementBy
  dsimp only
  refine .after fun _ => ?_
  split
  · infer_instance
  · refine .after fun _ => ?_
    split <;> infer_instance

instance (l : List Pattern.Found) : c.Related (replacementsBy r f x l) (replacementsBy r' f x l)
  := by
  induction l with
  | nil => unfold replacementsBy; infer_instance
  | cons m l ih => unfold replacementsBy; infer_instance

instance (e : Regexp) (all : Bool) :
  c.Related (replacePattern r a e v all) (replacePattern r' a e v all)
  := by
  unfold replacePattern
  refine .after fun _ => ?_
  split <;> infer_instance

instance (p : Prim) : c.Related (replaceText r a p v) (replaceText r' a p v) := by
  unfold replaceText
  repeat refine .after fun _ => ?_
  split
  · infer_instance
  · refine .both ?_ fun _ => ?_
    · refine .after fun _ => ?_
      split <;> infer_instance
    · split <;> infer_instance

instance : c.Related (nativeReplace r a b d) (nativeReplace r' a b d) := by
  unfold nativeReplace
  split
  · infer_instance
  · dsimp only
    split
    · repeat refine .after fun _ => ?_
      split <;> infer_instance
    all_goals infer_instance

instance : c.Related (nativeMakeFunction r site args) (nativeMakeFunction r' site args) := by
  unfold nativeMakeFunction
  split
  · infer_instance
  · repeat refine .after fun _ => ?_
    split <;> infer_instance

instance : c.Related (nativeEval r site a) (nativeEval r' site a) := by
  unfold nativeEval
  refine .otherwise ?_
  repeat refine .after fun _ => ?_
  split <;> infer_instance

instance (f : Native) : c.Related (runNative r f site args) (runNative r' f site args) := by
  unfold runNative nativeToText nativeFromCharCode nativeParseInt nativeAssert nativeIndexOf
    nativeSplit nativePointAt nativeSubstr nativeSubstring nativeSlice nativeRegexp nativeTest
  cases f <;> dsimp only
  all_goals repeat' first
    | infer_instance | split | refine .after fun _ => ?_
    | refine .both ?_ fun _ => ?_

instance (f : Native) (this : Receiver) (args : List Value) :
  c.Related (callNative r f site this args) (callNative r' f site this args)
  := by
  unfold callNative
  refine .both ?_ fun _ => ?_
  · split <;> infer_instance
  · dsimp only
    split
    · infer_instance
    · split <;> infer_instance

omit [c.Evaluates r r'] in
instance : c.Related (callUnknown this) (callUnknown this)
  := by unfold callUnknown; split <;> infer_instance

theorem related_invoke_of (callee : Callee) (args : List Value) (this : Receiver)
    [∀ b, c.Related (changeSession fun s => { s with isPure := b })
      (changeSession fun s => { s with isPure := b })]
    [∀ o body, c.Related (callFunction r o body site args this)
      (callFunction r' o body site args this)] :
  c.Related (invoke r callee site args this) (invoke r' callee site args this)
  := by
  unfold invoke
  split
  · infer_instance
  · infer_instance
  · split
    · dsimp only
      split <;> infer_instance
    · infer_instance
    · infer_instance

end

/-! ### Expressions -/

section

variable (l : List Tree)

instance (v : Value) : c.Related (evalSequence r v l) (evalSequence r' v l) := by
  induction l generalizing v with
  | nil => unfold evalSequence; infer_instance
  | cons t l ih => unfold evalSequence; infer_instance

instance (ps : Props) : c.Related (evalProperties r ps l) (evalProperties r' ps l) := by
  induction l generalizing ps with
  | nil => unfold evalProperties; infer_instance
  | cons t l ih =>
    unfold evalProperties
    refine .otherwise ?_
    repeat refine .after fun _ => ?_
    refine .otherwise ?_
    refine .otherwise ?_
    repeat refine .after fun _ => ?_
    split <;> infer_instance

instance : c.Related (evalElements r l) (evalElements r' l) := by
  induction l with
  | nil => unfold evalElements; infer_instance
  | cons t l ih => unfold evalElements; infer_instance

instance : c.Related (evalMember r t) (evalMember r' t) := by
  unfold evalMember
  refine @related_consumingIf _ _ _ _ ?_
  refine .after fun _ => ?_
  split
  · infer_instance
  · split <;> infer_instance
  · infer_instance

section

variable [c.Branches r r']

instance (made : Option Nat) : c.Related (evalCall r t made) (evalCall r' t made)
  := ⟨Branches.call t made⟩

instance : c.Related (evalConditional r t) (evalConditional r' t)
  := ⟨Branches.conditional t⟩

instance : c.Related (maybe r t) (maybe r' t)
  := ⟨Branches.maybe t⟩

instance : c.Related (evalBinary r t) (evalBinary r' t)
  := by unfold evalBinary; dsimp only; infer_instance

instance : c.Related (evalPlain r t) (evalPlain r' t) := by
  unfold evalPlain evalUpdate evalNew evalAssignment evalObject evalArray evalUnary
  split <;> infer_instance

instance : c.Related (evalAwaited r t) (evalAwaited r' t) := by
  -- The induction follows awaiting expressions into their arguments.
  refine evalAwaited.induct (fun t => c.Related (evalAwaited r t) (evalAwaited r' t))
    (fun as => c.Related (evalArgument r as) (evalArgument r' as))
    ?awaiting ?missing ?plain ?none ?argument ?next t
  case awaiting => intro i as ih; unfold evalAwaited; exact ih
  case missing | plain =>
    intro t notAwait null
    unfold evalAwaited
    split
    · exact (notAwait _ _ rfl).elim
    · infer_instance
  case none => unfold evalArgument; infer_instance
  case argument =>
    intro a t l found ih
    unfold evalArgument
    rw [if_pos found, if_pos found]
    exact ih
  case next =>
    intro a t l other ih
    unfold evalArgument
    rw [if_neg other, if_neg other]
    exact ih

instance related_evalExpr : c.Related (evalExpr r t) (evalExpr r' t)
  := by unfold evalExpr; infer_instance

end

end

/-! ### Declarations and conditions -/

section

variable (l : List Tree)

instance (hoisting : Bool) : c.Related (declare r t hoisting) (declare r' t hoisting)
  := by unfold declare; dsimp only; infer_instance

instance (hoisting : Bool) : c.Related (declareAll r hoisting l) (declareAll r' hoisting l) := by
  induction l with
  | nil => unfold declareAll; infer_instance
  | cons t l ih => unfold declareAll; infer_instance

instance (name : Tree) (proto : Obj) : c.Related (methods r name proto l) (methods r' name proto l)
  := by
  induction l generalizing proto with
  | nil => unfold methods; infer_instance
  | cons t l ih =>
    unfold methods
    repeat refine .after fun _ => ?_
    dsimp only
    split
    · infer_instance
    · repeat refine .after fun _ => ?_
      split <;> infer_instance

instance : c.Related (declareClass r t) (declareClass r' t) := by
  have put (i j : Nat) (o : Obj) :
      Obeys c.Kept (changeState fun s => (s.putObj i {}).putObj j o) := obeys_changeState
  unfold declareClass
  infer_instance

instance (other : Tree) (same : Bool) :
  c.Related (narrowSide r t other same) (narrowSide r' t other same)
  := by
  unfold narrowSide
  refine .after fun _ => ?_
  split <;> infer_instance

instance (holds : Bool) : c.Related (narrowTo r t holds) (narrowTo r' t holds) := by
  unfold narrowTo
  refine .after fun _ => ?_
  split
  · infer_instance
  · split
    · infer_instance
    · refine .after fun _ => ?_
      split <;> infer_instance

instance : c.Related (execExpression r t) (execExpression r' t)
  := by unfold execExpression; dsimp only; infer_instance

end

end

variable [c.Broad] [c.Follows r r']

/-! ### Calls and branches -/

instance {site : Nat} :
  c.Related (untilStable r t callee this site n) (untilStable r' t callee this site n)
  := by
  have attempt : c.Related (catchUnwind (attemptCall r t callee this))
      (catchUnwind (attemptCall r' t callee this)) :=
    ⟨Follows.attempt t callee this Related.rel⟩
  induction n with
  | zero => unfold untilStable; infer_instance
  | succ n ih =>
    unfold untilStable
    refine .both ?_ fun _ => ?_
    · refine .after fun _ => ?_
      split <;> infer_instance
    · refine .after fun _ => ?_
      refine .both attempt fun _ => ?_
      split <;> infer_instance

theorem related_evalCall (made : Option Nat) : c.Related (evalCall r t made) (evalCall r' t made)
  := by
  unfold evalCall
  refine .after fun _ => ?_
  dsimp only
  refine .otherwise ?_
  repeat refine .after fun _ => ?_
  refine .both ?_ fun _ => ?_
  · split <;> infer_instance
  refine .both ?_ fun _ => ?_
  · split <;> infer_instance
  refine .both ?_ fun _ => ?_
  · split <;> infer_instance
  refine .after fun _ => ?_
  split <;> infer_instance

instance : c.Branches r r'
  where
  call t made := (related_evalCall c r r' t made).rel
  conditional t := by
    have : c.Related (evalConditional r t) (evalConditional r' t) := by
      unfold evalConditional
      infer_instance
    exact Related.rel
  maybe t := by
    have : c.Related (maybe r t) (maybe r' t) := by
      unfold maybe
      infer_instance
    exact Related.rel

/-! ### Statements -/

section

variable (l : List Tree)

instance : c.Related (sequence r l) (sequence r' l) := by
  induction l with
  | nil => unfold sequence; infer_instance
  | cons t l ih => unfold sequence; infer_instance

instance : c.Related (hoist r l) (hoist r' l) := by
  induction l with
  | nil => unfold hoist; infer_instance
  | cons t l ih => unfold hoist; infer_instance

instance : c.Related (hoistedSequence r l) (hoistedSequence r' l)
  := by unfold hoistedSequence; infer_instance

instance : c.Related (takeCase r t) (takeCase r' t)
  := by unfold takeCase; infer_instance

instance (v : Value) : c.Related (takeCases r v l) (takeCases r' v l) := by
  induction l with
  | nil => unfold takeCases; infer_instance
  | cons t l ih =>
    unfold takeCases
    repeat refine .after fun _ => ?_
    split <;> infer_instance

instance : c.Related (execSwitch r t) (execSwitch r' t)
  := by unfold execSwitch; dsimp only; infer_instance

instance : c.Related (execBoth r t) (execBoth r' t)
  := by unfold execBoth; infer_instance

instance : c.Related (execIf r t) (execIf r' t) := by
  unfold execIf
  refine @related_consuming _ _ _ _ ?_
  repeat refine .after fun _ => ?_
  split <;> infer_instance

instance : c.Related (execReturn r t) (execReturn r' t) := by
  unfold execReturn
  refine .after fun v => ?_
  dsimp only
  have rest (old : Session) : Obeys c.Kept (do
      match old.result, v with
      | .absent, .absent => fail .missingPart
      | .bot, .absent => fail .missingPart
      | .absent, _ => changeSession fun s => { s with result := v }
      | .bot, _ => changeSession fun s => { s with result := v }
      | _, .bot => pure ()
      | _, _ => if !old.result.equal v then changeSession fun s => { s with result := .top }
      let returned ← (← session).returned.join (← state)
      changeSession fun s => { s with returned }
      changeState State.toBottom) := by
    dsimp only
    split <;> infer_instance
  infer_instance

omit [c.Broad] in
theorem related_loopStatement {r r' : Engine} {t : Tree} (hoisting : Bool) (isLoop : isLoop t = true)
    (loops : ∀ isForIn, c.Related (execLoop r t isForIn) (execLoop r' t isForIn)) :
  c.Related (execStatement r t hoisting) (execStatement r' t hoisting)
  := by
  unfold execStatement
  refine .after fun _ => ?_
  refine .otherwise ?_
  refine .after fun _ => ?_
  unfold Analysis.isLoop at isLoop
  split
  case h_5 | h_6 | h_7 => infer_instance
  all_goals simp_all

theorem related_execStatement (hoisting : Bool) (goesOn : t.kind ≠ .continueStatement)
    (loops : isLoop t = true →
      ∀ isForIn, c.Related (execLoop r t isForIn) (execLoop r' t isForIn)) :
  c.Related (execStatement r t hoisting) (execStatement r' t hoisting)
  := by
  by_cases isLoop : isLoop t = true
  · exact related_loopStatement c hoisting isLoop (loops isLoop)
  unfold execStatement
  refine .after fun _ => ?_
  refine .otherwise ?_
  refine .after fun _ => ?_
  split
  case h_5 | h_6 | h_7 => simp_all [Analysis.isLoop]
  case h_13 => contradiction
  all_goals infer_instance

end

/-! ### Programs -/

instance (l : List Ref) : c.Related (callDeferred r l) (callDeferred r' l) := by
  induction l with
  | nil => unfold callDeferred; infer_instance
  | cons f l ih => unfold callDeferred; infer_instance

instance (deferred : Nat) (header : State) {round : Nat} :
  c.Related (settle r deferred header round n) (settle r' deferred header round n)
  := by
  induction n generalizing header round with
  | zero => unfold settle; infer_instance
  | succ n ih => unfold settle; infer_instance

instance : c.Related (runBody r t) (runBody r' t)
  := by unfold runBody; infer_instance

/-! ### Loops -/

/-- A relation that looks neither at the states in which loops are continued early nor at the numbers
of iterations. -/
class Forgetful : Prop where
  forgets (s : State) : c.Rel (changeSession fun x => { x with continued := s })
    (changeSession fun x => { x with continued := s })
  counts : Obeys c.Kept countIteration

/-- A relation that does not look at the loops around the current point. -/
class Nesting : Prop where
  enters (i : Nat) : c.Rel (changeSession fun x => { x with loops := (i, 0) :: x.loops })
    (changeSession fun x => { x with loops := (i, 0) :: x.loops })
  leaves (saved : Session) : c.Rel (leaveLoop saved) (leaveLoop saved)

structure Loops (parts parts' : LoopParts) : Prop where
  test : parts.test = none ∧ parts'.test = none ∨
    ∃ x y, parts.test = some x ∧ parts'.test = some y ∧ c.Related x y
  assumed : parts.assumed = parts'.assumed
  body : c.Related parts.body parts'.body
  update : c.Related parts.update parts'.update

instance : c.Related (loopHeadPart r t) (loopHeadPart r' t)
  := by unfold loopHeadPart; infer_instance

instance : c.Related (loopStart r t) (loopStart r' t)
  := by unfold loopStart; infer_instance

omit [c.Broad] in
theorem loops_loopParts (isForIn : Bool) :
  c.Loops (loopParts r t isForIn) (loopParts r' t isForIn)
  where
  test := by
    unfold loopParts
    dsimp only
    split
    · exact .inl ⟨rfl, rfl⟩
    · exact .inr ⟨_, _, rfl, rfl, inferInstance⟩
  assumed := rfl
  body := by unfold loopParts; infer_instance
  update := by unfold loopParts; dsimp only; infer_instance

section

variable [c.Forgetful]

instance (s : State) :
  c.Related (changeSession fun x => { x with continued := s })
    (changeSession fun x => { x with continued := s })
  := ⟨Forgetful.forgets s⟩

instance : c.Related execContinue execContinue
  := by unfold execContinue; infer_instance

variable {c} {parts parts' : LoopParts} (loops : c.Loops parts parts')

include loops

theorem Loops.related_loopTest (p : LoopProgress) : c.Related (loopTest parts p) (loopTest parts' p)
  := by
  have decide (p : LoopProgress) (v : Value) (outer : State) :
      Obeys c.Kept (decideLoop p v outer) := by
    unfold decideLoop
    infer_instance
  unfold loopTest
  rw [loops.assumed]
  repeat refine .after fun _ => ?_
  dsimp only
  refine .otherwise ?_
  repeat refine .after fun _ => ?_
  refine .both ?_ inferInstance
  obtain ⟨none, none'⟩ | ⟨x, y, some, some', related⟩ := loops.test
  · rw [none, none']
    infer_instance
  · rw [some, some']
    exact related

theorem Loops.related_loopBody (p : LoopProgress) (v : Value) (outer : State) :
  c.Related (loopBody parts p v outer) (loopBody parts' p v outer)
  := by
  have := loops.body
  have := loops.update
  have : Obeys c.Kept countIteration := Forgetful.counts
  unfold loopBody
  infer_instance

theorem Loops.related_loopWithin (n : Nat) (p : LoopProgress) :
  c.Related (loopWithin parts n p) (loopWithin parts' n p)
  := by
  have tests := loops.related_loopTest
  have bodies := loops.related_loopBody
  induction n generalizing p with
  | zero => unfold loopWithin; infer_instance
  | succ n ih =>
    unfold loopWithin loopStep
    refine .both ?_ inferInstance
    refine .after fun _ => ?_
    split <;> infer_instance

variable {start start' : Analysis Unit}

theorem Loops.related_loopNoting [c.Nesting] {noting noting' : Tree → LoopProgress → Analysis Unit}
    (noted : ∀ p, c.Related (noting t p) (noting' t p))
    [c.Related start start'] (n : Nat) :
  c.Related (loopNoting noting t start parts n) (loopNoting noting' t start' parts' n)
  := by
  have within := loops.related_loopWithin
  have push (i : Nat) : c.Related (changeSession fun x => { x with loops := (i, 0) :: x.loops })
      (changeSession fun x => { x with loops := (i, 0) :: x.loops }) := ⟨Nesting.enters i⟩
  have leave (saved : Session) : c.Related (leaveLoop saved) (leaveLoop saved) :=
    ⟨Nesting.leaves saved⟩
  have enter : c.Related (enterLoop t start) (enterLoop t start') := by
    unfold enterLoop
    infer_instance
  unfold loopNoting
  infer_instance

theorem Loops.related_loop [c.Nesting] [Comparing c.Kept] [c.Related start start'] (n : Nat) :
  c.Related (loop t start parts n) (loop t start' parts' n)
  := loops.related_loopNoting t (fun _ => inferInstanceAs (c.Related (noteUnrolled t _) _)) n

end

theorem related_statement_of [c.Forgetful] (hoisting : Bool)
    (loops : isLoop t = true →
      ∀ isForIn, c.Related (execLoop r t isForIn) (execLoop r' t isForIn)) :
  c.Related (execStatement r t hoisting) (execStatement r' t hoisting)
  := by
  by_cases continues : t.kind = .continueStatement
  · unfold execStatement
    rw [continues]
    infer_instance
  · exact related_execStatement c r r' t hoisting continues loops

variable [c.Forgetful] [c.Nesting] [Comparing c.Kept]

instance (isForIn : Bool) : c.Related (execLoop r t isForIn) (execLoop r' t isForIn)
  := (loops_loopParts c r r' t isForIn).related_loop t patience

instance related_statement (hoisting : Bool) :
  c.Related (execStatement r t hoisting) (execStatement r' t hoisting)
  := related_statement_of c r r' t hoisting fun _ => inferInstance

end Congruence

end ScriptLens.Analysis
