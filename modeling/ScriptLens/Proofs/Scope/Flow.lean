import ScriptLens.Proofs.Continue.Carrying
import ScriptLens.Proofs.Scope.Level

/-!
# Statements keep to their scopes

Statements stay at a spot where their jumps lead to loops and switches in the current scopes.
-/

open ScriptLens.State

namespace ScriptLens

/-! ### Jumps -/

/-- What the jumps in a piece of code can lead to: a loop, a switch or a labelled statement. -/
structure Jumps where
  loop : Bool := false
  switch : Bool := false
  label : Bool := false

namespace Jumps

def allows (j : Jumps) : Kind → Bool
  | .breakStatement => j.loop || j.switch || j.label
  | .continueStatement => j.loop || j.label
  | _ => true

def inside (j : Jumps) : Kind → Attr → Jumps
  | .whileStatement, .body | .doWhileStatement, .body | .forStatement, .body
  | .forInStatement, .body | .forOfStatement, .body => { j with loop := true }
  | .switchStatement, .cases => { j with switch := true }
  | .labeledStatement, .body => { j with label := true }
  | .functionDeclaration, _ | .functionExpression, _ | .arrowFunctionExpression, _ => {}
  | _, _ => j

end Jumps

namespace Tree

mutual

/-- Every jump stands in what it jumps out of. -/
def placed (j : Jumps) : Tree → Bool
  | .list l => placedItems j l
  | .node _ k as => j.allows k && placedAttrs j k as
  | _ => true

def placedItems (j : Jumps) : List Tree → Bool
  | [] => true
  | t :: l => placed j t && placedItems j l

def placedAttrs (j : Jumps) (k : Kind) : List (Attr × Tree) → Bool
  | [] => true
  | (a, t) :: l => placed (j.inside k a) t && placedAttrs j k l

end

variable {j : Jumps} {t u : Tree}

theorem placed_items (placed : t.placed j = true) (member : u ∈ t.items) : u.placed j = true := by
  cases t with
  | list l =>
    rw [Tree.placed] at placed
    change u ∈ l at member
    induction l with
    | nil => cases member
    | cons t l ih =>
      rw [placedItems, Bool.and_eq_true] at placed
      obtain rfl | member := List.mem_cons.1 member
      · exact placed.1
      · exact ih placed.2 member
  | _ => cases member

theorem placed_lookup {k : Kind} {l : List (Attr × Tree)} (placed : placedAttrs j k l = true)
    (a : Attr) : ((l.lookup a).getD null).placed (j.inside k a) = true
  := by
  induction l with
  | nil => rfl
  | cons p l ih =>
    obtain ⟨b, t⟩ := p
    rw [placedAttrs, Bool.and_eq_true] at placed
    rw [lookup_cons]
    split
    · rename_i same
      rw [same]
      exact placed.1
    · exact ih placed.2

theorem placed_get (placed : t.placed j = true) (a : Attr) :
  (t.get a).placed (j.inside t.kind a) = true
  := by
  cases t with
  | node r k as =>
    rw [Tree.placed, Bool.and_eq_true] at placed
    exact placed_lookup placed.2 a
  | _ => rfl

theorem allows_kind (placed : t.placed j = true) : j.allows t.kind = true := by
  cases t with
  | node r k as =>
    rw [Tree.placed, Bool.and_eq_true] at placed
    exact placed.1
  | _ => rfl

end Tree

namespace Spot

/-- At a spot, the jumps lead to loops and switches in the current scopes. -/
structure Suits (φ : Spot) (j : Jumps) : Prop where
  returned : φ.returned = φ.here
  loop : j.loop = true → φ.broken = φ.here ∧ φ.continued = φ.here
  switch : j.switch = true → φ.broken = φ.here
  label : j.label = true → j.loop = true

def around (φ : Spot) : Spot := { φ with broken := φ.here }

def within (φ : Spot) : Spot := { φ.around with continued := φ.here }

variable {φ : Spot} {j : Jumps}

theorem suits_nothing (returned : φ.returned = φ.here) : φ.Suits {}
  := ⟨returned, Bool.noConfusion, Bool.noConfusion, Bool.noConfusion⟩

section

variable (suits : φ.Suits j)

include suits

theorem Suits.around : φ.around.Suits { j with switch := true }
  := ⟨suits.returned, fun loop => ⟨rfl, (suits.loop loop).2⟩, fun _ => rfl, suits.label⟩

theorem Suits.broken (allowed : j.allows .breakStatement = true) :
  φ.broken = φ.here
  := by
  obtain inner | label := Bool.or_eq_true_iff.1 allowed
  · obtain loop | switch := Bool.or_eq_true_iff.1 inner
    · exact (suits.loop loop).1
    · exact suits.switch switch
  · exact (suits.loop (suits.label label)).1

theorem Suits.continued (allowed : j.allows .continueStatement = true) :
  φ.continued = φ.here
  := by
  obtain loop | label := Bool.or_eq_true_iff.1 allowed
  · exact (suits.loop loop).2
  · exact (suits.loop (suits.label label)).2

theorem Suits.consequent (k : Kind) : φ.Suits (j.inside k .consequent)
  := by cases k <;> first | exact suits | exact suits_nothing suits.returned

theorem Suits.within (k : Kind) :
  φ.within.Suits (({ j with loop := true } : Jumps).inside k .body)
  := by
  have inner (s l : Bool) : φ.within.Suits ⟨true, s, l⟩ :=
    ⟨suits.returned, fun _ => ⟨rfl, rfl⟩, fun _ => rfl, fun _ => rfl⟩
  cases k <;> first | exact inner _ _ | exact suits_nothing suits.returned

end

end Spot

namespace Analysis

set_option synthInstance.maxSize 100000

variable {φ : Spot}

/-- An engine that keeps to the scopes it finds; statements do so where their jumps lead to something
in the same scopes. -/
class Calm (r : Engine) : Prop where
  expr (φ : Spot) (t : Tree) : Stays φ (r.expr t)
  exec {φ : Spot} {j : Jumps} {t : Tree} (hoisting : Bool) (suits : φ.Suits j)
    (placed : t.placed j = true) : Stays φ (r.exec t hoisting)
  declares (φ : Spot) {t : Tree} (hoisting : Bool) (declares : isDeclaration t = true) :
    Stays φ (r.exec t hoisting)
  invoke (φ : Spot) (callee : Callee) (site : Option Tree) (args : List Value) (this : Receiver) :
    Stays φ (r.invoke callee site args this)
  program (φ : Spot) (t : Tree) (x : Text) : Stays φ (r.program t x)
  steadyExpr (t : Tree) : Steady (r.expr t)
  steadyInvoke (callee : Callee) (site : Option Tree) (args : List Value) (this : Receiver) :
    Steady (r.invoke callee site args this)

attribute [instance] Calm.expr Calm.invoke Calm.program Calm.steadyExpr Calm.steadyInvoke

variable (r : Engine) [Calm r] (t : Tree)

instance : (confinement φ).Evaluates r r
  where
  expr t := (Calm.expr φ t).obeys.holds
  invoke callee site args this := (Calm.invoke φ callee site args this).obeys.holds
  program t x := (Calm.program φ t x).obeys.holds

/-! ### Calls and branches -/

/-- The state in which a recursion was cut off is copied; it need not be in the current scopes. -/
instance (s : State) : Stays φ (do return some (← ofDomain s.clone) : Analysis (Option State)) := by
  constructor
  intro m a m' isIn run
  obtain ⟨u, m1, copied, run⟩ := bind_eq_ok.1 run
  cases run
  obtain ⟨n, result, rfl⟩ := lift_domain_eq_ok (d := s.clone).1 copied
  refine ⟨⟨isIn.state, isIn.session⟩, trivial, bind_eq_ok.2 ⟨u, _, ?_, rfl⟩⟩
  exact lift_domain_eq_ok (d := s.clone).2 ⟨n, (Indifferent.same _ _).trans result, rfl⟩

instance (callee : Callee) (this : Receiver) (site n : Nat) :
  Stays φ (untilStable r t callee this site n)
  := by
  cases n with
  | zero => unfold untilStable; infer_instance
  | succ n =>
    unfold untilStable previousCut attemptCall
    refine .both ?_ fun _ _ => .after fun _ _ => .after fun attempt fine => ?_
    · refine .after fun _ _ => ?_
      split <;> infer_instance
    · obtain ⟨v, rfl⟩ := fine.fine
      infer_instance

instance (site : Nat) : Stays φ (cutRecursion t site) := by
  unfold cutRecursion
  repeat' first | infer_instance | refine .after fun _ _ => ?_ | split

theorem stays_evalCall (made : Option Nat) : Stays φ (evalCall r t made) := by
  unfold evalCall
  repeat' first | infer_instance | refine .after fun _ _ => ?_ | split

theorem stays_evalConditional : Stays φ (evalConditional r t) := by
  unfold evalConditional
  refine @stays_consuming _ _ _ _ (.after fun _ _ => .after fun _ _ => ?_)
  repeat' first | infer_instance | refine .after fun _ _ => ?_ | split

theorem stays_maybe : Stays φ (maybe r t) := by
  unfold maybe
  repeat' first | infer_instance | refine .after fun _ _ => ?_

instance : (confinement φ).Branches r r
  where
  call t made := (stays_evalCall r t made).obeys.holds
  conditional t := (stays_evalConditional r t).obeys.holds
  maybe t := (stays_maybe r t).obeys.holds

end Analysis

theorem State.at_bottom (p : Option Nat × List Nat) : bottom.At p
  := fun notBottom => by cases notBottom

namespace Analysis

set_option synthInstance.maxSize 100000

variable {φ : Spot} {j : Jumps} (r : Engine) [Calm r] (t : Tree)

/-! ### Sequences and declarations -/

section

variable {l : List Tree}

theorem stays_sequence (suits : φ.Suits j) (placed : ∀ t ∈ l, t.placed j = true) :
  Stays φ (sequence r l)
  := by
  induction l with
  | nil => unfold sequence; infer_instance
  | cons t l ih =>
    have first := Calm.exec (r := r) false suits (placed t List.mem_cons_self)
    have rest := ih fun t member => placed t (List.mem_cons_of_mem _ member)
    unfold sequence
    infer_instance

instance : Stays φ (hoist r l) := by
  induction l with
  | nil => unfold hoist; infer_instance
  | cons t l ih =>
    unfold hoist
    split
    · rename_i declares
      have first := Calm.declares (r := r) φ true declares
      infer_instance
    · infer_instance

theorem stays_hoistedSequence (suits : φ.Suits j) (placed : ∀ t ∈ l, t.placed j = true) :
  Stays φ (hoistedSequence r l)
  := by
  have rest := stays_sequence r (l := l.filter fun t => t.kind != .functionDeclaration) suits
    fun t member => placed t (List.mem_filter.1 member).1
  unfold hoistedSequence
  infer_instance

instance (x : Analysis Unit) [Stays φ x] : Stays φ (whole t x)
  := by unfold whole; infer_instance

end

/-! ### Branches -/

section

theorem stays_execIf (follows : ∀ a, Stays φ (r.exec (t.get a) false)) : Stays φ (execIf r t) := by
  have both : Stays φ (execBoth r t) := by
    unfold execBoth
    repeat' first | infer_instance | refine .after fun _ _ => ?_
  unfold execIf
  refine @stays_consuming _ _ _ _ (.after fun _ _ => .after fun _ _ => .after fun _ _ => ?_)
  refine .after fun _ _ => ?_
  split <;> infer_instance

omit [Calm r] in
theorem stays_takeCase (inner : Stays φ.around (sequence r (t.get .consequent).items)) :
  Stays φ (takeCase r t)
  := by
  constructor
  unfold takeCase
  refine stays_state.leads.bind fun s _ => (stays_clone s).leads.bind fun other here =>
    stays_session.leads.bind fun saved before => ?_
  have : Fine φ.around other := ⟨here.fine⟩
  refine Leads.bind (leads_changeSession (ψ := φ.around) rfl fun s kept =>
    ⟨kept.1, at_bottom _, kept.2.2⟩) fun _ _ => ?_
  refine (Stays.onState other _).leads.bind fun p _ => stays_session.leads.bind fun now after => ?_
  have : Fine φ.around now.broken := ⟨after.fine.2.1⟩
  refine (stays_join p.2 now.broken).leads.bind fun u joined => ?_
  have : Fine φ u := ⟨joined.fine⟩
  exact Leads.bind (leads_changeSession (ψ := φ) rfl fun s kept =>
    ⟨kept.1, before.fine.2.1, kept.2.2⟩) fun _ _ => (Stays.pure u).leads

instance (s : State) (l : List State) [first : Fine φ s] [rest : Fine φ l] : Fine φ (s :: l)
  := ⟨List.forall_mem_cons.2 ⟨first.fine, rest.fine⟩⟩

instance : Fine φ ([] : List State)
  := ⟨fun _ none => by cases none⟩

theorem stays_takeCases (suits : φ.Suits j) (d : Value) {l : List Tree}
    (placed : ∀ t ∈ l, t.placed { j with switch := true } = true) : Stays φ (takeCases r d l)
  := by
  induction l with
  | nil => unfold takeCases; infer_instance
  | cons t l ih =>
    have inside := Tree.placed_get (placed t List.mem_cons_self) .consequent
    have first := stays_takeCase r t (stays_sequence r (suits.around.consequent t.kind) fun _ =>
      Tree.placed_items inside)
    have rest := ih fun t member => placed t (List.mem_cons_of_mem _ member)
    unfold takeCases
    repeat' first | infer_instance | refine .after fun _ _ => ?_ | split

instance (l : List State) [all : Fine φ l] : Stays φ (joinAll l) := by
  revert all
  induction l with
  | nil => intro _; unfold joinAll; infer_instance
  | cons s l ih =>
    intro all
    have : Fine φ s := ⟨all.fine s List.mem_cons_self⟩
    have := @ih ⟨fun u member => all.fine u (List.mem_cons_of_mem _ member)⟩
    unfold joinAll
    exact .after fun _ _ => .after fun _ _ => inferInstance

theorem stays_execSwitch (suits : φ.Suits j)
    (placed : (t.get .cases).placed { j with switch := true } = true) : Stays φ (execSwitch r t)
  := by
  have cases (d : Value) := stays_takeCases r suits d fun _ => Tree.placed_items placed
  unfold execSwitch
  dsimp only
  refine @stays_consuming _ _ _ _ ?_
  repeat' first | infer_instance | refine .after fun _ _ => ?_

end

/-! ### Jumps -/

section

theorem stays_jump (part : Session → State) (put : State → Session → Session)
    (parts : ∀ s, HasStates.fine φ s → (part s).At φ.here)
    (puts : ∀ u s, u.At φ.here → HasStates.fine φ s → HasStates.fine φ (put u s)) :
  Stays φ (do
    let u ← (part (← session)).join (← state)
    changeSession (put u)
    changeState toBottom)
  := by
  refine .after fun s before => .after fun _ _ => ?_
  have : Fine φ (part s) := ⟨parts s before.fine⟩
  exact .after fun u joined => .both ⟨leads_changeSession rfl fun s => puts u s joined.fine⟩
    fun _ _ => inferInstance

theorem stays_execReturn (returned : φ.returned = φ.here) : Stays φ (execReturn r t) := by
  have jump := stays_jump (φ := φ) Session.returned (fun returned s => { s with returned })
    (fun s kept => returned ▸ kept.1) fun u s here kept => ⟨returned ▸ here, kept.2⟩
  unfold execReturn
  dsimp only
  repeat' first | infer_instance | split | refine .after fun _ _ => ?_

theorem stays_execBreak (broken : φ.broken = φ.here) : Stays φ execBreak
  := stays_jump _ _ (fun _ kept => broken ▸ kept.2.1) fun _ _ here kept =>
    ⟨kept.1, broken ▸ here, kept.2.2⟩

theorem stays_execContinue (continued : φ.continued = φ.here) : Stays φ execContinue
  := stays_jump _ _ (fun _ kept => continued ▸ kept.2.2) fun _ _ here kept =>
    ⟨kept.1, kept.2.1, continued ▸ here⟩

end

/-! ### Loops -/

section

variable (p : LoopProgress) (s : State)

instance (count : Int) (unrolling : Bool) (why : Text) (warned lastTrue : Bool)
    [here : Fine φ s] : Fine φ (LoopProgress.mk count unrolling why warned s lastTrue)
  := ⟨here.fine⟩

instance [here : Fine φ p] : Fine φ p.header
  := ⟨here.fine⟩

instance [Fine φ s] : Stays φ (absorb s) := by
  unfold absorb
  repeat' first | infer_instance | refine .after fun _ _ => ?_

instance stays_loopHead [Fine φ p] : Stays φ (loopHead p) := by
  unfold loopHead mergeHead
  repeat' first | infer_instance | refine .after fun _ _ => ?_ | split

instance [Fine φ p] : Stays φ (limitIterations p) := by
  unfold limitIterations
  refine .after fun _ _ => ?_
  split <;> infer_instance

instance stays_decideLoop [Fine φ p] (v : Value) : Stays φ (decideLoop p v s) := by
  unfold decideLoop
  repeat' first | infer_instance | refine .after fun _ _ => ?_

instance : Stays φ countIteration := by
  unfold countIteration
  refine .after fun _ _ => ⟨leads_changeSession rfl fun s kept => ?_⟩
  split <;> exact kept

instance stays_endIteration [Fine φ p] (v : Value) : Stays φ (endIteration p v) := by
  unfold endIteration
  dsimp only
  repeat' first | infer_instance | split | refine .after fun _ _ => ?_

instance : Stays φ (changeSession fun s => { s with continued := .bottom })
  := ⟨leads_changeSession rfl fun _ kept => ⟨kept.1, kept.2.1, at_bottom _⟩⟩

instance stays_joinBroken : Stays φ.around (joinBroken p) := by
  have join (s : State) (now : Session) [Fine φ.around s] [after : Fine φ.around now] :
      Stays φ.around (liftM (s.join now.broken) : Analysis State) :=
    @stays_join _ _ _ _ ⟨after.fine.2.1⟩
  unfold joinBroken
  repeat' first | infer_instance | split | refine .after fun _ _ => ?_

/-- The parts of a loop at a spot: only the body jumps out of an iteration. -/
structure LoopParts.Stay (φ : Spot) (parts : LoopParts) : Prop where
  test (χ : Spot) (x : Analysis Value) (isTest : parts.test = some x) : Stays χ x
  body : Stays φ.within parts.body
  update : Stays φ.within parts.update

variable {parts : LoopParts} (stay : LoopParts.Stay φ parts)

include stay

theorem stays_loopTest (χ : Spot) [Fine χ p] : Stays χ (loopTest parts p) := by
  unfold loopTest
  dsimp only
  refine .after fun _ _ => .after fun q _ => ?_
  split
  · infer_instance
  refine .after fun _ _ => .after fun _ _ => .both ?_ fun _ _ => inferInstance
  split
  · rename_i isTest
    exact stay.test χ _ isTest
  · infer_instance

theorem loopTest_within [here : Fine φ.around p] {m m' : Machine} {q : LoopProgress} {c : Value}
    {outer : State} (isIn : m.In φ.around)
    (run : loopTest parts p m = .ok (q, some (c, outer)) m') : m'.In φ.within ∧ outer.At φ.continued
  := by
  rw [loopTest] at run
  obtain ⟨_, m1, marked, run⟩ := bind_eq_ok.1 run
  obtain ⟨⟨stable, header⟩, m2, headed, run⟩ := bind_eq_ok.1 run
  obtain ⟨isIn1, -, -⟩ := Stays.leads m _ m1 isIn marked
  obtain ⟨isIn2, fine, -⟩ := (stays_loopHead p).leads m1 _ m2 isIn1 headed
  dsimp only at run
  split at run
  · cases (pure_eq_ok.1 run).1
  rw [session_bind, changeSession_bind] at run
  obtain ⟨w, m3, tested, run⟩ := bind_eq_ok.1 run
  have isIn3 : m3.In φ.within := by
    have start : Machine.In φ.within { m2 with session := { m2.session with continued := .bottom } } :=
      ⟨isIn2.state, isIn2.session.1, isIn2.session.2.1, at_bottom _⟩
    cases isTest : parts.test with
    | none =>
      rw [isTest] at tested
      cases tested
      exact start
    | some x =>
      rw [isTest] at tested
      exact ((stay.test _ x isTest).leads _ w m3 start tested).1
  have decided (run : decideLoop { p with header, lastTrue := false, count := p.count + 1 } w
      m2.session.continued m3 = .ok (q, some (c, outer)) m') :
      m'.In φ.within ∧ outer.At φ.continued := by
    have : Fine φ.within header := ⟨fine.2⟩
    obtain rfl : outer = m2.session.continued := (decideLoop_eq_ok run).2 _ rfl
    exact ⟨((stays_decideLoop _ _ w).leads m3 _ m' isIn3 run).1, isIn2.session.2.2⟩
  split at run
  · rw [isBottom_bind] at run
    split at run
    · cases (pure_eq_ok.1 run).1
    · exact decided run
  · exact decided run

theorem leads_loopBody (q : LoopProgress) [Fine φ.around q] (c : Value) {outer : State}
    (before : outer.At φ.continued) : Leads φ.within φ.around (loopBody parts q c outer)
  := by
  unfold loopBody
  refine stay.body.leads.bind fun _ _ => stay.update.leads.bind fun _ _ =>
    stays_state.leads.bind fun s _ => stays_session.leads.bind fun now after => ?_
  have : Fine φ.within now.continued := ⟨after.fine.2.2⟩
  refine (stays_join s now.continued).leads.bind fun u _ => (stays_setState u).leads.bind fun _ _ => ?_
  exact Leads.bind (leads_changeSession (ψ := φ.around) rfl fun s kept =>
    ⟨kept.1, kept.2.1, before⟩) fun _ _ => (stays_endIteration q c).leads

theorem stays_loopWithin (n : Nat) [Fine φ.around p] : Stays φ.around (loopWithin parts n p) := by
  have step (p : LoopProgress) [Fine φ.around p] : Stays φ.around (loopStep parts p) := by
    constructor
    intro m a m' isIn run
    obtain ⟨⟨q, next⟩, m1, tested, run⟩ := bind_eq_ok.1 run
    obtain ⟨isIn1, ⟨fine, -⟩, level⟩ := (stays_loopTest p stay φ.around).leads m _ m1 isIn tested
    have : Fine φ.around q := ⟨fine⟩
    cases next with
    | none =>
      obtain ⟨isIn', fine', level'⟩ := (Stays.pure (true, q)).leads m1 a m' isIn1 run
      exact ⟨isIn', fine', bind_eq_ok.2 ⟨_, _, level, level'⟩⟩
    | some next =>
      obtain ⟨isIn1, before⟩ := loopTest_within p stay isIn tested
      obtain ⟨isIn', fine', level'⟩ := leads_loopBody stay q next.1 before m1 a m' isIn1 run
      exact ⟨isIn', fine', bind_eq_ok.2 ⟨_, _, level, level'⟩⟩
  induction n generalizing p with
  | zero => unfold loopWithin; infer_instance
  | succ n ih =>
    unfold loopWithin
    refine .after fun a _ => ?_
    have := ih a.2
    infer_instance

theorem stays_loop {start : Analysis Unit} [starts : ∀ χ, Stays χ start] (n : Nat)
    (returned : φ.returned = φ.here) : Stays φ (loop t start parts n)
  := by
  unfold loop
  refine .after fun _ _ => @Stays.ite _ _ _ _ _ _ _ inferInstance (@stays_consuming _ _ _ _ ⟨?_⟩)
  refine stays_session.leads.bind fun saved before => ?_
  have enter : Leads φ φ.around (enterLoop t start) := by
    unfold enterLoop
    exact Leads.bind (leads_changeSession (ψ := φ.around) rfl fun s kept =>
      ⟨at_bottom _, at_bottom _, kept.2.2⟩) fun _ _ => Stays.leads
  have leave : Leads φ.around φ (leaveLoop saved) := by
    unfold leaveLoop
    refine stays_session.leads.bind fun now after => ?_
    have : Fine φ.around now.returned := ⟨(returned ▸ after.fine.1 : now.returned.At φ.here)⟩
    have : Fine φ.around saved.returned := ⟨(returned ▸ before.fine.1 : saved.returned.At φ.here)⟩
    exact (stays_join now.returned saved.returned).leads.bind fun u joined =>
      leads_changeSession rfl fun s kept => ⟨returned ▸ joined.fine, before.fine.2.1, kept.2.2⟩
  have : Fine φ.around ({} : LoopProgress) := ⟨at_bottom _⟩
  have iterate (n : Nat) := stays_loopWithin {} stay n
  exact enter.bind fun _ _ => Stays.leads.bind fun o _ => (iterate _).leads.bind fun p _ =>
    (stays_joinBroken p).leads.bind fun _ _ => Stays.leads.bind fun _ _ => leave

end

section

instance : Stays φ (loopHeadPart r t) := by
  unfold loopHeadPart
  split
  · rename_i declares
    exact Calm.declares φ false (Bool.or_eq_true_iff.2 (.inr declares))
  · infer_instance

theorem stays_execLoop (suits : φ.Suits j)
    (placed : (t.get .body).placed { j with loop := true } = true) (isForIn : Bool) :
  Stays φ (execLoop r t isForIn)
  := by
  have start (χ : Spot) : Stays χ (loopStart r t) := by
    unfold loopStart
    infer_instance
  refine stays_loop t ⟨fun χ x isTest => ?_, ?_, ?_⟩ patience suits.returned
  · unfold loopParts at isTest
    dsimp only at isTest
    split at isTest
    · cases isTest
    · cases isTest
      infer_instance
  · unfold loopParts
    dsimp only
    refine .after fun _ _ => ?_
    unfold loopStatements
    split
    · rename_i l isList
      have inside := Tree.placed_get placed .body
      refine stays_sequence r (suits.within (t.get .body).kind) fun u member => ?_
      rw [isList] at inside
      exact Tree.placed_items inside member
    · refine stays_sequence r (suits.within .blockStatement) fun u member => ?_
      rw [List.mem_singleton.1 member]
      exact placed
    · exact inferInstanceAs (Stays φ.within (fail Failure.wrongKind))
  · unfold loopParts
    dsimp only
    infer_instance

end

/-! ### Statements -/

theorem stays_execStatement (suits : φ.Suits j) (placed : t.placed j = true) (hoisting : Bool) :
  Stays φ (execStatement r t hoisting)
  := by
  have allowed := Tree.allows_kind placed
  have inside := Tree.placed_get placed
  unfold execStatement
  refine .after fun _ _ => ?_
  split
  · infer_instance
  refine .after fun _ _ => ?_
  cases kind : t.kind
  all_goals rw [kind] at allowed inside
  all_goals dsimp only
  case ifStatement => exact stays_execIf r t fun a => Calm.exec false suits (inside a)
  case returnStatement =>
    have jump := stays_execReturn r (t.get .argument) suits.returned
    infer_instance
  case breakStatement => exact stays_execBreak (suits.broken allowed)
  case continueStatement => exact stays_execContinue (suits.continued allowed)
  case tryStatement =>
    have block := Calm.exec (r := r) false suits (inside .block)
    infer_instance
  case blockStatement =>
    have block := stays_hoistedSequence r suits fun _ => Tree.placed_items (inside .body)
    infer_instance
  case switchStatement => exact stays_execSwitch r t suits (inside .cases)
  case forInStatement | forStatement | whileStatement =>
    have iterate := stays_execLoop r t suits (inside .body)
    infer_instance
  all_goals infer_instance

theorem stays_execDeclaration (declares : isDeclaration t = true) (hoisting : Bool) :
  Stays φ (execStatement r t hoisting)
  := by
  unfold execStatement
  refine .after fun _ _ => ?_
  split
  · infer_instance
  refine .after fun _ _ => ?_
  obtain kind | kind := Bool.or_eq_true_iff.1 declares
  all_goals rw [eq_of_beq kind]; dsimp only; infer_instance

end Analysis

end ScriptLens
