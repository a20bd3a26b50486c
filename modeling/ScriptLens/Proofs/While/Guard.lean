import ScriptLens.Proofs.Analysis.Refinement
import ScriptLens.Proofs.While.Language

/-!
# Loops that check their answer

The state after a loop has to cover every state in which the condition of the loop may have been
false, and the values that are noted in the loop have to stay noted after it.
-/

namespace ScriptLens

/-- Whether one state covers another one, as far as the values of global variables go: it allows any
value for each of them, or the same one. -/
def State.covers (s t : State) : Bool :=
  !s.isBottom && match s.objs.get? 0, t.objs.get? 0 with
    | some o, some p => o.props.all fun q => q.2.isTop || (p.get? q.1).any fun v => q.2.equal v
    | _, _ => false

def Notes.keepsValues (before after : Notes) : Bool :=
  before.table.toList.all fun p =>
    (before.getAt p.1 .staticValue).value?.isNone || (after.getAt p.1 .staticValue).value?.isSome

namespace Analysis

def watchedWithin (parts : LoopParts) :
    Nat → LoopProgress → List State → Analysis (LoopProgress × List State)
  | 0, _, _ => fail .unfinished
  | n + 1, p, seen => do
    match ← loopTest parts p with
    | (p, none) => return (p, seen)
    | (p, some (c, outer)) =>
      let head ← state
      let seen := if c.isTop then head :: seen else seen
      let (done, p) ← loopBody parts p c outer
      if done then return (p, seen) else watchedWithin parts n p seen

/-- A loop that fails if what comes after it misses a head state with an open test. -/
def guardedLoop (t : Tree) (start : Analysis Unit) (parts : LoopParts) (patience : Nat) :
    Analysis Unit := do
  if ← isBottom then return ()
  consuming do
    let saved ← session
    enterLoop t start
    let (p, seen) ← watchedWithin parts (iterationBound (← options) patience) {} []
    joinBroken p
    let after ← state
    require (seen.all after.covers)
    let before := (← get).notes
    noteUnrolled t p
    require (before.keepsValues (← get).notes)
    leaveLoop saved

def entering (t : Tree) (body : Analysis Unit) : Analysis Unit := do
  if ← isBottom then return ()
  enterStatement t
  body

def guardedStatement (r : Engine) (t : Tree) (hoisting : Bool) : Analysis Unit :=
  if t.kind == .whileStatement then
    entering t (whole t (guardedLoop t (loopStart r t) (loopParts r t false) patience))
  else execStatement r t hoisting

/-- The engine that follows `n` steps into a program and guards the loops among the statements on
its way. -/
def guarded : Nat → Engine
  | 0 => engine 0
  | n + 1 =>
    { engine (n + 1) with exec := fun t hoisting => guardedStatement (guarded n) t hoisting }

/-! ### Refinement -/

section

variable {parts parts' : LoopParts} {start start' : Analysis Unit}
    (loops : refinement.Loops parts parts')

include loops

theorem watchedWithin_refines (n : Nat) {p : LoopProgress} {seen : List State} :
  ∀ m q m', watchedWithin parts n p seen m = .ok q m' → loopWithin parts' n p m = .ok q.1 m'
  := by
  induction n generalizing p seen with
  | zero =>
    intro m q m' run
    rw [watchedWithin] at run
    cases run
  | succ n ih =>
    intro m q m' run
    rw [watchedWithin] at run
    obtain ⟨⟨p1, next⟩, m1, tested, run⟩ := bind_eq_ok.1 run
    have tested := (loops.related_loopTest p).rel m _ m1 tested
    rw [loopWithin, loopStep]
    cases next with
    | none =>
      obtain ⟨rfl, rfl⟩ := EStateM.Result.ok.inj run
      apply bind_eq_ok.2
      exact ⟨(true, p1), m1, bind_eq_ok.2 ⟨_, m1, tested, rfl⟩, rfl⟩
    | some next =>
      simp only [state_bind] at run
      obtain ⟨⟨done, p2⟩, m2, stepped, run⟩ := bind_eq_ok.1 run
      have stepped := (loops.related_loopBody p1 next.1 next.2).rel m1 _ m2 stepped
      apply bind_eq_ok.2
      refine ⟨(done, p2), m2, bind_eq_ok.2 ⟨_, m1, tested, stepped⟩, ?_⟩
      cases done with
      | true =>
        cases run
        rfl
      | false => apply ih m2 q m' run

theorem guardedLoop_refines [refinement.Related start start'] (t : Tree) (patience : Nat) :
  Refines (guardedLoop t start parts patience) (loop t start' parts' patience)
  := by
  have enter : refinement.Related (enterLoop t start) (enterLoop t start') := by
    unfold enterLoop
    infer_instance
  apply Refines.then
  rintro (_ | _)
  · refine (@Congruence.related_consuming _ refinement _ _ ⟨?_⟩).rel
    apply Refines.then
    intro saved
    apply enter.rel.bind
    intro _
    apply Refines.then
    intro o m a m' run
    obtain ⟨⟨p, seen⟩, m1, watched, run⟩ := bind_eq_ok.1 run
    apply bind_eq_ok.2
    refine ⟨p, m1, watchedWithin_refines loops _ m _ m1 watched, ?_⟩
    -- What is left differs in what is looked at and required to hold.
    revert run
    apply Refines.then
    intro _
    apply Refines.look (fun _ => rfl)
    intro after
    apply Refines.require
    apply Refines.look (fun _ => rfl)
    intro before
    apply Refines.then
    intro _
    apply Refines.look (fun _ => rfl)
    intro later
    apply Refines.require
    apply Refines.refl
  · apply Refines.refl

end

theorem arguments_guarded (n : Nat) (callee : Callee) (l : List Tree) :
  arguments (guarded n) callee l = arguments (engine n) callee l
  := by
  have same : (guarded n).expr = (engine n).expr := by cases n <;> rfl
  induction l with
  | nil => rfl
  | cons t l ih => rw [arguments, arguments, same, ih]

instance guarded_refines (n : Nat) : refinement.Follows (guarded n) (engine n) := by
  have attempt (n : Nat) (t : Tree) (callee : Callee) (this : Receiver) :
      attemptCall (guarded n) t callee this = attemptCall (engine n) t callee this := by
    have same : (guarded n).invoke = (engine n).invoke := by cases n <;> rfl
    rw [attemptCall, attemptCall, arguments_guarded, same]
  have refl {α : Type} (x : Analysis α) : Refines x x := Refines.refl x
  induction n with
  | zero =>
    exact { expr := fun _ => refl _, exec := fun _ _ => refl _, invoke := fun _ _ _ _ => refl _
            program := fun _ _ => refl _, attempt := fun _ _ _ _ => attempt 0 _ _ _ ▸ refl _ }
  | succ n ih =>
    refine { expr := fun _ => refl _, exec := ?_, invoke := fun _ _ _ _ => refl _
             program := fun _ _ => refl _, attempt := fun _ _ _ _ => attempt (n + 1) _ _ _ ▸ refl _ }
    intro t hoisting
    have others : refinement.Related (execStatement (guarded n) t hoisting)
        (execStatement (engine n) t hoisting) := inferInstance
    change Refines (guardedStatement (guarded n) t hoisting) (execStatement (engine n) t hoisting)
    rw [guardedStatement]
    split
    · rename_i isWhile
      rw [execStatement, eq_of_beq isWhile]
      have loops : refinement.Related
          (guardedLoop t (loopStart (guarded n) t) (loopParts (guarded n) t false) patience)
          (execLoop (engine n) t false) :=
        ⟨guardedLoop_refines (refinement.loops_loopParts _ _ t false) t patience⟩
      apply Refines.then
      rintro (_ | _)
      · apply Refines.then
        intro _
        exact Congruence.Related.rel (c := refinement)
      · apply Refines.refl
    · exact others.rel

/-! ### Statements -/

open While

variable {r : Engine} {b : Bool} {t : Tree} {l : List Tree}

theorem isDeclaration_eq (statement : Statement b t) : isDeclaration t = false := by
  cases statement with
  | assign kind | block kind | ifThen kind | ifElse kind | loop kind | leave kind =>
    rw [isDeclaration, kind]
    rfl

theorem hoist_eq (all : ∀ s ∈ l, Statement b s) : hoist r l = pure () := by
  induction l with
  | nil => rfl
  | cons s l ih =>
    obtain ⟨first, rest⟩ := List.forall_mem_cons.1 all
    rw [hoist, isDeclaration_eq first, ih rest]
    rfl

theorem hoistedSequence_eq (all : ∀ s ∈ l, Statement b s) : hoistedSequence r l = sequence r l := by
  have keep : l.filter (fun s => s.kind != .functionDeclaration) = l := by
    apply List.filter_eq_self.2
    intro s member
    have other := isDeclaration_eq (all s member)
    rw [isDeclaration, Bool.or_eq_false_iff] at other
    rw [bne, other.1]
    rfl
  rw [hoistedSequence, hoist_eq all, keep]
  rfl

theorem loopStatements_runs (statement : Statement b (t.get .body))
    (found : loopStatements t = .ok l) :
  (l = [t.get .body] ∨ (t.get .body).get .body = .list l) ∧ (∀ s ∈ l, Statement b s) ∧
    ∀ ρ es c ρ', Runs [t.get .body] ρ es c ρ' → Runs l ρ es c ρ'
  := by
  have single : (t.get .body).get .body = .null → l = [t.get .body] := by
    intro noBody
    rw [loopStatements, noBody] at found
    apply (Except.ok.inj found).symm
  have same : l = [t.get .body] ∨
      ((t.get .body).kind = .blockStatement ∧ (t.get .body).get .body = .list l) := by
    cases statement with
    | block kind body all =>
      rw [loopStatements, body] at found
      cases found
      exact .inr ⟨kind, body⟩
    | loop kind _ _ _ body =>
      rw [loopStatements] at found
      split at found
      · rename_i isList
        rw [isList] at body
        apply (body.kind_ne rfl).elim
      · rename_i isNull
        exact .inl (single isNull)
      · cases found
    | assign _ noBody | ifThen _ noBody | ifElse _ noBody | leave _ noBody =>
      exact .inl (single noBody)
  rcases same with rfl | ⟨kind, body⟩
  · exact ⟨.inl rfl, List.forall_mem_singleton.2 statement, fun _ _ _ _ run => run⟩
  · exact ⟨.inr body, statement.of_block kind body, fun _ _ _ _ run => run.of_block kind body⟩

end Analysis

end ScriptLens
