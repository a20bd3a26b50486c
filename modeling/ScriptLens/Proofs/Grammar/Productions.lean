import ScriptLens.Proofs.Grammar.Context

/-!
# The context across productions

Every production puts back what it changed in the context for its parts: when it ends, the context
allows what it did before.
-/

namespace ScriptLens

open Moves

set_option synthInstance.maxSize 10000000
set_option synthInstance.maxHeartbeats 200000

namespace Parse

class Steady (r : Productions) : Prop where
  assignment : Restores true r.assignment
  unary : Restores true r.unary
  exponentiation : Restores true r.exponentiation
  callee : Restores true r.callee
  call : Restores true r.call
  pattern (b : Binder) : Restores true (r.pattern b)
  patternWithDefault (b : Binder) : Restores true (r.patternWithDefault b)
  statement : Restores true r.statement
  listItem : Restores true r.listItem
  element : Restores true r.element

attribute [instance] Steady.assignment Steady.unary Steady.exponentiation Steady.callee Steady.call
  Steady.pattern Steady.patternWithDefault Steady.statement Steady.listItem Steady.element

section Productions

variable (r : Productions) [Steady r] (b : Binder) (ps : Parameters) (m : Mark) (t : Token) (e : Tree)
  (v : Text) (l : Array Tree) (n : Nat) (y : Bool) (x : Parse Tree) [Restores true x]

/-! ### Patterns -/

instance (d : Option Text) : Restores true (variableName d) := by unfold variableName; infer_instance
instance : Restores true name := by unfold name; infer_instance
instance : Restores true (literal m t) := by unfold literal; infer_instance
instance : Restores true (propertyKey r) := by unfold propertyKey; infer_instance

instance : Restores true (arrayPatternItems r b l n)
  := by induction n generalizing b l <;> (unfold arrayPatternItems; infer_instance)

instance : Restores true (objectPatternItems r b l n)
  := by induction n generalizing b l <;> (unfold objectPatternItems; infer_instance)

instance : Restores true (pattern r b)
  := by unfold pattern; infer_instance

/-! ### Functions and classes -/

variable {f : Culprit → Problem → Parse Unit}

instance [∀ c p, Restores true (f c p)] : Restores true (reportStrict ps f) := by
  unfold reportStrict
  repeat' first | infer_instance | refine after fun _ => ?_ | split

instance : Restores true (parameterItems r ps n)
  := by induction n generalizing ps <;> (unfold parameterItems; infer_instance)

instance : Restores true (expression r) := by unfold expression; infer_instance

instance (o : Option Token) : Restores false (directives x o l n) := by
  have turn : Restores false (setContext fun c => { c with strict := true }) :=
    change fun _ _ => ⟨rfl, id, fun strict => strict.elim Eq.symm Bool.noConfusion, rfl,
      fun _ => id⟩
  induction n generalizing o l with
  | zero => unfold directives; infer_instance
  | succ n ih =>
    unfold directives directive
    repeat' first | infer_instance | refine after fun _ => ?_ | split

instance : Restores false (functionBody r) := by unfold functionBody; infer_instance

instance (x : Parse Tree) [Restores false x]
    [∀ c p, Restores true (f c p)] :
  Restores true (withBody ps x f)
  := restores_within (j := false)

instance (f : Parameters → Parse Unit) [∀ ps, Restores true (f ps)] :
  Restores true (methodWith r f y)
  := by unfold methodWith; infer_instance

instance : Restores true (classElement r y)
  := by unfold classElement; infer_instance

instance : Restores true (classElements r y l n)
  := by induction n generalizing y l <;> (unfold classElements; infer_instance)

instance (k : Kind) : Restores true (classOf r k y) := by unfold classOf; infer_instance

/-! ### Markup -/

instance : Restores true (elementMembers m e n)
  := by induction n generalizing e <;> (unfold elementMembers; infer_instance)

instance : Restores true (tagAttribute r) := by
  unfold tagAttribute
  infer_instance

instance : Restores true (childrenRest r l n)
  := by induction n generalizing l <;> (unfold childrenRest; infer_instance)

instance (e : OpenElement) : Restores true e.complete := by unfold OpenElement.complete; infer_instance

instance (e : OpenElement) (l : List OpenElement) : Restores true (elementRest r e l n) := by
  induction n generalizing e l with
  | zero => unfold elementRest; infer_instance
  | succ n ih =>
    unfold elementRest
    repeat' first | infer_instance | refine after fun _ => ?_ | split

instance : Restores true (element r) := by unfold element; infer_instance

/-! ### Expressions -/

instance : Restores true (arrayItems r l n)
  := by induction n generalizing l <;> (unfold arrayItems; infer_instance)

instance : Restores true (objectProperty r y) := by
  unfold objectProperty
  repeat' first | infer_instance | refine after fun _ => ?_ | split

instance : Restores true (objectItems r y l n)
  := by induction n generalizing y l <;> (unfold objectItems; infer_instance)

instance (l' : Array Tree) : Restores true (templateItems r l l' n)
  := by induction n generalizing l l' <;> (unfold templateItems; infer_instance)

instance : Restores true (groupItems r l n)
  := by induction n generalizing l <;> (unfold groupItems; infer_instance)

instance : Restores true (primary r) := by
  unfold primary
  repeat' first | infer_instance | refine after fun _ => ?_ | split

instance : Restores true (argumentItems r x l n)
  := by induction n generalizing l <;> (unfold argumentItems; infer_instance)

instance : Restores true (member? r m e) := by unfold member?; infer_instance

instance : Restores true (callRest r t y e n) := by
  induction n generalizing e with
  | zero => unfold callRest; infer_instance
  | succ n ih =>
    unfold callRest
    repeat' first | infer_instance | refine after fun _ => ?_ | split

instance : Restores true (call r) := by unfold call; infer_instance

instance : Restores true (memberRest r m e n) := by
  induction n generalizing e with
  | zero => unfold memberRest; infer_instance
  | succ n ih =>
    unfold memberRest
    refine after fun _ => ?_
    split <;> infer_instance

instance : Restores true (callee r) := by unfold callee; infer_instance
instance : Restores true (unary r) := by unfold unary; infer_instance

instance (l : List PendingOperand) : Restores true (reduce n e t l)
  := by induction l generalizing e t <;> (unfold reduce; infer_instance)

instance (l : List PendingOperand) : Restores true (reduceAll e t l)
  := by induction l generalizing e t <;> (unfold reduceAll; infer_instance)

instance (l : List PendingOperand) : Restores true (binaryRest x e t l n)
  := by induction n generalizing e t l <;> (unfold binaryRest; infer_instance)

instance : Restores true (conditional r) := by unfold conditional; infer_instance

instance {α β : Type} (l : List α) (b : β) (f : α → β → Parse (ForInStep β))
    [∀ a b, Restores true (f a b)] :
  Restores true (forIn l b f)
  := by
  induction l generalizing b with
  | nil => rw [List.forIn_nil]; infer_instance
  | cons a l ih =>
    rw [List.forIn_cons]
    refine after fun r => ?_
    cases r <;> infer_instance

instance : Restores true (assignment r) := by
  unfold assignment yieldExpression atExpression arrowParameters yieldAsName arrowFunction
    assignmentRest
  repeat' first | infer_instance | refine after fun _ => ?_ | split

/-! ### Statements -/

instance : Restores true (forStatement r) := by
  unfold forStatement
  repeat' first | infer_instance | refine after fun _ => ?_ | split

instance : Restores true (switchCases r y l n)
  := by induction n generalizing y l <;> (unfold switchCases; infer_instance)

instance : Restores true (labeledStatement r)
  := by unfold labeledStatement; infer_instance

instance (l : List Text) (ts : List Token) : Restores true (checkRepeated l ts)
  := by induction ts generalizing l <;> (unfold checkRepeated; infer_instance)

theorem keywordStatements_restore : ∀ q ∈ keywordStatements r, Restores true q.2 := by
  simp only [keywordStatements, List.forall_mem_cons]
  unfold breakStatement continueStatement debuggerStatement doStatement ifStatement branch
    returnStatement switchStatement throwStatement tryStatement catchClause variableStatement
    whileStatement withStatement
  repeat' first | apply And.intro | exact List.forall_mem_nil _ | infer_instance

instance : Restores true (statement r) := by
  unfold statement
  refine after fun t => ?_
  split
  all_goals try infer_instance
  split
  · rename_i found
    exact keywordStatements_restore r _ (List.mem_of_find?_eq_some found)
  · infer_instance

/-! ### Modules -/

instance : Restores true importDeclaration
  := by unfold importDeclaration; infer_instance

instance : Restores true (exportDeclaration r) := by
  unfold exportDeclaration
  repeat' first | infer_instance | refine after fun _ => ?_ | split

instance : Restores true (listItem r)
  := by unfold listItem; infer_instance

end Productions

instance (n : Nat) : Steady (productions n) := by
  induction n with
  | zero => constructor <;> intros <;> exact throw _
  | succ n ih =>
    unfold productions
    constructor <;> infer_instance

/-! ### The context after a production -/

end Parse

/-- A context differs from an earlier one at most in what it says about the expression just read, and
in that `yield` has ceased to be a name. -/
def Context.Resumed (c c' : Context) : Prop :=
  c' = { c with
    allowYield := c'.allowYield, shorthandInitializer := c'.shorthandInitializer
    isAssignmentTarget := c'.isAssignmentTarget, isBindingElement := c'.isBindingElement } ∧
  (c'.allowYield = true → c.allowYield = true)

theorem Parser.Restored.resumed {s : Settings} {p p' : Parser} (restored : p.Restored true s p') :
  p.context.Resumed p'.context
  := by
  refine ⟨?_, restored.allowYield⟩
  have frame := restored.frame
  have strict := restored.strict (.inr rfl)
  simp only [Context.frame, Context.mk.injEq] at frame
  rw [Context.mk.injEq]
  simp_all

namespace Parse

/-- An expression, an object literal, an element of a class and an item of a list of statements leave
the context as it was, except that `yield` may have ceased to be a name. -/
theorem productions_restore_context (n : Nat) (s : Settings) (p p' : Parser) :
  let r := productions n
  (∀ x ∈ [assignment r, objectLiteral r, listItem r], ∀ t, x s p = .ok t p' →
    p.context.Resumed p'.context) ∧
  ∀ b t, classElement r b s p = .ok t p' → p.context.Resumed p'.context
  := by
  refine ⟨fun x member t run => ?_, fun b t run => Parser.Restored.resumed (leads run)⟩
  simp only [List.mem_cons, List.not_mem_nil, or_false] at member
  rcases member with rfl | rfl | rfl
  all_goals exact Parser.Restored.resumed (leads run)

def getting : Settings := { source := { text := "\x7bget a() \x7b\x7d\x7d" } }

def beforeGetter : Parser :=
  { start getting.source.text 0 with
    cursor := { index := 1, braces := [.plain] }
    lookahead :=
      { kind := .punctuator, value := .text "\x7b", line := 1, lineStart := 0, start := 0, stop := 1 } }

/-- A getter turns `yield` off for what comes after it. -/
theorem getter_turns_yield_off :
  ∃ t p', objectLiteral (productions 3) getting beforeGetter = .ok t p' ∧
    beforeGetter.context.allowYield = true ∧ p'.context.allowYield = false
  := by
  have found : ends (objectLiteral (productions 3) getting) beforeGetter
      (fun _ p' => !p'.context.allowYield) = true := by decide +kernel
  obtain ⟨t, p', run, off⟩ := exists_of_ends found
  exact ⟨t, p', run, rfl, by simpa using off⟩

theorem productions_restore_context_getter :
  ∃ t p', objectLiteral (productions 3) getting beforeGetter = .ok t p' ∧
    beforeGetter.context.Resumed p'.context
  := by
  have found : ends (objectLiteral (productions 3) getting) beforeGetter (fun _ _ => true) = true :=
    by decide +kernel
  obtain ⟨t, p', run, -⟩ := exists_of_ends found
  exact ⟨t, p', run, (productions_restore_context 3 getting beforeGetter p').1 _ (by simp) t run⟩

end Parse

end ScriptLens
