import ScriptLens.Pass.Simplify

/-!
# Statements without effects

One pass notes on each expression whether it has effects; another one removes the expression
statements that have none.
-/

namespace ScriptLens.Pass.SideEffects

open Edit

def anyOf (results : List Effects) : Bool :=
  results.any fun
    | .flag b => b
    | .calls l => !l.isEmpty
    | .unknown => false

def calledId (p : Nat) : Edit (Option Nat) := do
  match ← Simplify.calledId p with
  | some 0 => return none
  | i => return i

/-- Whether a call has effects; a function that is called by a name of a function without effects
is remembered. -/
def callActs (pures : List Text) (p : Nat) : Walk (List Nat) Bool := do
  if ← Simplify.isNamed pures (← child p .callee) then
    if let some i ← calledId p then modify fun l => i :: l
    return false
  if let some i ← calledId p then
    if (← get).contains i then return false
  return !Edit.holds (← note p .calleeIsPure)

def afterExpr (pures : List Text) (p : Nat) (results : List Effects) :
    Walk (List Nat) Effects := do
  let acts ← (do
    match ← kind p with
    | .assignmentExpression => return true
    | .updateExpression => return true
    | .callExpression => callActs pures p
    | _ => return anyOf results : Walk (List Nat) Bool)
  setNote p .sideEffects (.flag acts)
  return .flag acts

def marker (pures : List Text) : Pass (List Nat) where
  afterExpr := afterExpr pures

def mark (pures : List Text) (program : Nat) : Edit Unit := do
  clearNote .sideEffects
  let _ ← (marker pures).run program []

def isUseless (p : Nat) : Edit Bool := do
  if !Edit.holds (← note p .countedStatement) then
    count fun s => { s with statements.all := s.statements.all + 1 }
    setNote p .countedStatement (.flag true)
  if (← kind p) == .expressionStatement then
    let e ← child p .expression
    if !Edit.holds (← note e .sideEffects) then
      count fun s => { s with statements.done := s.statements.done + 1 }
      return true
  return false

def without (p : Nat) : List Item → List Item
  | [] => []
  | .place q :: l => if p == q then l else .place q :: without p l
  | x :: l => x :: without p l

def cleanList (l : Nat) : Edit Unit := do
  let places := (← items l).filterMap Item.place?
  let useless ← places.filterM isUseless
  useless.forM fun p => do setItems l (without p (← items l))

def remover : Pass Unit where
  afterStmt p _ := do
    if (← kind p) == .blockStatement then
      if let .list l ← attr p .body then cleanList l
    return .unknown
  afterProgram l := cleanList l

end ScriptLens.Pass.SideEffects
