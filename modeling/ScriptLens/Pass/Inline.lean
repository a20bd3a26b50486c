import ScriptLens.Pass.Walk

/-!
# Inlining calls

A call of a known function is replaced by a copy of the expression it returns, and a statement that
calls a function of at most one statement by a copy of its body.  In the copies the arguments stand
for the parameters.
-/

namespace ScriptLens.Pass.Inline

open Edit

def substitution (formal : List Tree) (actual : List Item) : Pass Unit where
  afterExpr p _ := do
    if (← kind p) == .identifier then
      let name ← nameOf p
      match formal.findIdx? fun t => t.text? == name.text? && t.text?.isSome with
      | some i =>
        match actual[i]? with
        | some (.place q) => assign p q []
        | some _ => throw .missingPart
        | none => throw .missingItem
      | none => pure ()
    return .unknown

/-- The number of the body of the function that a call calls, if it is known. -/
def targetOf (p : Nat) : Edit (Option Nat) := do
  match ← note p .targetBody with
  | .node i => if i == 0 then return none else return some i
  | _ => return none

def argumentsOf (p : Nat) : Edit (Pass Unit) := do
  let formal := match ← note p .targetParams with
    | .names l => l
    | _ => []
  return substitution formal (← itemsOf p .arguments)

def counted : Walk Nat Unit := do
  count fun s => { s with calls.done := s.calls.done + 1 }
  modify (· + 1)

def longest : Nat := 1

def beforeStmt (p : Nat) : Walk Nat Bool := do
  if (← kind p) == .expressionStatement then
    let e ← child p .expression
    if (← kind e) == .callExpression then
      if let some i ← targetOf e then
        let body ← nodeAt i
        if (← itemsOf body .body).length ≤ longest then
          let c ← copy body
          (← argumentsOf e).runStmt c
          assign p c []
          counted
  return true

def returned (body : Nat) : Edit (Option Nat) := do
  match ← kind body with
  | .returnStatement => child? body .argument
  | .blockStatement =>
    match ← itemsOf body .body with
    | .place q :: _ =>
      if (← kind q) == .returnStatement then child? q .argument else return none
    | _ => return none
  | _ => return none

def beforeExpr (p : Nat) : Walk Nat Bool := do
  if (← kind p) == .callExpression then
    if let some i ← targetOf p then
      let body ← nodeAt i
      let value ← returned body
      if !Edit.holds (← note p .countedCall) then
        setNote p .countedCall (.flag true)
        count fun s => { s with calls.all := s.calls.all + 1 }
      if let some v := value then
        let c ← copy v
        (← argumentsOf p).runExpr c
        assign p c []
        counted
  return true

def pass : Pass Nat where
  beforeStmt := beforeStmt
  beforeExpr := beforeExpr

/-- Replaces calls until there are none to replace; the last argument bounds the rounds. -/
def exhaust (program : Nat) : Nat → Edit Unit
  | 0 => throw .unfinished
  | n + 1 => do
    let count ← pass.run program 0
    if count == 0 then return () else exhaust program n

end ScriptLens.Pass.Inline
