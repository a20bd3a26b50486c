import ScriptLens.Pass.Walk

/-!
# Simplifying expressions

An expression whose value is known becomes a literal.  The calls in it that may have effects are
kept: the literal then stands at the end of a sequence that begins with them.
-/

namespace ScriptLens.Pass.Simplify

open Edit

/-- What is known when the pass begins. -/
structure Setting where
  pures : List Text := []
  ignoreUndefined : Bool := false

def literal : Prim → Item
  | .num x => .leaf (.real x)
  | .nan _ => .leaf (.real Double.nan)
  | .text t => .leaf (.text t)
  | .bool b => .leaf (.flag b)
  | .bytes t => .bytes t
  | .regexp r => .leaf (.regexp r)
  | .none => .leaf .null

def isNegative (p : Prim) : Bool :=
  match p with
  | .num x => x.lt (.ofNat 0)
  | _ => false

def hasLiteral (p : Prim) : Bool :=
  match p with
  | .num x => !x.lt (.ofNat 0) && x.isFinite
  | .nan _ => false
  | _ => true

def callsOf : List Effects → Option (List Nat)
  | [] => some []
  | .flag true :: _ => none
  | .calls l :: rest => (callsOf rest).map (l ++ ·)
  | _ :: rest => callsOf rest

def isNamed (names : List Text) (p : Nat) : Edit Bool := do
  match ← nameOf p with
  | .text t => return names.contains t
  | _ => return false

def consider (p : Nat) : Edit Unit := do
  if !Edit.holds (← note p .countedExpression) then
    count fun s => { s with expressions.all := s.expressions.all + 1 }
    setNote p .countedExpression (.flag true)

def simplifyUpdate (p : Nat) (v : Prim) : Edit Unit := do
  if isNegative v then return ()
  let l ← newNode .literal [(.value, literal v), (.raw, .leaf .null)]
  let n ← newNode .assignmentExpression
    [(.operator, .leaf "="), (.left, ← attr p .argument), (.right, .place l)]
  share p n

def calledId (p : Nat) : Edit (Option Nat) := do
  match ← valueOf (← child p .callee) with
  | .ref r => return some r.target
  | _ => return none

/-- Remembers a function that is called by a name of a function without effects. -/
def learnPure (s : Setting) (p : Nat) : Walk (List Nat) Unit := do
  if (← kind p) == .callExpression then
    if ← isNamed s.pures (← child p .callee) then
      if let some i ← calledId p then modify fun l => i :: l

def mayAct (s : Setting) (p : Nat) : Walk (List Nat) Bool := do
  if (← kind p) != .callExpression then return false
  if holds (← note p .calleeIsPure) then return false
  if ← isNamed s.pures (← child p .callee) then return false
  match ← calledId p with
  | some i => return !(← get).contains i
  | none => return true

def knownValue (s : Setting) (p : Nat) : Edit Value := do
  let v ← valueOf p
  match v with
  | .or l =>
    if s.ignoreUndefined then
      let w := match l.find? fun a => match a with
          | .prim _ => true
          | _ => false with
        | some a => Value.atom a
        | none => v
      setNote p .staticValue (.value w)
      return w
    else return v
  | _ => return v

def toLiteral (p : Nat) (v : Value) (x : Item) (calls : List Nat) : Edit Unit := do
  if Item.isNull (← attr p .value) then
    count fun s => { s with expressions.done := s.expressions.done + 1 }
  setKind p .literal
  setAttr p .value x
  if !calls.isEmpty then
    let l ← newNode .literal [(.value, x), (.raw, ← attr p .raw)]
    let es ← newList ((calls ++ [l]).map Item.place)
    let n ← newNode .sequenceExpression [(.expressions, es)]
    share p n
    setNote p .staticValue (.value v)
    setNote p .impure (.flag true)

def afterExpr (s : Setting) (p : Nat) (results : List Effects) : Walk (List Nat) Effects := do
  consider p
  match callsOf results with
  | none => return .flag true
  | some calls =>
    let k ← kind p
    if k == .assignmentExpression || k == .conditionalExpression || k == .logicalExpression then
      return .flag true
    if k == .updateExpression then
      if let .prim v ← valueOf p then
        simplifyUpdate p v
        return .flag true
    learnPure s p
    let calls ← (do
      if ← mayAct s p then
        let c ← newNode .callExpression
          [(.callee, ← attr p .callee), (.arguments, ← attr p .arguments)]
        return calls ++ [c]
      else return calls : Walk (List Nat) (List Nat))
    let v ← knownValue s p
    let known? := match v with
      | .prim q => if hasLiteral q then some (literal q) else none
      | .null => some (.leaf .null)
      | _ => none
    match known? with
    | some x =>
      if !Edit.holds (← note p .isUpdated) then toLiteral p v x calls
    | none => pure ()
    return .calls calls

def pass (s : Setting) : Pass (List Nat) where
  beforeExpr p := do
    if (← kind p) == .updateExpression then
      setNote (← child p .argument) .isUpdated (.flag true)
    return true
  afterExpr := afterExpr s
  afterStmt p _ := do
    if (← kind p) == .expressionStatement then
      setNote (← child p .expression) .staticValue .none
    return .unknown

end ScriptLens.Pass.Simplify
