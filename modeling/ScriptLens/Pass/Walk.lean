import ScriptLens.Draft.Copy

/-!
# Walks over a program

A pass changes a program while it walks over its statements and expressions.
-/

namespace ScriptLens

open Edit

/-- What a pass finds out about an expression or statement: whether it has effects, or of which
calls its effects consist. -/
inductive Effects where
  | unknown
  | flag (b : Bool)
  | calls (l : List Nat)
deriving Inhabited

/-- Computations of a pass that keeps a state of its own. -/
abbrev Walk (σ : Type) := StateT σ Edit

structure Pass (σ : Type) where
  beforeExpr : Nat → Walk σ Bool := fun _ => return true
  beforeStmt : Nat → Walk σ Bool := fun _ => return true
  afterExpr : Nat → List Effects → Walk σ Effects := fun _ _ => return .unknown
  afterStmt : Nat → List Effects → Walk σ Effects := fun _ _ => return .unknown
  /-- What happens to the list of the statements of the program at the end. -/
  afterProgram : Nat → Walk σ Unit := fun _ => return ()

namespace Pass

variable {σ : Type}

/-- The ways to walk over expressions and statements; nothing is done where there is none. -/
structure Walker (σ : Type) where
  expr : Item → Walk σ Effects
  stmt : Item → Walk σ Effects

def each (f : Item → Walk σ Effects) : List Item → Walk σ (List Effects)
  | [] => return []
  | x :: l => do
    let r ← f x
    return r :: (← each f l)

def placeOf : Item → Walk σ Nat
  | .place p => return p
  | _ => throw .missingPart

def properties (w : Walker σ) : List Item → Walk σ (List Effects)
  | [] => return []
  | x :: l => do
    let p ← placeOf x
    let r ← (do
      if ← isTrue p .computed then return [← w.expr (← attr p .key)]
      else if (← kind p) == .property then return [← w.expr (← attr p .value)]
      else return [] : Walk σ (List Effects))
    return r ++ (← properties w l)

def arguments (w : Walker σ) : List Item → Walk σ (List Effects)
  | [] => return []
  | x :: l => do
    let p ← placeOf x
    let block ← (do
      if (← kind p) == .blockStatement then return [← w.stmt x] else return []
      : Walk σ (List Effects))
    let r ← w.expr x
    return block ++ r :: (← arguments w l)

def assignmentParts (w : Walker σ) (p : Nat) : Walk σ (List Effects) := do
  let left ← child p .left
  let target ← (do
    if (← kind left) == .memberExpression then
      let o ← w.expr (← attr left .object)
      if ← isTrue left .computed then
        return [o, ← w.expr (← attr left .property)]
      else return [o]
    else return [] : Walk σ (List Effects))
  return target ++ [← w.expr (← attr p .right)]

/-- The results for some attributes, one after another. -/
def parts (w : Walker σ) (p : Nat) : List Attr → Walk σ (List Effects)
  | [] => return []
  | a :: l => do
    let r ← w.expr (← attr p a)
    return r :: (← parts w p l)

def exprParts (w : Walker σ) (p : Nat) : Walk σ (List Effects) := do
  match ← kind p with
  | .newExpression =>
    let _ ← w.expr (← attr p .callee)
    each w.expr (← itemsOf p .arguments)
  | .conditionalExpression => parts w p [.test, .consequent, .alternate]
  | .sequenceExpression => each w.expr (← itemsOf p .expressions)
  | .assignmentExpression => assignmentParts w p
  | .objectExpression => properties w (← itemsOf p .properties)
  | .arrayExpression => each w.expr (← itemsOf p .elements)
  | .memberExpression =>
    let o ← w.expr (← attr p .object)
    if ← isTrue p .computed then return [o, ← w.expr (← attr p .property)]
    else return [o]
  | .unaryExpression => parts w p [.argument]
  | .binaryExpression => parts w p [.left, .right]
  | .logicalExpression => parts w p [.left, .right]
  | .functionExpression => return [← w.stmt (← attr p .body)]
  | .arrowFunctionExpression =>
    if ← isTrue p .expression then return [← w.expr (← attr p .body)]
    else return [← w.stmt (← attr p .body)]
  | .callExpression =>
    let c ← w.expr (← attr p .callee)
    return c :: (← arguments w (← itemsOf p .arguments))
  | .updateExpression => parts w p [.argument]
  | .awaitExpression => parts w p [.argument]
  | _ => return []

def declarations (w : Walker σ) : List Item → Walk σ (List Effects)
  | [] => return []
  | x :: l => do
    let p ← placeOf x
    let id ← child p .id
    let pattern ← (do
      if (← kind id) == .objectPattern then properties w (← itemsOf id .properties)
      else return [] : Walk σ (List Effects))
    let first ← attr p .initial
    let value ← (do
      if Item.isNull first then return [] else return [← w.expr first]
      : Walk σ (List Effects))
    return pattern ++ value ++ (← declarations w l)

def headPart (w : Walker σ) (x : Item) : Walk σ Effects := do
  match x with
  | .place p =>
    if (← kind p) == .variableDeclaration then
      let _ ← w.stmt x
    else
      let _ ← w.expr x
    return .unknown
  | _ => return .unknown

def cases (w : Walker σ) (last : Nat) : List Item → Walk σ (Nat × List Effects)
  | [] => return (last, [])
  | x :: l => do
    let p ← placeOf x
    let t ← w.expr (← attr p .test)
    let body ← itemsOf p .consequent
    let rs ← each w.stmt body
    let last := ((body.filterMap Item.place?).getLast?).getD last
    let (last, more) ← cases w last l
    return (last, t :: rs ++ more)

def optional (f : Item → Walk σ Effects) (p : Nat) (a : Attr) : Walk σ (List Effects) := do
  let x ← attr p a
  if Item.isNull x then return [] else return [← f x]

def stmtParts (w : Walker σ) (p : Nat) : Walk σ (Nat × List Effects) := do
  match ← kind p with
  | .variableDeclaration => return (p, ← declarations w (← itemsOf p .declarations))
  | .expressionStatement => return (p, ← parts w p [.expression])
  | .ifStatement =>
    let t ← w.expr (← attr p .test)
    let c ← w.stmt (← attr p .consequent)
    return (p, t :: c :: (← optional w.stmt p .alternate))
  | .functionDeclaration => return (p, [← w.stmt (← attr p .body)])
  | .returnStatement => return (p, ← optional w.expr p .argument)
  | .whileStatement =>
    let t ← w.expr (← attr p .test)
    return (p, [t, ← w.stmt (← attr p .body)])
  | .tryStatement => return (p, [← w.stmt (← attr p .block)])
  | .blockStatement => return (p, ← each w.stmt (← itemsOf p .body))
  | .forStatement =>
    let i ← optional (headPart w) p .initial
    let t ← optional w.expr p .test
    let u ← optional (headPart w) p .update
    return (p, i ++ t ++ u ++ [← w.stmt (← attr p .body)])
  | .throwStatement => return (p, ← parts w p [.argument])
  | .switchStatement =>
    let d ← w.expr (← attr p .discriminant)
    let (last, l) ← cases w p (← itemsOf p .cases)
    return (last, d :: l)
  | .classDeclaration => return (p, [← w.stmt (← attr p .body)])
  | .classBody => return (p, ← each w.stmt (← itemsOf p .body))
  | .methodDefinition =>
    let key ← child p .key
    let k ← (do
      if (← kind key) != .identifier then return [← w.expr (.place key)] else return []
      : Walk σ (List Effects))
    return (p, k ++ [← w.stmt (← attr (← child p .value) .body)])
  | .forInStatement =>
    let l ← headPart w (← attr p .left)
    let r ← headPart w (← attr p .right)
    return (p, [l, r, ← w.stmt (← attr p .body)])
  | _ => return (p, [])

def walker (pass : Pass σ) : Nat → Walker σ
  | 0 => { expr := fun _ => throw .unfinished, stmt := fun _ => throw .unfinished }
  | n + 1 =>
    { expr := fun x => do
        match x with
        | .place p =>
          if !(← pass.beforeExpr p) then return .unknown
          let rs ← exprParts (walker pass n) p
          pass.afterExpr p rs
        | _ => return .unknown
      stmt := fun x => do
        let p ← placeOf x
        if !(← pass.beforeStmt p) then return .unknown
        let (last, rs) ← stmtParts (walker pass n) p
        pass.afterStmt last rs }

/-- A bound for the depth of walks that no walk reaches. -/
def patience : Nat := 1000000000

def runStmt (pass : Pass Unit) (p : Nat) : Edit Unit := do
  let _ ← ((walker pass patience).stmt (.place p)).run ()

def runExpr (pass : Pass Unit) (p : Nat) : Edit Unit := do
  let _ ← ((walker pass patience).expr (.place p)).run ()

def overProgram (pass : Pass σ) (program : Nat) : Walk σ Unit := do
  let _ ← each (walker pass patience).stmt (← itemsOf program .body)
  match ← attr program .body with
  | .list l => pass.afterProgram l
  | _ => pure ()

def run (pass : Pass σ) (program : Nat) (start : σ) : Edit σ := do
  let (_, s) ← (overProgram pass program).run start
  return s

end Pass

end ScriptLens
