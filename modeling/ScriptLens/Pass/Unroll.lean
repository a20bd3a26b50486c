import ScriptLens.Pass.Walk

/-!
# Unrolling loops

A loop whose iterations the analysis could follow one by one is replaced by what it does, unless
that is too long.
-/

namespace ScriptLens.Pass.Unroll

open Edit

def putContext : List (LoopContext × Value) → LoopContext × Value → List (LoopContext × Value)
  | [], p => [p]
  | q :: l, p => if q.1 == p.1 then (q.1, p.2) :: l else q :: putContext l p

def isOwn (loop : Nat) (p : LoopContext × Value) : Except Failure Bool :=
  match p.1.getLast? with
  | some c => return c.1 == loop
  | none => throw .missingItem

def select (useOr : Bool) (loop : Nat) (iteration : Int) (l : List (LoopContext × Value)) :
    Except Failure (List (LoopContext × Value) × Value) := do
  let own ← l.filterM (isOwn loop)
  let here := own.filter fun p => p.1.getLast?.any fun c => c.2 == iteration
  let merged := here.foldl (fun v p => v.join useOr p.2) Value.absent
  let shortened := (here.filter fun p => 1 < p.1.length).map fun p => (p.1.dropLast, p.2)
  let all := shortened.foldl putContext l
  return (all.filter fun p => !own.any fun q => q.1 == p.1, merged)

def selector (loop : Nat) (iteration : Int) : Pass Unit where
  afterExpr p _ := do
    if let .values l ← note p .contextValues then
      match select (← (get : Edit Draft)).useOr loop iteration l with
      | .error f => throw f
      | .ok (rest, v) =>
        setNote p .contextValues (if rest.isEmpty then .none else .values rest)
        setNote p .staticValue (match v with
          | .absent => .none
          | _ => .value v)
    return .unknown

def sizeOf (p : Nat) : Edit Int := do
  match ← itemsOf p .span with
  | [.leaf (.int i), .leaf (.int j)] => return j - i
  | _ => throw .wrongKind

def traceSize (trace : List Int) : Edit Int :=
  trace.foldlM (fun n i => do
    if i == -1 then return n else return n + (← sizeOf (← nodeAt i.toNat))) 0

def wrapped : List Kind :=
  [.literal, .arrayExpression, .arrowFunctionExpression, .assignmentExpression, .awaitExpression,
   .binaryExpression, .callExpression, .conditionalExpression, .functionExpression,
   .logicalExpression, .memberExpression, .newExpression, .objectExpression, .sequenceExpression,
   .thisExpression, .unaryExpression, .updateExpression]

def step (loop : Nat) (iteration : Int) (i : Nat) : Edit Item := do
  let c ← copy (← nodeAt i)
  let s ← (do
    if wrapped.contains (← kind c) then
      newNode .expressionStatement
        [(.expression, .place c), (.span, ← attr c .span)]
    else return c : Edit Nat)
  (selector loop iteration).runStmt s
  return .place s

def steps (body : Nat) (loop : Nat) (iteration : Int) : List Int → Edit Unit
  | [] => return ()
  | i :: l => do
    if i == -1 then steps body loop (iteration + 1) l
    else
      let s ← step loop iteration i.toNat
      setItems body ((← items body) ++ [s])
      steps body loop iteration l

def unroll (p : Nat) (trace : List Int) : Edit Unit := do
  let loop ← mark p
  count fun s => { s with loops.done := s.loops.done + 1 }
  setKind p .blockStatement
  let body ← newList []
  setAttr p .body body
  if let .list n := body then steps n loop (-1) trace
  setAttr p .leadingComments (← newList [comment " Begin unrolled loop "])
  setAttr p .trailingComments (← newList [comment " End unrolled loop "])
  eraseNote p .unrolled

/-- Replaces a loop that the analysis could follow, unless that makes it twice as long. -/
def afterStmt (always : Bool) (p : Nat) : Edit Unit := do
  let k ← kind p
  if k == .whileStatement || k == .forStatement then
    count fun s => { s with loops.all := s.loops.all + 1 }
    if let .trace trace ← note p .unrolled then
      let _ ← mark p
      let size ← traceSize trace
      if always then unroll p trace
      else if size < 2 * (← sizeOf p) then unroll p trace

def pass (always : Bool) : Pass Unit where
  afterStmt p _ := do
    afterStmt always p
    return .flag true

end ScriptLens.Pass.Unroll
