import ScriptLens.Analysis.Call

/-!
# Expressions

The value of an expression in the current state, which its evaluation may change.
-/

namespace ScriptLens.Analysis

def literalValue : Tree → Value
  | .int n => .prim (.num (.ofInt n))
  | .real x => .prim (.num x)
  | .text t => .prim (.text t)
  | .flag b => .prim (.bool b)
  | .regexp r => .prim (.regexp r)
  | _ => .null

def evalIdentifier (t : Tree) : Analysis Value := do
  let name ← attr t .name
  if name.isText "undefined" then return .undefined
  let key := nameKey name
  let s ← state
  let i ← s.lookup key
  let scope ← object i
  let l ← localId
  if i != l then
    if !scope.equal (← object l) then
      let g ← globalId
      if i != g then
        if !scope.equal (← object g) then changeSession fun s => { s with usesClosure := true }
  return (scope.get? key).getD .top

def evalUpdate (r : Engine) (t : Tree) : Analysis Value := consuming do
  let v ← r.expr (t.get .argument)
  consume v
  let result := (← scene).update (((t.get .operator).text?).getD "") v
  consume result
  assign r (t.get .argument) none result
  if (t.get .isBefore).isTrue then return result
  return if result.isTop then .top else v

def evalNew (r : Engine) (t : Tree) : Analysis Value := consuming do
  let i ← newObject {}
  changeState fun s => { s with pending := s.pending.insert i }
  let v ← evalCall r t (some i)
  consume v
  return .ref ⟨i, .unbound⟩

def evalConditional (r : Engine) (t : Tree) : Analysis Value := consuming do
  let c ← r.expr (t.get .test)
  consume c
  if c.isTop || c.isOr then
    let other ← (← state).clone
    let v ← r.expr (t.get .consequent)
    consume v
    let (w, other) ← onState other (r.expr (t.get .alternate))
    consume w
    setState (← (← state).join other)
    return if v.equal w then v else .top
  else
    let v ← r.expr (t.get (if ← c.truth then .consequent else .alternate))
    consume v
    return v

def evalSequence (r : Engine) (last : Value) : List Tree → Analysis Value
  | [] => return last
  | t :: l => do
    let v ← r.expr t
    consume v
    evalSequence r v l

def evalThis : Analysis Value := do
  let scope ← object (← localId)
  return (scope.get? "__this").getD (.ref ⟨0, .unbound⟩)

def evalAssignment (r : Engine) (t : Tree) : Analysis Value := consuming do
  let op := ((t.get .operator).text?).getD ""
  let first := op.extract 0 1
  if first == "=" then
    let v ← r.expr (t.get .right)
    if ← isBottom then return .bot
    consume v
    assign r (t.get .left) (some (t.get .right)) v
    return v
  else
    let v ← r.expr (t.get .left)
    consume v
    let w ← r.expr (t.get .right)
    consume w
    let result ← (← scene).binary (← options).useOr first v w
    assign r (t.get .left) none result
    return result

def literalKey (t : Tree) : Key :=
  match t.get .name with
  | .text name => .text name
  | _ =>
    match t.get .value with
    | .text s => .text s
    | .int n => .int n
    | .real x => .num x
    | .flag b => .bool b
    | .regexp r => .regexp r
    | _ => .none

def evalProperties (r : Engine) (ps : Props) : List Tree → Analysis Props
  | [] => return ps
  | t :: l => do
    if t.kind != .property then return ← evalProperties r ps l
    let v ← r.expr (t.get .value)
    consume v
    if v.isTop then return ← evalProperties r ps l
    if !(t.get .computed).isTrue then
      return ← evalProperties r (ps.set (literalKey (t.get .key)) v) l
    let k ← r.expr (t.get .key)
    consume k
    match k with
    | .prim p => evalProperties r (ps.set (Key.ofPrim p) v) l
    | _ => evalProperties r ps l

def evalObject (r : Engine) (t : Tree) : Analysis Value := consuming do
  let props ← evalProperties r [] (t.get .properties).items
  let i ← newObject { props, length := none }
  return .ref ⟨i, .unbound⟩

def evalElements (r : Engine) : List Tree → Analysis (List Value)
  | [] => return []
  | t :: l => do
    let v ← r.expr t
    consume v
    return v :: (← evalElements r l)

def evalArray (r : Engine) (t : Tree) : Analysis Value := consuming do
  let l ← evalElements r (t.get .elements).items
  let i ← newObject (Builtin.arrayOf l)
  return .ref ⟨i, .unbound⟩

def objectMember (i : Nat) (key : Key) : Analysis Value := do
  let o ← object i
  if key == .text "length" then
    match o.missing, o.length with
    | .isUndefined, some n => return .prim (.num (.ofInt n))
    | _, _ => return .top
  else
    let v : Value := match Builtin.method? key with
      | some m => .ref ⟨m, .unbound⟩
      | none => o.member key
    match v with
    | .ref ⟨target, .unbound⟩ => return .ref ⟨target, .object i⟩
    | v => return v

def position? : Key → Option Int
  | .int n => some n
  | .num x => if x.isInteger then some x.trunc else none
  | _ => none

def keyKind : Key → String
  | .text _ => "<class 'str'>"
  | .int _ => "<class 'int'>"
  | .num _ => "<class 'float'>"
  | .nan _ => "<class 'float'>"
  | .bool _ => "<class 'bool'>"
  | .bytes _ => "<class 'bytes'>"
  | .regexp _ => "<class 're.Pattern'>"
  | .none => "<class 'NoneType'>"

def textMember (t : Text) (key : Key) : Analysis Value := do
  match position? key with
  | some n =>
    return if 0 ≤ n && n < t.length then .prim (.text (Text.singleton (t.get n.toNat)))
      else .undefined
  | none =>
    if key == .text "length" then return .prim (.num (.ofNat t.length))
    match Builtin.method? key with
    | some m => return .ref ⟨m, .prim (.text t)⟩
    | none =>
      print (Text.ofString "Unknown string member:  " ++ key.shown ++ Text.ofString " "
        ++ Text.ofString (keyKind key))
      return .top

def numberMember (p : Prim) (key : Key) : Analysis Value := do
  if key == .text "constructor" then
    let g ← object (← globalId)
    match g.get? "Number" with
    | some v => return v
    | none => fail .missingEntry
  match Builtin.method? key with
  | some m => return .ref ⟨m, .prim p⟩
  | none =>
    print (Text.ofString "Unknown int member:  " ++ key.shown)
    return .top

def evalMember (r : Engine) (t : Tree) : Analysis Value := consumingIf do
  let s ← memberSlot r t
  match s.holder, s.key with
  | some (.inl i), some k => return (← objectMember i k, true)
  | some (.inr p), some k =>
    match p with
    | .text t => return (← textMember t k, true)
    | .num _ => return (← numberMember p k, true)
    | .nan _ => return (← numberMember p k, true)
    | .regexp e =>
      return (if k == .text "source" then .prim (.text e.pattern) else .undefined, false)
    | _ => return (.top, true)
  | _, _ => return (.top, true)

def evalUnary (r : Engine) (t : Tree) : Analysis Value := consuming do
  let v ← r.expr (t.get .argument)
  consume v
  let result ← (← scene).unary (← options).useOr (((t.get .operator).text?).getD "") v
  consume result
  return result

/-- Evaluates an expression that may or may not be evaluated. -/
def maybe (r : Engine) (t : Tree) : Analysis Unit := do
  let other ← (← state).clone
  let (_, other) ← onState other (do
    let v ← r.expr t
    consume v)
  setState (← (← state).join other)

def evalBinary (r : Engine) (t : Tree) : Analysis Value := consuming do
  let op := ((t.get .operator).text?).getD ""
  let v ← r.expr (t.get .left)
  consume v
  let other (stops : Bool) : Analysis Value := do
    if stops then return v
    let w ← r.expr (t.get .right)
    consume w
    return w
  if op == "&&" then
    if v.isTop || v.isOr then
      maybe r (t.get .right)
      return .top
    other (!(← v.truth))
  else if op == "||" then
    if v.isTop then
      maybe r (t.get .right)
      return .top
    other (← v.truth)
  else
    let w ← r.expr (t.get .right)
    consume w
    (← scene).binary (← options).useOr op v w

def spanOf (t : Tree) : Option (Int × Int) :=
  match t.get .span with
  | .list [.int i, .int j] => some (i, j)
  | _ => none

def newFunction (t : Tree) (name : Tree) : Analysis Nat := do
  let body := t.get .body
  let s ← state
  let env := if s.lref == s.gref then none else s.lref
  let isExpr := t.kind != .functionDeclaration && (t.get .expression).isTrue
  if !(← attr body .isSeen).isTrue then
    setAttr body .isSeen (.flag true)
    setAttr body .name name
    changeSession fun s => { s with functions := body :: s.functions }
  newObject { body := some body, params := (t.get .params).items, env, isExpr, span := spanOf t }

def evalPlain (r : Engine) (t : Tree) : Analysis Value := do
  match t.kind with
  | .literal => return literalValue (t.get .value)
  | .identifier => evalIdentifier t
  | .updateExpression => evalUpdate r t
  | .newExpression => evalNew r t
  | .conditionalExpression => evalConditional r t
  | .sequenceExpression => consuming (evalSequence r .absent (t.get .expressions).items)
  | .thisExpression => evalThis
  | .assignmentExpression => evalAssignment r t
  | .objectExpression => evalObject r t
  | .arrayExpression => evalArray r t
  | .memberExpression => evalMember r t
  | .unaryExpression => evalUnary r t
  | .binaryExpression => evalBinary r t
  | .logicalExpression => evalBinary r t
  | .functionExpression => return .ref ⟨← newFunction t "<anonymous>", .unbound⟩
  | .arrowFunctionExpression => return .ref ⟨← newFunction t "<anonymous>", .unbound⟩
  | .callExpression => consuming (evalCall r t none)
  | k =>
    print (Text.ofString "WARNING: Expr type not handled:" ++ Text.ofString k.name)
    return .absent

mutual

def evalAwaited (r : Engine) : Tree → Analysis Value
  | .node _ .awaitExpression as => evalArgument r as
  | t => if t.isNull then return .top else evalPlain r t

def evalArgument (r : Engine) : List (Attr × Tree) → Analysis Value
  | [] => return .top
  | (a, t) :: l => if a == .argument then evalAwaited r t else evalArgument r l

end

/-- The loops around the current point that values are told apart by, the outermost first. -/
def loopContext : Analysis LoopContext := do
  let all := (← session).loops.reverse
  let n := (← options).maxLoopNesting
  return if n ≤ 0 then all.drop n.natAbs else all.drop (all.length - n.toNat)

def putContext (useOr : Bool) (c : LoopContext) (v : Value) :
    List (LoopContext × Value) → List (LoopContext × Value)
  | [] => [(c, v)]
  | (d, w) :: l => if d == c then (d, w.join useOr v) :: l else (d, w) :: putContext useOr c v l

def noteValue (t : Tree) (v : Value) : Analysis Unit := do
  let useOr := (← options).useOr
  let old := (← note t .staticValue).value?.getD .absent
  setNote t .staticValue (.value (old.join useOr v))
  if !(← session).loops.isEmpty then
    let old := match ← note t .contextValues with
      | .values l => l
      | _ => []
    setNote t .contextValues (.values (putContext useOr (← loopContext) v old))

def evalExpr (r : Engine) (t : Tree) : Analysis Value := do
  if ← isBottom then return .bot
  if t.isNull then return .top
  let v ← evalAwaited r t
  noteValue t v
  changeState fun s => s.hold v
  if t.kind == .callExpression then
    if (← session).needClean then collect
  return v

end ScriptLens.Analysis
