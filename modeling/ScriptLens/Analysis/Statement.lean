import ScriptLens.Analysis.Expression
import ScriptLens.Analysis.Loop

/-!
# Statements

A statement changes the current state.  Where a statement may go one way or another, both ways are
analysed and the states after them are joined; a way that is not taken leaves the bottom state,
which no statement changes.
-/

namespace ScriptLens.Analysis

def sequence (r : Engine) : List Tree → Analysis Unit
  | [] => return ()
  | t :: l => do
    r.exec t false
    sequence r l

/-- Whether a statement declares names that hold from the start of the sequence it stands in. -/
def isDeclaration (t : Tree) : Bool :=
  t.kind == .functionDeclaration || t.kind == .variableDeclaration

def hoist (r : Engine) : List Tree → Analysis Unit
  | [] => return ()
  | t :: l => do
    if isDeclaration t then r.exec t true
    hoist r l

def hoistedSequence (r : Engine) (l : List Tree) : Analysis Unit := do
  hoist r l
  sequence r (l.filter fun t => t.kind != .functionDeclaration)

def declare (r : Engine) (t : Tree) (hoisting : Bool) : Analysis Unit := consuming do
  let key := nameKey ((t.get .id).get .name)
  if t.kind != .variableDeclarator then
    fail (.badValue (Text.ofString "Vardecl type not handled:" ++ Text.ofString t.kind.name))
  if hoisting || (t.get .initial).isNull then
    let l ← localId
    changeObject l fun o => o.put key .undefined
  else
    let v ← untraced (r.expr (t.get .initial))
    consume v
    let l ← localId
    changeObject l fun o =>
      let o := o.drop key
      if o.missing == .isTop && v.isTop then o else o.put key v

def methods (r : Engine) (name : Tree) (proto : Obj) : List Tree → Analysis Obj
  | [] => return proto
  | t :: l => do
    setLive t
    let v ← r.expr (t.get .value)
    consume v
    let key := t.get .key
    if key.kind == .identifier then
      return ← methods r name (proto.put (nameKey (key.get .name)) v) l
    let k ← r.expr key
    consume k
    match k with
    | .prim (.text s) => methods r name (proto.put s v) l
    | _ =>
      print (Text.ofString "WARNING: Cannot evaluate method name for class: "
        ++ (name.text?.getD "None"))
      methods r name proto l

def declareClass (r : Engine) (t : Tree) : Analysis Unit := consuming do
  let body := t.get .body
  setLive body
  let name := (t.get .id).get .name
  let proto ← methods r name {} (body.get .body).items
  let c ← newId
  let p ← newId
  changeState fun s => (s.putObj c {}).putObj p proto
  let g ← globalId
  changeObject g fun o => o.put (nameKey name) (.ref ⟨c, .unbound⟩)
  changeObject c fun o => o.put "prototype" (.ref ⟨p, .unbound⟩)

def loopHeadPart (r : Engine) (t : Tree) : Analysis Unit := do
  if t.kind == .variableDeclaration then r.exec t false
  else
    let v ← r.expr t
    passThrough t
    release v

def loopStatements (t : Tree) : Except Failure (List Tree) :=
  match (t.get .body).get .body with
  | .list l => return l
  | .null => return [t.get .body]
  | _ => throw .wrongKind

def loopStart (r : Engine) (t : Tree) : Analysis Unit :=
  if (t.get .initial).isNull then return () else loopHeadPart r (t.get .initial)

def loopParts (r : Engine) (t : Tree) (isForIn : Bool) : LoopParts where
  test :=
    if isForIn || (t.get .test).isNull then none
    else some (do
      let v ← r.expr (t.get .test)
      passThrough (t.get .test)
      return v)
  assumed := if isForIn then .top else .prim (.bool true)
  body := do
    setLive (t.get .body)
    sequence r (← loopStatements t)
  update := if (t.get .update).isNull then return () else loopHeadPart r (t.get .update)

def execLoop (r : Engine) (t : Tree) (isForIn : Bool) : Analysis Unit :=
  loop t (loopStart r t) (loopParts r t isForIn) patience

inductive CaseMatch where
  | no
  | yes
  | maybe

def matchCase (discriminant v : Value) : CaseMatch :=
  if !v.isTop && !discriminant.isTop && !v.equal discriminant then .no
  else match v, discriminant with
    | .prim p, .prim q => if p.equal q then .yes else .maybe
    | _, _ => .maybe

def takeCase (r : Engine) (t : Tree) : Analysis State := do
  let other ← (← state).clone
  let saved := (← session).broken
  changeSession fun s => { s with broken := .bottom }
  let (_, other) ← onState other (sequence r (t.get .consequent).items)
  let other ← other.join (← session).broken
  changeSession fun s => { s with broken := saved }
  return other

def takeCases (r : Engine) (discriminant : Value) : List Tree → Analysis (List State × Bool)
  | [] => return ([], false)
  | t :: l => do
    let v ← untraced (r.expr (t.get .test))
    consume v
    match matchCase discriminant v with
    | .no => takeCases r discriminant l
    | .yes => return ([← takeCase r t], true)
    | .maybe =>
      let s ← untraced (takeCase r t)
      let (states, sure) ← takeCases r discriminant l
      return (s :: states, sure)

def joinAll : List State → Analysis Unit
  | [] => return ()
  | s :: l => do
    setState (← (← state).join s)
    joinAll l

def execSwitch (r : Engine) (t : Tree) : Analysis Unit := consuming do
  let d ← untraced (r.expr (t.get .discriminant))
  consume d
  let d := if (← options).mergeSwitch then .top else d
  passThrough (t.get .discriminant)
  let (states, sure) ← takeCases r d (t.get .cases).items
  if !sure && !states.isEmpty then passThrough t
  if sure then changeState State.toBottom
  joinAll states

def isNarrowable (t : Tree) : Bool := t.kind == .identifier || t.kind == .memberExpression

def isComparable : Option Value → Bool
  | some (.prim _) => true
  | some .undefined => true
  | _ => false

def canNarrow (target other : Tree) : Analysis Bool := do
  if isNarrowable target then return isComparable (← note other .staticValue).value?
  else return false

def comparison (t : Tree) : Analysis (Option (Tree × Tree)) := do
  let left := t.get .left
  let right := t.get .right
  if ← canNarrow left right then return some (left, right)
  if ← canNarrow right left then return some (right, left)
  return none

def excludeChoice (i : Nat) (k : Key) (v : Value) : Analysis Unit := do
  match (← object i).get? k with
  | some (.or s) =>
    let rest := match v with
      | .atom a => Choices.erase s a
      | _ => s
    match rest with
    | [] => changeState State.toBottom
    | [a] => changeObject i fun o => o.put k (.atom a)
    | l => changeObject i fun o => o.put k (.or l)
  | _ => return ()

def narrowSide (r : Engine) (target other : Tree) (same : Bool) : Analysis Unit := do
  let s ← slot r target
  match s.holder, s.key with
  | none, _ => return ()
  | _, none => return ()
  | some (.inr _), _ => fail .missingPart
  | some (.inl i), some k =>
    let v := (← note other .staticValue).value?.getD .absent
    if same then changeObject i fun o => o.put k v
    else excludeChoice i k v

def sameSides? (t : Tree) (holds : Bool) : Option Bool :=
  if (t.get .operator).isText "===" then some holds
  else if (t.get .operator).isText "!==" then some !holds
  else none

def narrowTo (r : Engine) (t : Tree) (holds : Bool) : Analysis Unit := do
  if !(← options).filterConditions then return ()
  match sameSides? t holds with
  | none => return ()
  | some same =>
    match ← comparison t with
    | none => return ()
    | some (target, other) => narrowSide r target other same

def execBoth (r : Engine) (t : Tree) : Analysis Unit := do
  let other ← (← state).clone
  narrowTo r (t.get .test) true
  r.exec (t.get .consequent) false
  let (_, other) ← onState other (do
    narrowTo r (t.get .test) false
    if !(t.get .alternate).isNull then r.exec (t.get .alternate) false)
  collect
  let other ← collectIn other
  setState (← (← state).join other)

def execIf (r : Engine) (t : Tree) : Analysis Unit := consuming do
  let c ← untraced (r.expr (t.get .test))
  consume c
  match ← c.truth? (← options).useOr with
  | none =>
    passThrough t
    untraced (execBoth r t)
  | some true => r.exec (t.get .consequent) false
  | some false => if !(t.get .alternate).isNull then r.exec (t.get .alternate) false

def declareFunction (t : Tree) : Analysis Unit := do
  let name := (t.get .id).get .name
  let l ← localId
  let i ← newFunction t name
  changeObject l fun o => o.put (nameKey name) (.ref ⟨i, .unbound⟩)

def execReturn (r : Engine) (t : Tree) : Analysis Unit := do
  let v ← (do
    if t.isNull then return .undefined else r.expr t : Analysis Value)
  if !t.isNull then
    if ← isBottom then return ()
  let old := (← session).result
  match old, v with
  | .absent, .absent => fail .missingPart
  | .bot, .absent => fail .missingPart
  | .absent, _ => changeSession fun s => { s with result := v }
  | .bot, _ => changeSession fun s => { s with result := v }
  | _, .bot => pure ()
  | _, _ => if !old.equal v then changeSession fun s => { s with result := .top }
  let returned ← (← session).returned.join (← state)
  changeSession fun s => { s with returned }
  changeState State.toBottom

def execBreak : Analysis Unit := do
  let broken ← (← session).broken.join (← state)
  changeSession fun s => { s with broken }
  changeState State.toBottom

def execContinue : Analysis Unit := do
  let continued ← (← session).continued.join (← state)
  changeSession fun s => { s with continued }
  changeState State.toBottom

def execExpression (r : Engine) (t : Tree) : Analysis Unit := do
  let e := t.get .expression
  let callee := e.get .callee
  if e.kind == .callExpression && callee.kind == .identifier && (callee.get .name).isText "eval" then
    setNote e .evalUnused (.flag true)
  passThrough t
  untraced (do
    let v ← r.expr e
    changeState fun s => { s with value := v }
    release v)

def enterStatement (t : Tree) : Analysis Unit := do
  setLive t
  if (spanOf t).isNone then fail .wrongKind
  changeSession fun s => { s with last := some t }

def declareAll (r : Engine) (hoisting : Bool) : List Tree → Analysis Unit
  | [] => return ()
  | t :: l => do
    declare r t hoisting
    declareAll r hoisting l

/-- A statement that the loop being unrolled passes through as a whole. -/
def whole (t : Tree) (body : Analysis Unit) : Analysis Unit := do
  passThrough t
  untraced body

/-- A statement; the last argument says whether only its declarations are of interest. -/
def execStatement (r : Engine) (t : Tree) (hoisting : Bool) : Analysis Unit := do
  if ← isBottom then return ()
  enterStatement t
  match t.kind with
  | .variableDeclaration =>
    if hoisting then declareAll r true (t.get .declarations).items
    else whole t (declareAll r false (t.get .declarations).items)
  | .classDeclaration => whole t (declareClass r t)
  | .expressionStatement => execExpression r t
  | .forOfStatement => print "ForOfStatement"
  | .forInStatement =>
    whole t (do
      setLive (t.get .left)
      setLive (t.get .right)
      execLoop r t true)
  | .forStatement => whole t (execLoop r t false)
  | .whileStatement => whole t (execLoop r t false)
  | .ifStatement => execIf r t
  | .throwStatement =>
    whole t (do
      let v ← r.expr (t.get .argument)
      release v)
  | .functionDeclaration => whole t (declareFunction t)
  | .returnStatement => whole t (execReturn r (t.get .argument))
  | .breakStatement => execBreak
  | .continueStatement => execContinue
  | .tryStatement => whole t (r.exec (t.get .block) false)
  | .blockStatement => whole t (hoistedSequence r (t.get .body).items)
  | .emptyStatement => return ()
  | .switchStatement => execSwitch r t
  | k => print (Text.ofString "WARNING: Statement type not handled: " ++ Text.ofString k.name)

end ScriptLens.Analysis
