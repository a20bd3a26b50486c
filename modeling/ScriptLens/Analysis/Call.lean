import ScriptLens.Analysis.Native

/-!
# Calls

A call of a function of the program is followed into its body, in a new local scope.
-/

namespace ScriptLens.Analysis

mutual

def slotWithin (r : Engine) : Nat → Tree → Analysis Slot
  | 0, _ => fail .unfinished
  | n + 1, t => do
    match t.kind with
    | .identifier =>
      let key := nameKey (t.get .name)
      let i ← (← state).lookup key
      if i != (← localId) then changeSession fun s => { s with isPure := false }
      return { holder := some (.inl i), key := some key, isMember := false }
    | .memberExpression =>
      changeSession fun s => { s with isPure := false }
      memberWithin r n t
    | _ => fail (.badValue "Invalid assignment left type")

def memberWithin (r : Engine) : Nat → Tree → Analysis Slot
  | 0, _ => fail .unfinished
  | n + 1, t => do
    let v ← r.expr (t.get .object)
    consume v
    let target ← narrowed r n (t.get .object) v
    let key ← (do
      if (t.get .computed).isTrue then
        let k ← r.expr (t.get .property)
        consume k
        match k with
        | .top => return none
        | .or _ => return none
        | .undefined => return some (.text "__undefined")
        | .prim .none => return none
        | .prim p => return some (Key.ofPrim p)
        | k => fail (.badValue ("Invalid property type: " ++ k.kindName))
      else
        match (t.get .property).get .name with
        | .text name => return some (.text name)
        | _ => return none : Analysis (Option Key))
    match target with
    | .ref q =>
      let _ ← object q.target
      return { holder := some (.inl q.target), key, isMember := true }
    | .prim p => return { holder := some (.inr p), key, isMember := false }
    | _ => return { holder := none, key, isMember := false }

def narrowed (r : Engine) : Nat → Tree → Value → Analysis Value
  | 0, _, _ => fail .unfinished
  | n + 1, t, v => do
    match v with
    | .or s =>
      if (← options).filterErrors then
        match Choices.erase s .undefined with
        | [a] =>
          overwrite (← slotWithin r n t) (.atom a)
          return .atom a
        | _ => return v
      else return v
    | _ => return v

end

mutual

/-- The number of nodes that a chain of member expressions can have. -/
def chainLength : Tree → Nat
  | .node _ _ as => chainAttrs as + 1
  | _ => 0

def chainAttrs : List (Attr × Tree) → Nat
  | [] => 0
  | (a, t) :: l => if a == .object then chainLength t else chainAttrs l

end

def slotSteps (t : Tree) : Nat := 3 * chainLength t + 3

def slot (r : Engine) (t : Tree) : Analysis Slot := slotWithin r (slotSteps t) t

def memberSlot (r : Engine) (t : Tree) : Analysis Slot := memberWithin r (slotSteps t) t

/-- The value of what is called or accessed, which cannot be undefined. -/
def narrow (r : Engine) (t : Tree) (v : Value) : Analysis Value := narrowed r (slotSteps t + 1) t v

/-- Whether a slot lies where an unknown program may read it. -/
def isExposed (s : Slot) : Analysis Bool := do
  match s.holder with
  | none => return true
  | some (.inl i) =>
    if s.isMember then return (← object i).props.contains "__probable_api" else return false
  | some (.inr _) => return false

/-- Puts a function that is assigned to where an unknown program may read it aside. -/
def expose (s : Slot) (source : Option Tree) (v : Value) : Analysis Unit :=
  match source with
  | some e => do
    if !(← note e .processed).isTrue then
      if ← isExposed s then
        if ← refersToFunction v then
          defer v
          setNote e .processed (.flag true)
  | none => pure ()

def writeSlot (s : Slot) (v : Value) : Analysis Unit :=
  match s.holder, s.key with
  | none, _ => return ()
  | some (.inr _), _ => fail .missingPart
  | some (.inl i), none => changeObject i fun o => { o.setMissing .isTop with props := [] }
  | some (.inl i), some k => changeObject i fun o => (o.drop k).setMember (some k) v

def assign (r : Engine) (target : Tree) (source : Option Tree) (v : Value) : Analysis Unit := do
  let s ← slot r target
  expose s source v
  writeSlot s v

def arguments (r : Engine) (callee : Callee) : List Tree → Analysis (List Value)
  | [] => return []
  | t :: l => do
    let v ← r.expr t
    consume v
    if ← callee.isCallable then return v :: (← arguments r callee l)
    if ← refersToFunction v then
      if !(← note t .processed).isTrue then
        setNote t .processed (.flag true)
        defer v
    arguments r callee l

def noteTarget (site : Tree) (body : Tree) (params : List Tree) : Analysis Unit := do
  if site.kind == .callExpression then
    match ← note site .targetsAgree with
    | .none =>
      let i ← nodeId body
      setNote site .targetBody (.node i)
      setNote site .targetParams (.names (params.map fun p => p.get .name))
      setNote site .targetsAgree (.flag false)
    | _ => pure ()

/-- The properties of the scope that a function begins with: what it is bound to, its arguments
and its environment. -/
def bindParams (scope : Obj) : List Tree → List Value → Obj
  | p :: ps, v :: vs => bindParams (scope.put (nameKey (p.get .name)) v) ps vs
  | _, _ => scope

def enterFunction (o : Obj) (args : List Value) (this : Receiver) : Analysis Unit := do
  let s ← state
  let l ← newId
  let scope : Obj := match this with
    | .object 0 => {}
    | .object i => ({} : Obj).put "__this" (.ref ⟨i, .unbound⟩)
    | _ => {}
  let a ← newId
  let scope := scope.put "arguments" (.ref ⟨a, .unbound⟩)
  let scope := bindParams scope o.params args
  let scope := match o.env with
    | some e => scope.put "__closure" (.ref ⟨e, .unbound⟩)
    | none => scope
  let objs := (s.objs.insert l scope).insert a { props := Builtin.enumerate 0 args }
  setState { s with objs, lref := some l, frames := s.frames ++ s.lref.toList }

def leaveFunction : Analysis Unit := do
  let s ← state
  if s.isBottom then return ()
  match s.frames.getLast? with
  | some l => setState { s with lref := some l, frames := s.frames.dropLast }
  | none => fail .missingItem

def noteCall (o : Obj) (body : Tree) (site : Option Tree) : Analysis Unit := do
  setAttr body .isUsed (.flag true)
  if let some t := site then noteTarget t body o.params

/-- What happens before a function is entered; what the session was like. -/
def beginCall (o : Obj) (body : Tree) (site : Option Tree) : Analysis Session := do
  noteCall o body site
  let saved ← session
  changeSession fun s =>
    { s with result := .absent, returned := .bottom, callers := s.callers ++ [s.last]
             isPure := true }
  return saved

def callBody (r : Engine) (o : Obj) (body : Tree) (args : List Value) (this : Receiver) :
    Analysis Value := do
  enterFunction o args this
  if o.isExpr then r.expr body
  else
    r.exec body false
    return .absent

def recordCall (o : Obj) (body : Tree) (site : Option Tree) (saved : Session) (value : Value) :
    Analysis Value := do
  changeSession fun s => { s with needClean := true }
  let now ← session
  setAttr body .isPure (.flag now.isPure)
  setAttr body .closure (.flag now.usesClosure)
  if let some t := site then setNote t .calleeIsPure (.flag now.isPure)
  setState (← (← state).join now.returned)
  changeSession fun s => { s with result := saved.result, returned := saved.returned }
  leaveFunction
  return if o.isExpr then value else now.result

def endCall (o : Obj) (body : Tree) (site : Option Tree) (saved : Session) (value : Value) :
    Analysis Value := do
  let value ← recordCall o body site saved value
  changeSession fun s =>
    { s with last := s.callers.getLast?.getD none, callers := s.callers.dropLast
             isPure := saved.isPure && s.isPure, usesClosure := saved.usesClosure }
  return if value == .absent then .undefined else value

def callFunction (r : Engine) (o : Obj) (body : Tree) (site : Option Tree) (args : List Value)
    (this : Receiver) : Analysis Value := do
  let saved ← beginCall o body site
  let value ← callBody r o body args this
  endCall o body site saved value

def callUnknown (this : Receiver) : Analysis Value := do
  match this with
  | .unbound => pure ()
  | .prim _ => fail .missingEntry
  | .object i =>
    let _ ← object i
    changeObject i fun o =>
      ({ o with props := [] }.setMissing .isTop).put "__probable_api" (.prim (.bool true))
  changeSession fun s => { s with isPure := false }
  return .top

def invoke (r : Engine) (callee : Callee) (site : Option Tree) (args : List Value)
    (this : Receiver) : Analysis Value := do
  match callee with
  | .nothing =>
    changeSession fun s => { s with isPure := false }
    return .top
  | .unknown => callUnknown this
  | .object o =>
    match o.native, o.body with
    | some f, _ =>
      changeSession fun s => { s with isPure := o.isPure }
      if let some t := site then setNote t .calleeIsPure (.flag o.isPure)
      callNative r f site this args
    | none, some body => callFunction r o body site args this
    | none, none => callUnknown this

/-- Runs a computation and catches that it is abandoned up to some call. -/
def catchUnwind {α : Type} (body : Analysis α) : Analysis (Except Nat α) := fun m =>
  match body m with
  | .ok a m' => .ok (.ok a) m'
  | .error (.unwind site) m' =>
    let depth := m'.consumed.length - m.consumed.length
    .ok (.error site) { m' with consumed := m'.consumed.drop depth }
  | .error e m' => .error e m'

/-- Notes how many evaluations of a call are in progress. -/
def changeActive (t : Tree) (d : Int) : Analysis Unit := do
  match ← note t .active with
  | .count n => setNote t .active (.count (n + d))
  | _ => fail .wrongKind

def recursionState (t : Tree) : Analysis (Option State) := do
  match ← note t .recursionState with
  | .state s => return some s
  | _ => return none

def restart (t : Tree) (old : Option State) (saved : Session) : Analysis Unit := do
  match old, ← recursionState t with
  | some old, some cut =>
    setState (← (← state).assign old)
    changeSession fun s => { s with returned := saved.returned, result := saved.result }
    setState (← (← state).unify cut)
    if ← (← state).equal cut then
      setNote t .skip (.flag true)
      setState (← (← state).assign cut)
  | none, _ => fail (.missingName "")
  | _, none => fail .missingPart

def previousCut (t : Tree) : Analysis (Option State) := do
  match ← recursionState t with
  | some s => return some (← ofDomain s.clone)
  | none => return none

def attemptCall (r : Engine) (t : Tree) (callee : Callee) (this : Receiver) : Analysis Value := do
  let args ← arguments r callee (t.get .arguments).items
  r.invoke callee (some t) args this

def untilStable (r : Engine) (t : Tree) (callee : Callee) (this : Receiver) (site : Nat) :
    Nat → Analysis Value
  | 0 => fail .unfinished
  | n + 1 => do
    let old ← previousCut t
    let saved ← session
    match ← catchUnwind (attemptCall r t callee this) with
    | .ok v => return v
    | .error other =>
      if other != site then
        changeActive t (-1)
        setNote t .recursionState .none
        throw (.unwind other)
      restart t old saved
      untilStable r t callee this site n

/-- A bound that no analysis reaches. -/
def patience : Nat := 1000000000

def inherit (i : Nat) (proto : Props) : Analysis Unit :=
  proto.forM fun p =>
    match p.2 with
    | .ref q => changeObject i fun o => o.put p.1 (.ref ⟨q.target, .object i⟩)
    | .absent => fail .missingPart
    | _ => fail .missingEntry

def constructorOf (callee : Callee) (i : Nat) : Analysis Callee := do
  match callee with
  | .object o =>
    match o.get? "prototype" with
    | some (.ref q) =>
      let _ ← object i
      let proto ← object q.target
      inherit i proto.props
      match (← object q.target).get? "constructor" with
      | some (.ref c) => return .object (← object c.target)
      | some _ => return .unknown
      | none => return .nothing
    | _ => return callee
  | _ => return callee

def callSiteId (t : Tree) : Analysis Nat := do
  match ← attr t .site with
  | .int n => return n.toNat
  | _ =>
    let i ← newId
    setAttr t .site (.int i)
    return i

def cutRecursion (t : Tree) (site : Nat) : Analysis Unit := do
  let limit := (← options).maxRecursion
  match ← note t .active with
  | .count n =>
    if n == limit then
      if (← recursionState t).isSome then fail (.broken "")
      setNote t .recursionState (.state (← ofDomain (← state).clone))
    else if n == limit + 1 then
      match ← recursionState t with
      | none => fail .missingPart
      | some cut =>
        setNote t .recursionState (.state (← cut.join (← state)))
        throw (.unwind site)
  | _ => fail .wrongKind

def evalCall (r : Engine) (t : Tree) (made : Option Nat) : Analysis Value := do
  if (← note t .skip).isTrue then return .bot
  let v ← r.expr (t.get .callee)
  consume v
  let v ← narrow r (t.get .callee) v
  let this ← (match made, v with
    | some _, .absent => fail .missingPart
    | some i, _ => return .object i
    | none, .ref q => return q.this
    | none, .absent => fail .missingPart
    | none, _ => return .unbound : Analysis Receiver)
  let callee ← (match v with
    | .ref q => do return .object (← object q.target)
    | _ => return .unknown : Analysis Callee)
  let callee ← (match made with
    | some i => constructorOf callee i
    | none => return callee : Analysis Callee)
  match ← note t .active with
  | .none => setNote t .active (.count 0)
  | _ => pure ()
  let site ← callSiteId t
  cutRecursion t site
  changeActive t 1
  let result ← untilStable r t callee this site patience
  setNote t .skip .none
  changeActive t (-1)
  setNote t .recursionState .none
  consume result
  return result

end ScriptLens.Analysis
