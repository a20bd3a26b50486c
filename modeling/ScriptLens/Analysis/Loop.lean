import ScriptLens.Analysis.Basic

/-!
# Loops

The iterations of a loop are followed one by one as long as its condition is known to hold and no
path leaves it early.
-/

namespace ScriptLens

/-- The number of a node as a piece of it, once it has one. -/
def Notes.serialAttr (s : Notes) (t : Tree) : List (Attr × Tree) :=
  match s.ids[t.ref]? with
  | some i => [(.serial, .int i)]
  | none => []

namespace Analysis

def compareValues (a b : Tree) : Analysis Unit := do
  let v := (← note a .staticValue).value?.getD .absent
  let w := (← note b .staticValue).value?.getD .absent
  if !v.equal w then
    let i ← nodeId a
    modify fun m => { m with notes := m.notes.eraseAt i .staticValue }

def samePlain : Tree → Tree → Bool
  | .null, .null => true
  | .flag a, .flag b => a == b
  | .int a, .int b => a == b
  | .real a, .real b => a.eq b
  | .text a, .text b => a == b
  | .regexp a, .regexp b => a == b
  | .node r _ _, .node q _ _ => r == q
  | _, _ => false

def findAttr (t : Tree) (a : Attr) : Analysis Tree := do
  let notes := (← get).notes
  match (notes.serialAttr t).lookup a with
  | some v => return v
  | none =>
    match (notes.extrasOf t).lookup a with
    | some v => return v
    | none =>
      match t.attrs.lookup a with
      | some v => return v
      | none => fail .missingEntry

def alikeExtras (b : Tree) : List (Attr × Tree) → Analysis Bool
  | [] => return true
  | (a, v) :: l => do
    let w ← findAttr b a
    if !samePlain v w && a != .site then return false
    alikeExtras b l

mutual

def alike : Tree → Tree → Analysis Bool
  | .list l, .list m => alikeList l m
  | .node r k as, b => do
    if !k.isNode then return samePlain (.node r k as) b
    let a := Tree.node r k as
    if b.kind != k || !b.isNode || a.has .directive != b.has .directive then return false
    let extras := (← get).notes.extrasOf a
    if !(← alikeAttrs extras b as) then return false
    let added := extras.filter fun p => !a.has p.1
    if !(← alikeExtras b added) then return false
    if !((← get).notes.serialAttr a).isEmpty then
      let _ ← findAttr b .serial
    compareValues a b
    return true
  | a, b => return samePlain a b

def alikeList : List Tree → List Tree → Analysis Bool
  | [], _ => return true
  | a :: l, m =>
    match m with
    | [] => fail .missingItem
    | b :: m => do
      if ← alike a b then alikeList l m else return false

/-- Whether the attributes of a node are alike to those of another; `extras` holds values that
stand in the place of some of them. -/
def alikeAttrs (extras : List (Attr × Tree)) (b : Tree) :
    List (Attr × Tree) → Analysis Bool
  | [] => return true
  | (a, v) :: l => do
    let w ← findAttr b a
    let same ← (match extras.lookup a with
      | some u => return samePlain u w
      | none => alike v w : Analysis Bool)
    if same then alikeAttrs extras b l else return false

end

def nodeOf (i : Int) : Analysis Tree := do
  match (← get).notes.nodes[i.toNat]? with
  | some t => if i < 0 then fail .missingEntry else return t
  | none => fail .missingEntry

def alikeTraces : List Int → List Int → Analysis Bool
  | i :: l, j :: m => do
    if i != j then
      let a ← nodeOf i
      let b ← nodeOf j
      if !(← alike a b) then return false
    alikeTraces l m
  | _, _ => return true

def sameTrace (l m : List Int) : Analysis Bool := do
  if l.length != m.length then return false
  alikeTraces l m

end Analysis

structure LoopParts where
  test : Option (Analysis Value)
  /-- The value of the condition if there is nothing to evaluate. -/
  assumed : Value
  body : Analysis Unit
  update : Analysis Unit

structure LoopProgress where
  count : Int := 0
  unrolling : Bool := true
  why : Text := ""
  warned : Bool := false
  header : State := .bottom
  lastTrue : Bool := false

namespace Analysis

def markIteration : Analysis Unit := do
  match (← session).trace with
  | none => fail .missingPart
  | some _ => changeSession fun s => { s with trace := s.trace.map (·.push (-1)) }

/-- Joins a state with the current one, which becomes a copy of the result. -/
def absorb (s : State) : Analysis State := do
  let s ← s.join (← state)
  setState (← (← state).assign s)
  return s

def mergeHead (p : LoopProgress) : Analysis (Bool × State) := do
  collect
  let previous ← p.header.clone
  let header ← absorb p.header
  let previous ← previous.unify header
  return (← previous.equal header, header)

def loopHead (p : LoopProgress) : Analysis (Bool × State) := do
  if p.unrolling then
    if p.count % 32 == 0 then
      if ← p.header.equal (← state) then return (true, p.header)
      return (false, ← (← state).clone)
    else return (false, p.header)
  else
    match (← options).maxIterations with
    | none => fail .wrongKind
    | some n => if n + 10 < p.count then fail (.badValue "") else mergeHead p

/-- Stops following the iterations one by one when there are too many of them. -/
def limitIterations (p : LoopProgress) : Analysis LoopProgress := do
  match (← options).maxIterations with
  | none => return p
  | some n =>
    if n < p.count then
      if !p.warned then
        print (Text.ofString "[warning] Loop unrolling stopped after " ++ Decimal.intText n
          ++ Text.ofString " iterations")
      return { p with warned := true, unrolling := false, why := "maxiter reached" }
    else return p

def countIteration : Analysis Unit := do
  let limit := (← options).maxLoopContext
  changeSession fun s =>
    match s.loops with
    | (i, n) :: l => { s with loops := (i, min limit (n + 1)) :: l }
    | [] => s

def endIteration (p : LoopProgress) (c : Value) : Analysis (Bool × LoopProgress) := do
  let leaves := !(← session).broken.isBottom
  if leaves then
    if ← isBottom then return (true, p)
  let p := if leaves then { p with unrolling := false, why := "maybe break" } else p
  let p :=
    if c.isTop then { p with unrolling := false, why := "abs test is top" }
    else { p with lastTrue := true }
  countIteration
  return (false, p)

/-- One iteration of a loop whose condition may hold: whether the loop is left, and how far its
analysis has come. -/
def loopBody (parts : LoopParts) (p : LoopProgress) (c : Value) (outer : State) :
    Analysis (Bool × LoopProgress) := do
  parts.body
  parts.update
  setState (← (← state).join (← session).continued)
  changeSession fun s => { s with continued := outer }
  endIteration p c

def decideLoop (p : LoopProgress) (c : Value) (outer : State) :
    Analysis (LoopProgress × Option (Value × State)) := do
  consume c
  let p ← limitIterations p
  if c.isTop then return (p, some (c, outer))
  else if ← c.truth then return (p, some (c, outer))
  else return (p, none)

def loopTest (parts : LoopParts) (p : LoopProgress) :
    Analysis (LoopProgress × Option (Value × State)) := do
  markIteration
  let (stable, header) ← loopHead p
  let p := { p with header }
  if stable then return (p, none)
  let outer := (← session).continued
  changeSession fun s => { s with continued := .bottom }
  let p := { p with lastTrue := false, count := p.count + 1 }
  let c ← (match parts.test with
    | some test => test
    | none => return parts.assumed : Analysis Value)
  if !parts.assumed.isTop then
    if ← isBottom then return (p, none)
  decideLoop p c outer

def loopStep (parts : LoopParts) (p : LoopProgress) : Analysis (Bool × LoopProgress) := do
  match ← loopTest parts p with
  | (p, none) => return (true, p)
  | (p, some (c, outer)) => loopBody parts p c outer

def loopWithin (parts : LoopParts) : Nat → LoopProgress → Analysis LoopProgress
  | 0, _ => fail .unfinished
  | n + 1, p => do
    let (done, p) ← loopStep parts p
    if done then return p else loopWithin parts n p

def iterationBound (o : Options) (patience : Nat) : Nat :=
  match o.maxIterations with
  | some n => (max n 0).toNat + 13
  | none => patience

/-- Notes on a loop what its iterations do, if they can be written one after another. -/
def noteUnrolled (t : Tree) (p : LoopProgress) : Analysis Unit := do
  let endless := (← isBottom) && (← session).returned.isBottom
  if p.unrolling && !endless then
    let trace := (← session).trace.map Array.toList
    match ← note t .unrolled with
    | .none => setNote t .unrolled (match trace with
      | some l => .trace l
      | none => .none)
    | .trace l =>
      match trace with
      | none => fail .wrongKind
      | some m =>
        if !(← sameTrace l m) then
          setNote t .unrolled (.flag false)
          setNote t .reason (.text "not stable")
    | _ =>
      setNote t .unrolled (.flag false)
      setNote t .reason (.text "not stable")
  else
    setNote t .unrolled (.flag false)
    if !p.unrolling then setNote t .reason (.text (Text.ofString "not unrolling: " ++ p.why))
    else setNote t .reason (.text "infinite loop")

def enterLoop (t : Tree) (start : Analysis Unit) : Analysis Unit := do
  changeSession fun s =>
    { s with trace := some #[], returned := .bottom, broken := .bottom }
  start
  let i ← nodeId t
  changeSession fun s => { s with loops := (i, 0) :: s.loops }

/-- The state after a loop: where its condition does not hold, or where it is left early. -/
def joinBroken (p : LoopProgress) : Analysis Unit := do
  if p.lastTrue then changeState State.toBottom
  setState (← (← state).join (← session).broken)

def leaveLoop (saved : Session) : Analysis Unit := do
  let returned ← (← session).returned.join saved.returned
  changeSession fun s =>
    { s with loops := s.loops.tail, broken := saved.broken, returned, trace := saved.trace }

def loop (t : Tree) (start : Analysis Unit) (parts : LoopParts) (patience : Nat) :
    Analysis Unit := do
  if ← isBottom then return ()
  consuming do
    let saved ← session
    enterLoop t start
    let p ← loopWithin parts (iterationBound (← options) patience) {}
    joinBroken p
    noteUnrolled t p
    leaveLoop saved

end Analysis

end ScriptLens
