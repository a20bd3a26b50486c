import ScriptLens.Pass.Walk

/-!
# Definitions and their uses

Which definitions of local variables may reach each point of a program, and which nodes use them.
-/

namespace ScriptLens.Pass.Definitions

open Edit

structure Definition where
  name : Option Text
  node : Nat
deriving DecidableEq

abbrev Reaching := List Definition

namespace Reaching

def ofName (s : Reaching) (name : Option Text) : Reaching := s.filter fun d => d.name == name

def union (s t : Reaching) : Reaching := s ++ t.filter fun d => !s.contains d

/-- The set after a definition, which is the only one of its variable there. -/
def define (s : Reaching) (d : Definition) : Reaching :=
  (s.filter fun e => e.name != d.name) ++ [d]

end Reaching

structure Flow where
  reaching : Reaching := []
  defining : IdSet := {}
  /-- The names used without a definition since the last function. -/
  free : List Text := []
  /-- The names that the functions so far take from outside. -/
  inner : List Text := []
  function : Note := .none

abbrev Tracing := StateT Flow Edit

structure Uses where
  nodes : IdSet := {}
  hasEffects : Bool := false

def Uses.union (u v : Uses) : Uses :=
  ⟨u.nodes.insertAll v.nodes.ids, u.hasEffects || v.hasEffects⟩

def addNames (l names : List Text) : List Text :=
  names.foldl (fun l t => if l.contains t then l else l ++ [t]) l

def nameAt (p : Nat) : Edit (Option Text) := return (← nameOf p).text?

def addUse (n : NoteName) (i use : Nat) : Edit Unit := do
  let q ← nodeAt i
  match ← note q n with
  | .nodeSet s => setNote q n (.nodeSet (s.insert use))
  | _ => throw .missingPart

def link (s : IdSet) (use : Nat) : Edit Unit := s.ids.forM fun i => addUse .usedBy i use

def define (p : Nat) (name : Option Text) : Tracing Unit := do
  let i ← mark p
  setNote p .usedBy (.nodeSet {})
  setNote p .declUsedBy (.nodeSet {})
  modify fun s => { s with reaching := s.reaching.define ⟨name, i⟩
                           defining := s.defining.insert i }

/-- The ways to go through expressions and statements.  An expression of a kind that is not known
has no result. -/
structure Tracer where
  expr : Nat → Tracing (Option Uses)
  stmt : Nat → Tracing Unit

def more (w : Tracer) (u : Uses) (x : Item) : Tracing Uses := do
  match x with
  | .place p =>
    if (← kind p) == .blockStatement then return {}
    match ← w.expr p with
    | some v => return v.union u
    | none => throw .missingPart
  | _ => return {}

def moreParts (w : Tracer) (p : Nat) (u : Uses) (attrs : List Attr) : Tracing Uses :=
  attrs.foldlM (fun u a => do more w u (← attr p a)) u

def moreItems (w : Tracer) (u : Uses) (l : List Item) : Tracing Uses := l.foldlM (more w) u

def moreProperties (w : Tracer) (u : Uses) (l : List Item) : Tracing Uses :=
  l.foldlM (fun u x => do
    let p ← placeOf x
    let u ← (do
      if ← isTrue p .computed then more w u (← attr p .key) else return u : Tracing Uses)
    if (← kind p) == .property then more w u (← attr p .value) else return u) u

def throughFunction (w : Tracer) (body : Nat) : Tracing Unit := do
  let before ← get
  set { before with free := [], function := .place body, reaching := [] }
  w.stmt body
  let s ← get
  setNote body .innerNames (.nameSet s.inner)
  let own := s.reaching.filterMap Definition.name
  let inner := s.inner.filter fun t => !own.contains t
  set { s with function := before.function, reaching := before.reaching
               inner := addNames s.free inner, free := [] }

def assignment (w : Tracer) (p : Nat) : Tracing Uses := do
  let left ← child p .left
  let isPlain ← (do
    match ← attr p .operator with
    | .leaf (.text t) => return t == "="
    | _ => return false : Tracing Bool)
  let u ← (do
    if (← kind left) == .memberExpression || !isPlain then more w {} (.place left)
    else return {} : Tracing Uses)
  let name ← nameAt left
  let existing := (← get).reaching.ofName name
  existing.forM fun d => do
    if (← kind (← nodeAt d.node)) == .variableDeclarator then
      addUse .declUsedBy d.node (← mark p)
  let u ← more w u (← attr p .right)
  if !existing.isEmpty then define p name
  link u.nodes (← mark p)
  setNote p .hasEffects (.flag u.hasEffects)
  setNote p .inFunction (← get).function
  return { u with hasEffects := true }

def update (w : Tracer) (p : Nat) : Tracing Uses := do
  let u ← moreParts w p {} [.argument]
  let target ← child p .argument
  if (← kind target) == .identifier then
    let name ← nameAt target
    if !((← get).reaching.ofName name).isEmpty then define p name
    link u.nodes (← mark p)
    setNote p .inFunction (← get).function
  return { u with hasEffects := true }

def identifier (p : Nat) : Tracing Uses := do
  let name ← nameAt p
  let found := (← get).reaching.ofName name
  if found.isEmpty then
    modify fun s => { s with free := addNames s.free name.toList }
  return { nodes := IdSet.insertAll {} (found.map Definition.node) }

def call (w : Tracer) (p : Nat) : Tracing Uses := do
  let u ← moreParts w p {} [.callee]
  let u ← moreItems w u (← itemsOf p .arguments)
  let isPure := holds (← note p .calleeIsPure)
  if !isPure then link u.nodes (← mark p)
  return { u with hasEffects := u.hasEffects || !isPure }

def throughExpr (w : Tracer) (p : Nat) : Tracing (Option Uses) := do
  match ← kind p with
  | .assignmentExpression => assignment w p
  | .binaryExpression => moreParts w p {} [.left, .right]
  | .logicalExpression => moreParts w p {} [.left, .right]
  | .conditionalExpression => moreParts w p {} [.test, .consequent, .alternate]
  | .arrayExpression => moreItems w {} (← itemsOf p .elements)
  | .objectExpression => moreProperties w {} (← itemsOf p .properties)
  | .memberExpression =>
    let u ← moreParts w p {} [.object]
    if ← isTrue p .computed then moreParts w p u [.property] else return u
  | .literal => return some {}
  | .updateExpression => update w p
  | .identifier => identifier p
  | .callExpression => call w p
  | .thisExpression => return some {}
  | .awaitExpression => moreParts w p {} [.argument]
  | .unaryExpression => moreParts w p {} [.argument]
  | .functionExpression =>
    throughFunction w (← child p .body)
    return some {}
  | .arrowFunctionExpression =>
    throughFunction w (← child p .body)
    return some {}
  | .newExpression =>
    let u ← moreItems w {} (← itemsOf p .arguments)
    link u.nodes (← mark p)
    return some { u with hasEffects := true }
  | .sequenceExpression => moreItems w {} (← itemsOf p .expressions)
  | _ => return none

def throughList (w : Tracer) (l : List Item) : Tracing Unit :=
  l.forM fun x => do w.stmt (← placeOf x)

def throughEvaluated (w : Tracer) (p : Nat) : Tracing Unit := do
  if (← kind p) == .callExpression then
    if let .list l ← attr p .arguments then
      if let [x] ← items l then
        let q ← placeOf x
        if (← kind q) == .blockStatement then throughList w (← itemsOf q .body)

/-- Goes through a condition or the like, and notes that it uses what it uses. -/
def throughHead (w : Tracer) (p : Nat) (a : Attr) : Tracing Unit := do
  let u ← moreParts w p {} [a]
  link u.nodes (← mark (← child p a))

def declaration (w : Tracer) (p : Nat) : Tracing Unit := do
  let id ← child p .id
  if (← kind id) != .objectPattern then define p (← nameAt id)
  let first ← attr p .initial
  if !Edit.Item.isNull first then
    let u ← more w {} first
    link u.nodes (← mark p)
    setNote p .hasEffects (.flag u.hasEffects)
  setNote p .inFunction (← get).function

def untilStable (step : Tracing Unit) : Nat → Option Reaching → Tracing Unit
  | 0, _ => throw .unfinished
  | n + 1, before => do
    let s ← get
    let all := match before with
      | some b => b.union s.reaching
      | none => s.reaching
    set { s with reaching := all }
    if before.any fun b => b.length == all.length then return ()
    step
    untilStable step n (some all)

/-- Goes through statements that each start from the current definitions; the definitions after
any of them, and those before, reach the end. -/
def branches (starts : List (Tracing Unit)) : Tracing Unit := do
  let start := (← get).reaching
  let ends ← starts.mapM fun m => do
    modify fun s => { s with reaching := start }
    m
    return (← get).reaching
  modify fun s => { s with reaching := ends.foldl Reaching.union start }

/-- Goes through an attribute that is an expression, unless it is nothing. -/
def optionalExpr (w : Tracer) (p : Nat) (a : Attr) : Tracing Unit := do
  if let some q ← child? p a then
    let _ ← w.expr q

def throughStmt (w : Tracer) (p : Nat) : Tracing Unit := do
  match ← kind p with
  | .variableDeclaration =>
    (← itemsOf p .declarations).forM fun x => do declaration w (← placeOf x)
  | .expressionStatement =>
    throughHead w p .expression
    let _ ← throughExpr w (← child p .expression)
  | .ifStatement =>
    throughHead w p .test
    let _ ← throughExpr w (← child p .test)
    let start := (← get).reaching
    w.stmt (← child p .consequent)
    let left := (← get).reaching
    modify fun s => { s with reaching := start }
    if let some q ← child? p .alternate then w.stmt q
    modify fun s => { s with reaching := left.union s.reaching }
  | .functionDeclaration => throughFunction w (← child p .body)
  | .returnStatement =>
    if let some _ ← child? p .argument then throughHead w p .argument
  | .whileStatement =>
    throughHead w p .test
    untilStable (do
      optionalExpr w p .test
      w.stmt (← child p .body)) patience none
  | .tryStatement => w.stmt (← child p .block)
  | .blockStatement => throughList w (← itemsOf p .body)
  | .forStatement =>
    throughHead w p .test
    optionalExpr w p .initial
    untilStable (do
      optionalExpr w p .test
      if let some q ← child? p .body then w.stmt q
      optionalExpr w p .update) patience none
  | .switchStatement =>
    throughHead w p .discriminant
    let _ ← throughExpr w (← child p .discriminant)
    let cases ← (← itemsOf p .cases).mapM fun x => do
      return throughList w (← itemsOf (← placeOf x) .consequent)
    branches cases
  | .forInStatement =>
    let _ ← throughExpr w (← child p .left)
    let _ ← throughExpr w (← child p .right)
    untilStable (do w.stmt (← child p .body)) patience none
  | _ => return ()

/-- The way through a program, `n` steps deep. -/
def tracer : Nat → Tracer
  | 0 => { expr := fun _ => throw .unfinished, stmt := fun _ => throw .unfinished }
  | n + 1 =>
    { expr := fun p => do
        throughEvaluated (tracer n) p
        throughExpr (tracer n) p
      stmt := fun p => throughStmt (tracer n) p }

def usersOf (n : NoteName) (i : Nat) : Edit (List Nat) := do
  match ← note (← nodeAt i) n with
  | .nodeSet s => return s.ids
  | _ => throw .wrongKind

/-- Whether a definition with the given users is used by nothing but itself and useless
definitions. -/
def isUnused (useless : List Nat) (d : Nat × List Nat) : Bool :=
  d.2.all fun u => u == d.1 || useless.contains u

/-- The useless definitions after one more definition was looked at. -/
def visit (useless : List Nat) (d : Nat × List Nat) : List Nat :=
  if !useless.contains d.1 && isUnused useless d then useless ++ [d.1] else useless

/-- The useless ones among definitions with their users, found in rounds until nothing changes.  The
second argument bounds the number of rounds. -/
def uselessOf (l : List (Nat × List Nat)) : Nat → List Nat → List Nat
  | 0, useless => useless
  | n + 1, useless =>
    let next := l.foldl visit useless
    if next.length == useless.length then useless else uselessOf l n next

def conclude : Tracing Unit := do
  let all := (← get).defining.ids
  let users ← all.mapM fun i => do return (i, ← usersOf .usedBy i)
  let useless := uselessOf users (all.length + 1) []
  let declUsers ← all.mapM fun i => do return (i, ← usersOf .declUsedBy i)
  let declUseless := (declUsers.filter (isUnused useless)).map Prod.fst
  all.forM fun i => do
    let q ← nodeAt i
    setNote q .useless (.flag (useless.contains i))
    setNote q .declUseless (.flag (declUseless.contains i))

/-- Notes what is found out about the definitions of a program. -/
def run (program : Nat) : Edit Unit := do
  let _ ← (do
    throughList (tracer patience) (← itemsOf program .body)
    conclude : Tracing Unit).run {}

end ScriptLens.Pass.Definitions
