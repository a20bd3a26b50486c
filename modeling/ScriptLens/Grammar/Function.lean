import ScriptLens.Grammar.Binding

/-!
# Functions

Parameters, bodies, directives, and the functions of declarations, expressions and methods.
-/

namespace ScriptLens

structure Parameters where
  simple : Bool := true
  params : Array Tree := #[]
  names : List Text := []
  /-- A parameter that strict code does not allow, noticed in strict code or repeated. -/
  stricted : Option Parse.Culprit := none
  /-- The first name that a function may not have if its body is strict. -/
  firstRestricted : Option Parse.Culprit := none
  problem : Option Problem := none

namespace Parse

def checkName (c : Context) (ps : Parameters) (culprit : Culprit) (name : Text) : Parameters :=
  let ps :=
    if c.strict then
      let ps := if restrictedWords.contains name then
          { ps with stricted := some culprit, problem := some .strictParameter }
        else ps
      if ps.names.contains name then
        { ps with stricted := some culprit, problem := some .strictDuplicate }
      else ps
    else if ps.firstRestricted.isNone then
      if restrictedWords.contains name then
        { ps with firstRestricted := some culprit, problem := some .strictParameter }
      else if strictReservedWords.contains name then
        { ps with firstRestricted := some culprit, problem := some .strictReserved }
      else if ps.names.contains name then
        { ps with stricted := some culprit, problem := some .strictDuplicate }
      else ps
    else ps
  { ps with names := name :: ps.names }

def reportStrict (ps : Parameters) (first : Culprit → Problem → Parse Unit) : Parse Unit := do
  if (← context).strict then
    match ps.firstRestricted, ps.problem with
    | some c, some p => first c p
    | _, _ => pure ()
    match ps.stricted, ps.problem with
    | some c, some p => tolerateOn c p
    | _, _ => pure ()

abbrev restParameter (r : Productions) (b : Binder) : Parse (Tree × Binder) := do
  let m ← mark
  expect "..."
  let (t, b) ← r.pattern b
  if ← sees "=" then fail .defaultRest
  if !(← sees ")") then fail .afterRest
  return (← finish m .restElement [(.argument, t)], b)

abbrev parameter (r : Productions) (ps : Parameters) : Parse Parameters := do
  let (t, b) ← if ← sees "..." then restParameter r {} else patternWithDefault r {}
  let c ← context
  let ps := b.names.foldl (fun ps n => checkName c ps (.token n) n.value.shown) ps
  return { ps with
    simple := ps.simple && t.kind == .identifier, params := ps.params.push t }

def parameterItems (r : Productions) (ps : Parameters) : Nat → Parse Parameters
  | 0 => throw .unfinished
  | n + 1 => do
    if ← atFinish then return ps
    let ps ← parameter r ps
    if ← sees ")" then return ps
    expect ","
    if ← sees ")" then return ps
    parameterItems r ps n

abbrev parameters (r : Productions) (ps : Parameters) : Parse Parameters := do
  expect "("
  let ps ← if ← sees ")" then pure ps else parameterItems r ps (← size)
  expect ")"
  return ps

def directive (expression : Parse Tree) : Parse Tree := do
  let t ← ahead
  let m ← mark
  let e ← expression
  let text ← raw t
  let words := text.extract 1 (text.length - 1)
  semicolon
  if e.kind == .literal && !words.isEmpty then
    finish m .expressionStatement [(.expression, e), (.directive, words)]
  else finish m .expressionStatement [(.expression, e)]

def directives (expression : Parse Tree) (octal : Option Token) (acc : Array Tree) :
    Nat → Parse (Array Tree)
  | 0 => throw .unfinished
  | n + 1 => do
    let t ← ahead
    if t.kind != .quoted then return acc
    let s ← directive expression
    let acc := acc.push s
    match s.get .directive with
    | .text words =>
      if words == "use strict" then
        setContext fun c => { c with strict := true }
        if let some o := octal then tolerateOn (.token o) .strictOctal
        if !(← context).allowStrictDirective then tolerateOn (.token t) .languageMode
        directives expression octal acc n
      else directives expression (if octal.isNone && t.octal then some t else octal) acc n
    | _ => return acc

def expression (r : Productions) : Parse Tree := do
  let start ← ahead
  let e ← isolate r.assignment
  if ← sees "," then
    let next : Parse Tree := do
      let _ ← advance
      isolate r.assignment
    let es ← collectWhile (sees ",") next #[e] (← size)
    finish (markOf start 0) .sequenceExpression [(.expressions, .ofArray es)]
  else return e

def functionBody (r : Productions) : Parse Tree := do
  let m ← mark
  expect "\x7b"
  let before ← directives (expression r) none #[] (← size)
  let more : Parse Bool := do return !(← atFinish) && !(← sees "\x7d")
  let body ← inFunction (do
    let body ← collectWhile more r.listItem before (← size)
    expect "\x7d"
    return body)
  finish m .blockStatement [(.body, .ofArray body)]

/-- Reads a body, which may turn out strict if the parameters are plain names. -/
def withBody (ps : Parameters) (body : Parse Tree) (first : Culprit → Problem → Parse Unit) :
    Parse Tree :=
  within (fun c => { c with allowStrictDirective := ps.simple })
    (fun before c => { c with
      strict := before.strict, allowStrictDirective := before.allowStrictDirective }) do
    let t ← body
    reportStrict ps first
    return t

abbrev methodBody (r : Productions) (ps : Parameters) : Parse Tree := do
  notTarget
  withBody ps (isolate (functionBody r)) tolerateOn

def functionAttrs (id : Tree) (params : Array Tree) (body : Tree) (generator : Bool) :
    List (Attr × Tree) :=
  [(.expression, false), (.isAsync, false), (.id, id), (.params, .ofArray params), (.body, body),
    (.generator, generator)]

def asyncAttrs (id : Tree) (params : Array Tree) (body : Tree) : List (Attr × Tree) :=
  [(.generator, false), (.expression, false), (.isAsync, true), (.id, id),
    (.params, .ofArray params), (.body, body)]

def methodWith (r : Productions) (check : Parameters → Parse Unit) (generator : Bool) :
    Parse Tree := do
  let m ← mark
  let attrs ← withYield true (do
    let ps ← parameters r {}
    check ps
    if generator then setContext fun c => { c with allowYield := false }
    return functionAttrs .null ps.params (← methodBody r ps) generator)
  finish m .functionExpression attrs

abbrev method (r : Productions) : Parse Tree := methodWith r (fun _ => return ()) false

abbrev asyncMethod (r : Productions) : Parse Tree := do
  let m ← mark
  let attrs ← withFunction true true (do
    let ps ← parameters r {}
    return asyncAttrs .null ps.params (← methodBody r ps))
  finish m .functionExpression attrs

abbrev getter (r : Productions) : Parse Tree :=
  methodWith r (fun ps => do if !ps.params.isEmpty then tolerate .getterArity) false

abbrev setter (r : Productions) : Parse Tree :=
  methodWith r (fun ps => do
    if ps.params.size != 1 then tolerate .setterArity
    else if ps.params.any fun t => t.kind == .restElement then tolerate .setterRest) false

abbrev generatorMethod (r : Productions) : Parse Tree := methodWith r (fun _ => return ()) true

abbrev checkFunctionName (t : Token) : Parse Parameters := do
  if (← context).strict then
    if restrictedWords.any t.value.isText then tolerateOn (.token t) .strictFunctionName
    return {}
  else if restrictedWords.any t.value.isText then
    return { firstRestricted := some (.token t), problem := some .strictFunctionName }
  else if strictReservedWords.any t.value.isText then
    return { firstRestricted := some (.token t), problem := some .strictReserved }
  else return {}

abbrev functionRest (r : Productions) (ps : Parameters) : Parse (Array Tree × Tree) := do
  let ps ← parameters r ps
  return (ps.params, ← withBody ps (functionBody r) failOn)

abbrev functionHead : Parse (Bool × Bool) := do
  let isAsync ← atWord "async"
  if isAsync then let _ ← advance
  expectKeyword "function"
  if isAsync then return (true, false)
  return (false, ← accept "*")

abbrev functionDeclaration (r : Productions) (anonymous : Bool) : Parse Tree := do
  let m ← mark
  let (isAsync, generator) ← functionHead
  let (id, ps) ← (do
    if anonymous && (← sees "(") then return (Tree.null, {})
    let t ← ahead
    let id ← variableName none
    return (id, ← checkFunctionName t) : Parse (Tree × Parameters))
  let (params, body) ← withFunction isAsync generator (functionRest r ps)
  if isAsync then finish m .functionDeclaration (asyncAttrs id params body)
  else finish m .functionDeclaration (functionAttrs id params body generator)

abbrev functionExpression (r : Productions) : Parse Tree := do
  let m ← mark
  let (isAsync, generator) ← functionHead
  let (id, params, body) ← withFunction isAsync generator (do
    let (id, ps) ← (do
      if ← sees "(" then return (Tree.null, {})
      let t ← ahead
      let id ← if !(← context).strict && !generator && (← atKeyword "yield") then name
        else variableName none
      return (id, ← checkFunctionName t) : Parse (Tree × Parameters))
    return (id, ← functionRest r ps))
  if isAsync then finish m .functionExpression (asyncAttrs id params body)
  else finish m .functionExpression (functionAttrs id params body generator)

abbrev atAsyncFunction : Parse Bool := do
  if !(← atWord "async") then return false
  let line := (← get).cursor.line
  let t ← peek
  return line == t.line && t.isKeyword "function"

structure ElementHead where
  token : Token
  key : Option Tree := none
  computed : Bool := false
  isStatic : Bool := false
  isAsync : Bool := false

abbrev elementHead (r : Productions) : Parse ElementHead := do
  let token ← ahead
  if ← accept "*" then return { token }
  let computed ← sees "["
  let key ← propertyKey r
  let mut h : ElementHead := { token, key, computed }
  if (key.get .name).isText "static" && (beginsKey (← ahead) || (← sees "*")) then
    h := { h with token := ← ahead, isStatic := true, computed := ← sees "[" }
    if !(← accept "*") then h := { h with key := some (← propertyKey r) }
  if h.token.isWord "async" && !(← get).newline then
    let next := (← ahead).value
    if !next.isText ":" && !next.isText "(" && !next.isText "*" then
      let token ← ahead
      h := { h with isAsync := true, token, key := some (← propertyKey r) }
      if token.isWord "constructor" then tolerateOn (.token token) .asyncConstructor
  return h

abbrev elementBody (r : Productions) (m : Mark) (h : ElementHead) :
    Parse (Text × Tree × ElementHead) := do
  let t := h.token
  let key := beginsKey (← ahead)
  if t.isWord "get" && key then
    let computed ← sees "["
    let key ← propertyKey r
    setContext fun c => { c with allowYield := false }
    return ("get", ← getter r, { h with computed, key })
  else if t.isWord "set" && key then
    let computed ← sees "["
    let key ← propertyKey r
    return ("set", ← setter r, { h with computed, key })
  else if t.kind == .identifier && (← read).classFields && !(← sees "(") then
    let _ ← finish m .identifier [(.name, ofScalar t.value)]
    if ← accept "=" then return ("init", ← r.assignment, h)
    return ("init", .null, h)
  else if t.isPunctuator "*" && key then
    let computed ← sees "["
    let key ← propertyKey r
    return ("method", ← generatorMethod r, { h with computed, key })
  else if h.key.isSome && (← sees "(") then
    return ("method", ← if h.isAsync then asyncMethod r else method r, h)
  else failAt (← ahead)

def classElement (r : Productions) (hasConstructor : Bool) : Parse (Tree × Bool) := do
  let m ← mark
  let h ← elementHead r
  let (kind, value, h) ← elementBody r m h
  let key := h.key.getD .null
  if !h.computed && h.isStatic && isKey key "prototype" then
    failOn (.token h.token) .staticPrototype
  let attrs (kind : Text) : List (Attr × Tree) :=
    [(.key, key), (.computed, h.computed), (.value, value), (.kind, kind), (.isStatic, h.isStatic)]
  if !h.computed && !h.isStatic && isKey key "constructor" then
    if kind != "method" || (value.get .generator).isTrue then
      failOn (.token h.token) .specialConstructor
    if hasConstructor then failOn (.token h.token) .duplicateConstructor
    return (← finish m .methodDefinition (attrs "constructor"), true)
  let form : Kind := if kind == "init" then .fieldDefinition else .methodDefinition
  return (← finish m form (attrs kind), hasConstructor)

def classElements (r : Productions) (hasConstructor : Bool) (acc : Array Tree) :
    Nat → Parse (Array Tree)
  | 0 => throw .unfinished
  | n + 1 => do
    if ← sees "\x7d" then return acc
    else if ← accept ";" then classElements r hasConstructor acc n
    else
      let (t, hasConstructor) ← classElement r hasConstructor
      classElements r hasConstructor (acc.push t) n

abbrev classBody (r : Productions) : Parse Tree := do
  let m ← mark
  expect "\x7b"
  let elements ← classElements r false #[] (← size)
  expect "\x7d"
  finish m .classBody [(.body, .ofArray elements)]

def classOf (r : Productions) (kind : Kind) (named : Bool) : Parse Tree := do
  let m ← mark
  let attrs ← asStrict (do
    expectKeyword "class"
    let id ← if named || (← ahead).kind == .identifier then variableName none else pure .null
    let superClass ← if ← atKeyword "extends" then (do
        let _ ← advance
        isolate r.call)
      else pure .null
    return [(.id, id), (.superClass, superClass), (.body, ← classBody r)])
  finish m kind attrs

abbrev classDeclaration (r : Productions) (anonymous : Bool) : Parse Tree :=
  classOf r .classDeclaration (!anonymous)

abbrev classExpression (r : Productions) : Parse Tree := classOf r .classExpression false

end Parse

end ScriptLens
