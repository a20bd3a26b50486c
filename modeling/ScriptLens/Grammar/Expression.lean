import ScriptLens.Grammar.Function
import ScriptLens.Grammar.Markup

/-!
# Expressions
-/

namespace ScriptLens.Parse

/-! ## Parts of primary expressions -/

abbrev spread (r : Productions) : Parse Tree := do
  let m ← mark
  expect "..."
  let e ← inherit r.assignment
  finish m .spreadElement [(.argument, e)]

def arrayItems (r : Productions) (acc : Array Tree) : Nat → Parse (Array Tree)
  | 0 => throw .unfinished
  | n + 1 => do
    if ← sees "]" then return acc
    else if ← accept "," then arrayItems r (acc.push .null) n
    else if ← sees "..." then
      let e ← spread r
      if !(← sees "]") then
        notTarget
        expect ","
      arrayItems r (acc.push e) n
    else
      let e ← inherit r.assignment
      if !(← sees "]") then expect ","
      arrayItems r (acc.push e) n

abbrev arrayLiteral (r : Productions) : Parse Tree := do
  let m ← mark
  expect "["
  let items ← arrayItems r #[] (← size)
  expect "]"
  finish m .arrayExpression [(.elements, .ofArray items)]

abbrev plainProperty (r : Productions) (m : Mark) (t : Token) (key : Tree) (computed isAsync : Bool)
    (proto : Bool) : Parse (Tree × Bool) := do
  if (← sees ":") && !isAsync then
    let isProto := !computed && isKey key "__proto__"
    if isProto && proto then tolerate .duplicateProto
    let _ ← advance
    let value ← inherit r.assignment
    return (← finish m .property (propertyAttrs "init" key computed value false false),
      proto || isProto)
  else if ← sees "(" then
    let value ← if isAsync then asyncMethod r else method r
    return (← finish m .property (propertyAttrs "init" key computed value true false), proto)
  else if t.kind == .identifier then
    let id ← finish m .identifier [(.name, ofScalar t.value)]
    if ← sees "=" then
      let mark ← ahead
      setContext fun c => { c with shorthandInitializer := some mark }
      let _ ← advance
      let right ← isolate r.assignment
      let value ← finish m .assignmentPattern [(.left, id), (.right, right)]
      return (← finish m .property (propertyAttrs "init" key computed value false true), proto)
    else return (← finish m .property (propertyAttrs "init" key computed id false true), proto)
  else failAt (← advance)

abbrev propertyHead (r : Productions) (m : Mark) (t : Token) : Parse (Option Tree × Bool × Bool) := do
  if t.kind == .identifier then
    let _ ← advance
    let computed ← sees "["
    let isAsync := !(← get).newline && t.value.isText "async" && !(← atAny [":", "(", "*", ","])
    if isAsync then return (← propertyKey r, computed, true)
    else return (← finish m .identifier [(.name, ofScalar t.value)], computed, false)
  else if ← accept "*" then return (none, false, false)
  else
    let computed ← sees "["
    return (← propertyKey r, computed, false)

def objectProperty (r : Productions) (proto : Bool) : Parse (Tree × Bool) := do
  let m ← mark
  let t ← ahead
  let (key, computed, isAsync) ← propertyHead r m t
  let special := beginsKey (← ahead)
  if t.isWord "get" && !isAsync && special then
    let computed ← sees "["
    let key ← propertyKey r
    setContext fun c => { c with allowYield := false }
    let value ← getter r
    return (← finish m .property (propertyAttrs "get" key computed value false false), proto)
  else if t.isWord "set" && !isAsync && special then
    let computed ← sees "["
    let key ← propertyKey r
    let value ← setter r
    return (← finish m .property (propertyAttrs "set" key computed value false false), proto)
  else if t.isPunctuator "*" && special then
    let computed ← sees "["
    let key ← propertyKey r
    let value ← generatorMethod r
    return (← finish m .property (propertyAttrs "init" key computed value true false), proto)
  else
    match key with
    | none => failAt (← ahead)
    | some key => plainProperty r m t key computed isAsync proto

def objectItems (r : Productions) (proto : Bool) (acc : Array Tree) : Nat → Parse (Array Tree)
  | 0 => throw .unfinished
  | n + 1 => do
    if ← sees "\x7d" then return acc
    let (t, proto) ← (do
      if ← sees "..." then return (← spread r, proto)
      objectProperty r proto : Parse (Tree × Bool))
    if !(← sees "\x7d") then expectComma
    objectItems r proto (acc.push t) n

abbrev objectLiteral (r : Productions) : Parse Tree := do
  let m ← mark
  expect "\x7b"
  let items ← objectItems r false #[] (← size)
  expect "\x7d"
  finish m .objectExpression [(.properties, .ofArray items)]

abbrev templateElement : Parse (Tree × Bool) := do
  let m ← mark
  let t ← advance
  let value ← node .record [(.raw, ofScalar t.value), (.cooked, t.cooked)]
  return (← finish m .templateElement [(.value, value), (.tail, t.tail)], t.tail)

def templateItems (r : Productions) (parts substitutions : Array Tree) :
    Nat → Parse (Array Tree × Array Tree)
  | 0 => throw .unfinished
  | n + 1 => do
    let e ← expression r
    if (← ahead).kind != .template then throw (.source (← unexpected .nothing none))
    let (part, last) ← templateElement
    let parts := parts.push part
    let substitutions := substitutions.push e
    if last then return (parts, substitutions) else templateItems r parts substitutions n

abbrev templateLiteral (r : Productions) : Parse Tree := do
  let m ← mark
  if !(← ahead).head then throw (.broken "Template literal must start with a template head")
  let (part, last) ← templateElement
  let (parts, substitutions) ←
    if last then pure (#[part], #[]) else templateItems r #[part] #[] (← size)
  finish m .templateLiteral
    [(.quasis, .ofArray parts), (.expressions, .ofArray substitutions)]

/-! ## Parentheses -/

abbrev placeholder (params : List Tree) (isAsync : Bool) : Parse Tree :=
  node .arrowParameterPlaceHolder [(.params, .list params), (.isAsync, isAsync)]

abbrev expectArrow : Parse Unit := do
  if !(← sees "=>") then expect "=>"

/-- The expressions between parentheses after the first, and whether they turned out to be the
parameters of an arrow function. -/
def groupItems (r : Productions) (acc : Array Tree) : Nat → Parse (Array Tree × Bool)
  | 0 => throw .unfinished
  | n + 1 => do
    if !(← accept ",") then return (acc, false)
    if ← accept ")" then return (acc.map reinterpret, true)
    else if ← sees "..." then
      if !(← context).isBindingElement then failAt (← ahead)
      let (rest, _) ← restParameter r {}
      expect ")"
      expectArrow
      setContext fun c => { c with isBindingElement := false }
      return ((acc.push rest).map reinterpret, true)
    else
      let e ← inherit r.assignment
      groupItems r (acc.push e) n

abbrev groupEnd (e : Tree) : Parse Tree := do
  expect ")"
  let e ← (do
    if !(← sees "=>") then return e
    if e.kind == .identifier && (e.get .name).isText "yield" then return ← placeholder [e] false
    if !(← context).isBindingElement then failAt (← ahead)
    let params := if e.kind == .sequenceExpression then (e.get .expressions).items else [e]
    placeholder (params.map reinterpret) false : Parse Tree)
  setContext fun c => { c with isBindingElement := false }
  return e

abbrev group (r : Productions) : Parse Tree := do
  expect "("
  if ← accept ")" then
    expectArrow
    placeholder [] false
  else if ← sees "..." then
    let (rest, _) ← restParameter r {}
    expect ")"
    expectArrow
    placeholder [rest] false
  else
    let start ← ahead
    setContext fun c => { c with isBindingElement := true }
    let e ← inherit r.assignment
    if ← sees "," then
      setContext fun c => { c with isAssignmentTarget := false }
      let (es, arrow) ← groupItems r #[e] (← size)
      if arrow then placeholder es.toList false
      else groupEnd (← finish (markOf start 0) .sequenceExpression [(.expressions, .ofArray es)])
    else groupEnd e

/-! ## Primary expressions and calls -/

abbrev atImportCall : Parse Bool := do
  if !(← atKeyword "import") then return false
  return (← peek).isPunctuator "("

abbrev keywordPrimary (r : Productions) (m : Mark) : Parse Tree := do
  let c ← context
  if !c.strict && c.allowYield && (← atKeyword "yield") then name
  else if !c.strict && (← atKeyword "let") then
    let t ← advance
    finish m .identifier [(.name, ofScalar t.value)]
  else
    notTarget
    if ← atKeyword "function" then functionExpression r
    else if ← atKeyword "this" then
      let _ ← advance
      finish m .thisExpression []
    else if ← atKeyword "class" then classExpression r
    else if ← atImportCall then
      let m ← mark
      expectKeyword "import"
      finish m .importCall []
    else failAt (← advance)

abbrev punctuatorPrimary (r : Productions) (m : Mark) : Parse Tree := do
  let t ← ahead
  if t.isPunctuator "(" then
    setContext fun c => { c with isBindingElement := false }
    inherit (group r)
  else if t.isPunctuator "[" then inherit (arrayLiteral r)
  else if t.isPunctuator "\x7b" then inherit (objectLiteral r)
  else if t.isPunctuator "/" || t.isPunctuator "/=" then
    notTarget
    let start := (← mark).index
    modify fun p => { p with cursor := { p.cursor with index := start } }
    let t ← advanceRegexp
    let text ← raw t
    let regex ← node .record [(.pattern, t.pattern), (.flags, t.flags)]
    finish m .literal
      [(.value, t.regexp.elim .null .regexp), (.raw, text), (.regex, regex)]
  else failAt (← advance)

def primary (r : Productions) : Parse Tree := do
  if (← read).markup && (← sees "<") then rootElement r
  else
    let m ← mark
    let t ← ahead
    match t.kind with
    | .identifier =>
      let c ← context
      if (c.isModule || c.allowAwait) && t.value.isText "await" then tolerateAt t
      if ← atAsyncFunction then functionExpression r
      else
        let t ← advance
        finish m .identifier [(.name, ofScalar t.value)]
    | .numeric | .quoted =>
      if (← context).strict && t.octal then tolerateOn (.token t) .strictOctal
      notTarget
      literal m (← advance)
    | .boolean =>
      notTarget
      let t ← advance
      finish m .literal [(.value, t.value.isText "true"), (.raw, ← raw t)]
    | .null =>
      notTarget
      let t ← advance
      finish m .literal [(.value, .null), (.raw, ← raw t)]
    | .template => templateLiteral r
    | .punctuator => punctuatorPrimary r m
    | .keyword => keywordPrimary r m
    | _ => failAt (← advance)

def argumentItems (r : Productions) (argument : Parse Tree) (acc : Array Tree) :
    Nat → Parse (Array Tree)
  | 0 => throw .unfinished
  | n + 1 => do
    let e ← if ← sees "..." then spread r else isolate argument
    let acc := acc.push e
    if ← sees ")" then return acc
    expectComma
    if ← sees ")" then return acc
    argumentItems r argument acc n

abbrev arguments (r : Productions) (argument : Parse Tree) : Parse (Array Tree) := do
  expect "("
  let args ← if ← sees ")" then pure #[] else argumentItems r argument #[] (← size)
  expect ")"
  return args

/-- An argument that may turn out to be a parameter of an asynchronous arrow function. -/
abbrev asyncArgument (r : Productions) : Parse Tree := do
  let e ← r.assignment
  setContext fun c => { c with shorthandInitializer := none }
  return e

abbrev newExpression (r : Productions) : Parse Tree := do
  let m ← mark
  let id ← name
  if !(id.get .name).isText "new" then throw (.broken "New expression must start with `new`")
  if ← accept "." then
    let t ← ahead
    if t.isWord "target" && (← context).inFunctionBody then
      let property ← name
      finish m .metaProperty [(.metaName, id), (.property, property)]
    else failAt t
  else if ← atKeyword "import" then failAt (← ahead)
  else
    let callee ← isolate r.callee
    let args ← if ← sees "(" then arguments r r.assignment else pure #[]
    notTarget
    finish m .newExpression [(.callee, callee), (.arguments, .ofArray args)]

/-- The beginning of a chain of members and calls. -/
abbrev chainStart (r : Productions) : Parse Tree := do
  if ← atKeyword "new" then inherit (newExpression r) else inherit (primary r)

def member? (r : Productions) (m : Mark) (e : Tree) : Parse (Option Tree) := do
  if ← sees "." then
    onlyTarget
    expect "."
    let property ← name
    return some (← finish m .memberExpression
      [(.computed, false), (.object, e), (.property, property)])
  else if ← sees "[" then
    onlyTarget
    expect "["
    let property ← isolate (expression r)
    expect "]"
    return some (← finish m .memberExpression
      [(.computed, true), (.object, e), (.property, property)])
  else if (← ahead).kind == .template && (← ahead).head then
    let quasi ← templateLiteral r
    return some (← finish m .taggedTemplateExpression [(.tag, e), (.quasi, quasi)])
  else return none

def callRest (r : Productions) (start : Token) (maybeAsync : Bool) (e : Tree) : Nat → Parse Tree
  | 0 => throw .unfinished
  | n + 1 => do
    let m := markOf start 0
    if ← sees "(" then
      let asyncArrow := maybeAsync && start.line == (← ahead).line
      notTarget
      let args ← arguments r (if asyncArrow then asyncArgument r else r.assignment)
      if e.kind == .importCall && args.size != 1 then tolerate .unexpected
      let call ← finish m .callExpression [(.callee, e), (.arguments, .ofArray args)]
      if asyncArrow && (← sees "=>") then
        callRest r start maybeAsync (← placeholder (args.map reinterpret).toList true) n
      else callRest r start maybeAsync call n
    else
      match ← member? r m e with
      | some e => callRest r start maybeAsync e n
      | none => return e

def call (r : Productions) : Parse Tree := do
  let start ← ahead
  let maybeAsync ← atWord "async"
  withIn true (do
    let e ← (do
      if (← atKeyword "super") && (← context).inFunctionBody then
        let m ← mark
        let _ ← advance
        let e ← finish m .superReference []
        if !(← atAny ["(", ".", "["]) then failAt (← ahead)
        return e
      else chainStart r : Parse Tree)
    callRest r start maybeAsync e (← size))

def memberRest (r : Productions) (m : Mark) (e : Tree) : Nat → Parse Tree
  | 0 => throw .unfinished
  | n + 1 => do
    match ← member? r m e with
    | some e => memberRest r m e n
    | none => return e

def callee (r : Productions) : Parse Tree := do
  if !(← context).allowIn then
    throw (.broken "callee of new expression always allow in keyword.")
  let m := markOf (← ahead) 0
  let e ← (do
    if (← atKeyword "super") && (← context).inFunctionBody then
      let m ← mark
      expectKeyword "super"
      if !(← atAny ["[", "."]) then failAt (← ahead)
      finish m .superReference []
    else chainStart r : Parse Tree)
  memberRest r m e (← size)

/-! ## Operators -/

def isRestricted (e : Tree) : Bool :=
  e.kind == .identifier && restrictedWords.any (e.get .name).isText

abbrev update (r : Productions) : Parse Tree := do
  let start ← ahead
  if ← atAny ["++", "--"] then
    let t ← advance
    let e ← inherit r.unary
    if (← context).strict && isRestricted e then tolerate .strictIncrement
    if !(← context).isAssignmentTarget then tolerate .assignmentTarget
    let e ← finish (markOf start 0) .updateExpression
      [(.operator, ofScalar t.value), (.argument, e), (.isBefore, true)]
    notTarget
    return e
  else
    let e ← inherit (call r)
    if !(← get).newline && (← atAny ["++", "--"]) then
      if (← context).strict && isRestricted e then tolerate .strictPostfix
      if !(← context).isAssignmentTarget then tolerate .assignmentTarget
      notTarget
      let t ← advance
      finish (markOf start 0) .updateExpression
        [(.operator, ofScalar t.value), (.argument, e), (.isBefore, false)]
    else return e

def unary (r : Productions) : Parse Tree := do
  let start ← ahead
  if (← atAny ["+", "-", "~", "!"]) || (← atKeywords ["delete", "void", "typeof"]) then
    let t ← advance
    let e ← inherit r.unary
    let u ← finish (markOf start 0) .unaryExpression
      [(.isBefore, true), (.operator, ofScalar t.value), (.argument, e)]
    if (← context).strict && t.value.isText "delete" && e.kind == .identifier then
      tolerate .strictDelete
    notTarget
    return u
  else if (← context).allowAwait && (← atWord "await") then
    let m ← mark
    let _ ← advance
    let e ← r.unary
    finish m .awaitExpression [(.argument, e)]
  else update r

def binaryKind (operator : Text) : Kind :=
  if operator == "||" || operator == "&&" then .logicalExpression else .binaryExpression

abbrev finishBinary (m : Mark) (operator : Text) (left right : Tree) : Parse Tree :=
  finish m (binaryKind operator) [(.operator, operator), (.left, left), (.right, right)]

abbrev exponentiation (r : Productions) : Parse Tree := do
  let start ← ahead
  let e ← inherit (unary r)
  if e.kind != .unaryExpression && (← sees "**") then
    let _ ← advance
    notTarget
    let right ← isolate r.exponentiation
    finishBinary (markOf start 0) "**" e right
  else return e

def precedences : List (Text × Nat) := List.map (fun (s, n) => (Text.ofString s, n))
  [("||", 1), ("&&", 2), ("|", 3), ("^", 4), ("&", 5), ("==", 6), ("!=", 6), ("===", 6), ("!==", 6),
    ("<", 7), (">", 7), ("<=", 7), (">=", 7), ("<<", 8), (">>", 8), (">>>", 8), ("+", 9), ("-", 9),
    ("*", 11), ("/", 11), ("%", 11)]

/-- The precedence of a token as a binary operator; zero for what is none. -/
def precedence (allowIn : Bool) (t : Token) : Nat :=
  match t.kind, t.value with
  | .punctuator, .text op => (precedences.lookup op).getD 0
  | .keyword, .text op => if op == "instanceof" || (allowIn && op == "in") then 7 else 0
  | _, _ => 0

structure PendingOperand where
  left : Tree
  start : Token
  operator : Text
  precedence : Nat

def reduce (p : Nat) (right : Tree) (start : Token) :
    List PendingOperand → Parse (Tree × Token × List PendingOperand)
  | [] => return (right, start, [])
  | o :: os => do
    if p ≤ o.precedence then
      let e ← finishBinary (markOf o.start 0) o.operator o.left right
      reduce p e o.start os
    else return (right, start, o :: os)

def reduceAll (right : Tree) (start : Token) : List PendingOperand → Parse Tree
  | [] => return right
  | o :: os => do
    let e ← finishBinary (markOf o.start start.lineStart) o.operator o.left right
    reduceAll e o.start os

def binaryRest (operand : Parse Tree) (right : Tree) (start : Token) (os : List PendingOperand) :
    Nat → Parse Tree
  | 0 => throw .unfinished
  | n + 1 => do
    let t ← ahead
    let p := precedence (← context).allowIn t
    if p == 0 then reduceAll right start os
    else
      let (left, start, os) ← reduce p right start os
      let _ ← advance
      notTarget
      let next ← ahead
      let right ← isolate operand
      binaryRest operand right next (⟨left, start, t.value.shown, p⟩ :: os) n

abbrev binaryOf (operand : Parse Tree) : Parse Tree := do
  let start ← ahead
  let e ← inherit operand
  binaryRest operand e start [] (← size)

abbrev binary (r : Productions) : Parse Tree := binaryOf (exponentiation r)

def conditional (r : Productions) : Parse Tree := do
  let start ← ahead
  let e ← inherit (binary r)
  if ← accept "?" then
    let yes ← withIn true (isolate r.assignment)
    expect ":"
    let no ← isolate r.assignment
    let e ← finish (markOf start 0) .conditionalExpression
      [(.test, e), (.consequent, yes), (.alternate, no)]
    notTarget
    return e
  else return e

/-! ## Arrow functions and assignments -/

mutual

def checkPattern (c : Context) (ps : Parameters) : Tree → Parameters
  | .node _ .identifier as =>
    match as.lookup .name with
    | some (.text name) => checkName c ps .node name
    | _ => ps
  | .node _ .restElement as => { checkPatternAttr c ps .argument as with simple := false }
  | .node _ .assignmentPattern as => { checkPatternAttr c ps .left as with simple := false }
  | .node _ .arrayPattern as => { checkPatternAttr c ps .elements as with simple := false }
  | .node _ .objectPattern as => { checkPatternAttr c ps .properties as with simple := false }
  | .node _ .property as => checkPatternAttr c ps .value as
  | _ => { ps with simple := false }

def checkPatternAttr (c : Context) (ps : Parameters) (a : Attr) : List (Attr × Tree) → Parameters
  | [] => ps
  | (b, t) :: r =>
    if a == b then
      match t with
      | .list l => checkPatternList c ps l
      | t => checkPattern c ps t
    else checkPatternAttr c ps a r

def checkPatternList (c : Context) (ps : Parameters) : List Tree → Parameters
  | [] => ps
  | t :: r =>
    match t with
    | .null => checkPatternList c ps r
    | t => checkPatternList c (checkPattern c ps t) r

end

abbrev yieldAsName (t : Tree) : Parse Tree := do
  let right := t.get .right
  if t.kind == .assignmentPattern && right.kind == .yieldExpression then
    if !(right.get .argument).isNull then failAt (← ahead)
    let name := ((right.withKind .identifier).erase .argument).erase .delegate
    return t.put .right (name.put .name "yield")
  else return t

def arrowParameters (e : Tree) : Parse (Option Parameters) := do
  let isAsync := (e.get .isAsync).isTrue
  let params ← match e.kind with
    | .identifier => pure [e]
    | .arrowParameterPlaceHolder => pure (e.get .params).items
    | _ => return none
  let c ← context
  let mut ps : Parameters := {}
  for t in params do
    let t ← yieldAsName t
    if isAsync && t.kind == .identifier && (t.get .name).isText "await" then failAt (← ahead)
    ps := { checkPattern c ps t with params := ps.params.push t }
  if (c.strict || !c.allowYield) && ps.params.any fun t => t.kind == .yieldExpression then
    failAt (← ahead)
  if ps.problem == some .strictDuplicate then
    let culprit := if c.strict then ps.stricted else ps.firstRestricted
    failOn (culprit.getD .nothing) .strictDuplicate
  return some ps

abbrev arrowFunction (r : Productions) (start : Token) (isAsync : Bool) (ps : Parameters) :
    Parse Tree := do
  if (← get).newline then tolerateAt (← ahead)
  setContext fun c => { c with shorthandInitializer := none }
  let body ← withFunction isAsync false (withBody ps (do
    expect "=>"
    if ← sees "\x7b" then withIn true (functionBody r) else isolate r.assignment) failOn)
  finish (markOf start 0) .arrowFunctionExpression
    [(.generator, false), (.isAsync, isAsync), (.params, .ofArray ps.params), (.body, body),
      (.expression, body.kind != .blockStatement)]

def atExpression : Parse Bool := do
  let t ← ahead
  let begins := match t.kind with
    | .punctuator => ["[", "(", "\x7b", "+", "-", "!", "~", "++", "--", "/", "/="].any
        fun (v : String) => t.value.isText v
    | .keyword =>
      ["class", "delete", "function", "let", "new", "super", "this", "typeof", "void", "yield"].any
        fun (v : String) => t.value.isText v
    | _ => true
  return begins || ((← read).markup && t.isPunctuator "<")

abbrev yieldExpression (r : Productions) : Parse Tree := do
  let m ← mark
  expectKeyword "yield"
  if (← get).newline then
    finish m .yieldExpression [(.argument, .null), (.delegate, false)]
  else
    let (delegate, argument) ← withYield false (do
      let delegate ← accept "*"
      if delegate then return (delegate, ← r.assignment)
      if ← atExpression then return (delegate, ← r.assignment)
      return (delegate, .null))
    finish m .yieldExpression [(.argument, argument), (.delegate, delegate)]

def assignmentOperators : List Text := List.map Text.ofString
  ["=", "*=", "**=", "/=", "%=", "+=", "-=", "<<=", ">>=", ">>>=", "&=", "^=", "|="]

abbrev assignmentRest (r : Productions) (start : Token) (e : Tree) : Parse Tree := do
  let c ← context
  if !c.isAssignmentTarget then tolerate .assignmentTarget
  if c.strict && e.kind == .identifier then
    if isRestricted e then tolerateOn (.token start) .strictAssignment
    if strictReservedWords.any (e.get .name).isText then
      tolerateOn (.token start) .strictReserved
  let left ← (do
    if ← sees "=" then return reinterpret e
    notTarget
    return e : Parse Tree)
  let t ← advance
  let right ← isolate r.assignment
  let e ← finish (markOf start 0) .assignmentExpression
    [(.operator, ofScalar t.value), (.left, left), (.right, right)]
  setContext fun c => { c with shorthandInitializer := none }
  return e

def assignment (r : Productions) : Parse Tree := do
  if !(← context).allowYield && (← atKeyword "yield") then yieldExpression r
  else
    let start ← ahead
    let e ← conditional r
    let next ← ahead
    let e ← (do
      if start.isWord "async" && start.line == next.line
          && (next.kind == .identifier || next.isKeyword "yield") then
        let t ← primary r
        placeholder [reinterpret t] true
      else return e : Parse Tree)
    if e.kind == .arrowParameterPlaceHolder || (← sees "=>") then
      notTarget
      match ← arrowParameters e with
      | some ps => arrowFunction r start (e.get .isAsync).isTrue ps
      | none => return e
    else if ← atAny assignmentOperators then assignmentRest r start e
    else return e

end ScriptLens.Parse
