import ScriptLens.Grammar.Expression

/-!
# Statements
-/

namespace ScriptLens.Parse

/-! ## Blocks and declarations -/

abbrev block (r : Productions) : Parse Tree := do
  let m ← mark
  expect "\x7b"
  let more : Parse Bool := do return !(← sees "\x7d")
  let body ← collectWhile more r.listItem #[] (← size)
  expect "\x7d"
  finish m .blockStatement [(.body, .ofArray body)]

/-- Reports a declaration of a name that strict code may not bind. -/
abbrev checkDeclared (id : Tree) : Parse Unit := do
  if (← context).strict && isRestricted id then tolerate .strictVariable

abbrev lexicalBinding (r : Productions) (kind : Text) (inFor : Bool) : Parse Tree := do
  let m ← mark
  let (id, _) ← pattern r { declared := kind }
  checkDeclared id
  let initial ← (do
    if kind == "const" then
      if (← atKeyword "in") || (← atWord "of") then return .null
      if ← accept "=" then return ← isolate r.assignment
      fail (.missingInitializer "const")
    else if (!inFor && id.kind != .identifier) || (← sees "=") then
      expect "="
      isolate r.assignment
    else return .null : Parse Tree)
  finish m .variableDeclarator [(.id, id), (.initial, initial)]

abbrev declaratorList (declarator : Parse Tree) : Parse (Array Tree) := do
  let first ← declarator
  let next : Parse Tree := do
    let _ ← advance
    declarator
  collectWhile (sees ",") next #[first] (← size)

abbrev lexicalDeclaration (r : Productions) : Parse Tree := do
  let m ← mark
  let kind := (← advance).value.shown
  if kind != "let" && kind != "const" then
    throw (.broken "Lexical declaration must be either or const")
  let declarations ← declaratorList (lexicalBinding r kind false)
  semicolon
  finish m .variableDeclaration [(.declarations, .ofArray declarations), (.kind, kind)]

abbrev atLexicalDeclaration : Parse Bool := do
  let t ← peek
  return t.kind == .identifier || t.isPunctuator "[" || t.isPunctuator "\x7b" || t.isKeyword "let"
    || t.isKeyword "yield"

abbrev variableDeclarator (r : Productions) (inFor : Bool) : Parse Tree := do
  let m ← mark
  let (id, _) ← pattern r { declared := some "var" }
  checkDeclared id
  let initial ← (do
    if ← accept "=" then return ← isolate r.assignment
    if id.kind != .identifier && !inFor then expect "="
    return .null : Parse Tree)
  finish m .variableDeclarator [(.id, id), (.initial, initial)]

abbrev variableStatement (r : Productions) : Parse Tree := do
  let m ← mark
  expectKeyword "var"
  let declarations ← declaratorList (variableDeclarator r false)
  semicolon
  finish m .variableDeclaration [(.declarations, .ofArray declarations), (.kind, "var")]

/-! ## Simple statements -/

abbrev emptyStatement : Parse Tree := do
  let m ← mark
  expect ";"
  finish m .emptyStatement []

abbrev expressionStatement (r : Productions) : Parse Tree := do
  let m ← mark
  let e ← expression r
  semicolon
  finish m .expressionStatement [(.expression, e)]

/-- What follows a parenthesis that must close; when problems are tolerated a missing parenthesis
is skipped over and an empty statement stands for what follows. -/
abbrev afterParenthesis (body : Parse Tree) : Parse Tree := do
  if !(← sees ")") && (← read).source.tolerant then
    tolerateAt (← advance)
    finish (← mark) .emptyStatement []
  else
    expect ")"
    body

abbrev branch (r : Productions) : Parse Tree := do
  if (← context).strict && (← atKeyword "function") then tolerate .strictFunction
  r.statement

abbrev ifStatement (r : Productions) : Parse Tree := do
  let m ← mark
  expectKeyword "if"
  expect "("
  let test ← expression r
  let (yes, no) ← (do
    if !(← sees ")") && (← read).source.tolerant then
      tolerateAt (← advance)
      return (← finish (← mark) .emptyStatement [], .null)
    expect ")"
    let yes ← branch r
    if ← atKeyword "else" then
      let _ ← advance
      return (yes, ← branch r)
    return (yes, .null) : Parse (Tree × Tree))
  finish m .ifStatement [(.test, test), (.consequent, yes), (.alternate, no)]

abbrev doStatement (r : Productions) : Parse Tree := do
  let m ← mark
  expectKeyword "do"
  let body ← inLoop r.statement
  expectKeyword "while"
  expect "("
  let test ← expression r
  if !(← sees ")") && (← read).source.tolerant then tolerateAt (← advance)
  else
    expect ")"
    let _ ← accept ";"
  finish m .doWhileStatement [(.body, body), (.test, test)]

abbrev whileStatement (r : Productions) : Parse Tree := do
  let m ← mark
  expectKeyword "while"
  expect "("
  let test ← expression r
  let body ← afterParenthesis (inLoop r.statement)
  finish m .whileStatement [(.test, test), (.body, body)]

inductive ForHead where
  | plain (initial : Tree)
  | forIn (left right : Tree)
  | forOf (left right : Tree)

def isBare (declarations : Array Tree) : Bool :=
  declarations.size == 1 && declarations.all fun d => (d.get .initial).isNull

abbrev forVariable (r : Productions) : Parse ForHead := do
  let m ← mark
  let _ ← advance
  let declarations ← withIn false (declaratorList (variableDeclarator r true))
  let attrs := [(Attr.declarations, Tree.ofArray declarations), (.kind, "var")]
  if declarations.size == 1 && (← atKeyword "in") then
    let d := declarations.getD 0 .null
    let k := (d.get .id).kind
    let odd := k == .arrayPattern || k == .objectPattern || (← context).strict
    if !(d.get .initial).isNull && odd then tolerate (.loopInitializer "for-in")
    let left ← finish m .variableDeclaration attrs
    let _ ← advance
    return .forIn left (← expression r)
  else if isBare declarations && (← atWord "of") then
    let left ← finish m .variableDeclaration attrs
    let _ ← advance
    return .forOf left (← r.assignment)
  else
    let initial ← finish m .variableDeclaration attrs
    expect ";"
    return .plain initial

abbrev forLexical (r : Productions) : Parse ForHead := do
  let m ← mark
  let kind := (← advance).value.shown
  if !(← context).strict && (← ahead).value.isText "in" then
    let left ← finish m .identifier [(.name, kind)]
    let _ ← advance
    return .forIn left (← expression r)
  else
    let declarations ← withIn false (declaratorList (lexicalBinding r kind true))
    let attrs := [(Attr.declarations, Tree.ofArray declarations), (.kind, kind)]
    if isBare declarations && (← atKeyword "in") then
      let left ← finish m .variableDeclaration attrs
      let _ ← advance
      return .forIn left (← expression r)
    else if isBare declarations && (← atWord "of") then
      let left ← finish m .variableDeclaration attrs
      let _ ← advance
      return .forOf left (← r.assignment)
    else
      semicolon
      return .plain (← finish m .variableDeclaration attrs)

abbrev forExpression (r : Productions) : Parse ForHead := do
  let start ← ahead
  let e ← withIn false (inherit r.assignment)
  let odd := !(← context).isAssignmentTarget || e.kind == .assignmentExpression
  if ← atKeyword "in" then
    if odd then tolerate .forInTarget
    let _ ← advance
    return .forIn (reinterpret e) (← expression r)
  else if ← atWord "of" then
    if odd then tolerate .forOfTarget
    let _ ← advance
    return .forOf (reinterpret e) (← r.assignment)
  else
    let e ← (do
      if !(← sees ",") then return e
      let next : Parse Tree := do
        let _ ← advance
        isolate r.assignment
      let es ← collectWhile (sees ",") next #[e] (← size)
      finish (markOf start 0) .sequenceExpression [(.expressions, .ofArray es)] : Parse Tree)
    expect ";"
    return .plain e

abbrev forHead (r : Productions) : Parse ForHead := do
  if ← accept ";" then return .plain .null
  else if ← atKeyword "var" then forVariable r
  else if ← atKeywords ["const", "let"] then forLexical r
  else forExpression r

def forStatement (r : Productions) : Parse Tree := do
  let m ← mark
  expectKeyword "for"
  expect "("
  let head ← forHead r
  let (test, update) ← (do
    match head with
    | .plain _ =>
      let test ← if ← sees ";" then pure .null else expression r
      expect ";"
      let update ← if ← sees ")" then pure .null else expression r
      return (test, update)
    | _ => return (.null, .null) : Parse (Tree × Tree))
  let body ← afterParenthesis (inLoop (isolate r.statement))
  match head with
  | .plain initial =>
    finish m .forStatement [(.initial, initial), (.test, test), (.update, update), (.body, body)]
  | .forIn left right =>
    finish m .forInStatement [(.isEach, false), (.left, left), (.right, right), (.body, body)]
  | .forOf left right =>
    finish m .forOfStatement [(.left, left), (.right, right), (.body, body)]

abbrev jumpLabel : Parse Tree := do
  if (← ahead).kind == .identifier && !(← get).newline then
    let id ← variableName none
    let name := ((id.get .name).text?).getD ""
    if !(← context).labels.contains name then fail (.unknownLabel name)
    return id
  else return .null

abbrev continueStatement : Parse Tree := do
  let m ← mark
  expectKeyword "continue"
  let label ← jumpLabel
  semicolon
  if label.isNull && !(← context).inIteration then fail .strayContinue
  finish m .continueStatement [(.label, label)]

abbrev breakStatement : Parse Tree := do
  let m ← mark
  expectKeyword "break"
  let label ← jumpLabel
  semicolon
  let c ← context
  if label.isNull && !c.inIteration && !c.inSwitch then fail .strayBreak
  finish m .breakStatement [(.label, label)]

abbrev returnStatement (r : Productions) : Parse Tree := do
  if !(← context).inFunctionBody then tolerate .strayReturn
  let m ← mark
  expectKeyword "return"
  let t ← ahead
  let ends := t.isPunctuator ";" || t.isPunctuator "\x7d" || (← get).newline || t.kind == .finish
  let hasArgument := !ends || t.kind == .quoted || t.kind == .template
  let argument ← if hasArgument then expression r else pure .null
  semicolon
  finish m .returnStatement [(.argument, argument)]

abbrev withStatement (r : Productions) : Parse Tree := do
  if (← context).strict then tolerate .strictWith
  let m ← mark
  expectKeyword "with"
  expect "("
  let object ← expression r
  let body ← afterParenthesis r.statement
  finish m .withStatement [(.object, object), (.body, body)]

abbrev switchCase (r : Productions) : Parse Tree := do
  let m ← mark
  let test ← (do
    if ← atKeyword "default" then
      let _ ← advance
      return .null
    expectKeyword "case"
    expression r : Parse Tree)
  expect ":"
  let more : Parse Bool := do return !(← sees "\x7d") && !(← atKeywords ["default", "case"])
  let body ← collectWhile more r.listItem #[] (← size)
  finish m .switchCase [(.test, test), (.consequent, .ofArray body)]

def switchCases (r : Productions) (hasDefault : Bool) (acc : Array Tree) : Nat → Parse (Array Tree)
  | 0 => throw .unfinished
  | n + 1 => do
    if ← sees "\x7d" then return acc
    let t ← switchCase r
    let isDefault := (t.get .test).isNull
    if isDefault && hasDefault then fail .severalDefaults
    switchCases r (hasDefault || isDefault) (acc.push t) n

abbrev switchStatement (r : Productions) : Parse Tree := do
  let m ← mark
  expectKeyword "switch"
  expect "("
  let discriminant ← expression r
  expect ")"
  let cases ← inSwitch (do
    expect "\x7b"
    let cases ← switchCases r false #[] (← size)
    expect "\x7d"
    return cases)
  finish m .switchStatement [(.discriminant, discriminant), (.cases, .ofArray cases)]

abbrev labeledBody (r : Productions) : Parse Tree := do
  let t ← ahead
  if ← atKeyword "class" then
    tolerateAt t
    classDeclaration r false
  else if ← atKeyword "function" then
    let d ← functionDeclaration r false
    if (← context).strict then tolerateOn (.token t) .strictFunction
    else if (d.get .generator).isTrue then tolerateOn (.token t) .legacyGenerator
    return d
  else r.statement

def labeledStatement (r : Productions) : Parse Tree := do
  let m ← mark
  let e ← expression r
  if e.kind == .identifier && (← sees ":") then
    let _ ← advance
    let name := ((e.get .name).text?).getD ""
    if (← context).labels.contains name then fail (.redeclaredLabel name)
    let body ← labeled name (labeledBody r)
    finish m .labeledStatement [(.label, e), (.body, body)]
  else
    semicolon
    finish m .expressionStatement [(.expression, e)]

abbrev throwStatement (r : Productions) : Parse Tree := do
  let m ← mark
  expectKeyword "throw"
  if (← get).newline then fail .brokenThrow
  let argument ← expression r
  semicolon
  finish m .throwStatement [(.argument, argument)]

def checkRepeated (seen : List Text) : List Token → Parse Unit
  | [] => return ()
  | t :: r => do
    let name := t.value.shown
    if seen.contains name then tolerate (.duplicateBinding name)
    checkRepeated (name :: seen) r

abbrev catchClause (r : Productions) : Parse Tree := do
  let m ← mark
  expectKeyword "catch"
  expect "("
  if ← sees ")" then failAt (← ahead)
  let (param, b) ← pattern r {}
  checkRepeated [] b.names.toList
  if (← context).strict && isRestricted param then tolerate .strictCatch
  expect ")"
  let body ← block r
  finish m .catchClause [(.param, param), (.body, body)]

abbrev tryStatement (r : Productions) : Parse Tree := do
  let m ← mark
  expectKeyword "try"
  let body ← block r
  let handler ← if ← atKeyword "catch" then catchClause r else pure .null
  let finalizer ← if ← atKeyword "finally" then (do
      expectKeyword "finally"
      block r)
    else pure .null
  if handler.isNull && finalizer.isNull then fail .bareTry
  finish m .tryStatement [(.block, body), (.handler, handler), (.finalizer, finalizer)]

abbrev debuggerStatement : Parse Tree := do
  let m ← mark
  expectKeyword "debugger"
  semicolon
  finish m .debuggerStatement []

def keywordStatements (r : Productions) : List (Text × Parse Tree) :=
  [("break", breakStatement), ("continue", continueStatement), ("debugger", debuggerStatement),
    ("do", doStatement r), ("for", forStatement r), ("function", functionDeclaration r false),
    ("if", ifStatement r), ("return", returnStatement r), ("switch", switchStatement r),
    ("throw", throwStatement r), ("try", tryStatement r), ("var", variableStatement r),
    ("while", whileStatement r), ("with", withStatement r)]

def statement (r : Productions) : Parse Tree := do
  let t ← ahead
  match t.kind with
  | .boolean | .null | .numeric | .quoted | .template | .regexp => expressionStatement r
  | .punctuator =>
    if t.isPunctuator "\x7b" then block r
    else if t.isPunctuator ";" then emptyStatement
    else expressionStatement r
  | .identifier =>
    if ← atAsyncFunction then functionDeclaration r false else labeledStatement r
  | .keyword =>
    match (keywordStatements r).find? fun p => t.value.isText p.1 with
    | some (_, p) => p
    | none => expressionStatement r
  | _ => failAt t

end ScriptLens.Parse
