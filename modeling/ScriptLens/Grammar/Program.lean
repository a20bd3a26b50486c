import ScriptLens.Grammar.Statement

/-!
# Parsing programs

`parseProgram` parses a source text and gives its syntax tree.
-/

namespace ScriptLens.Parse

abbrev moduleName : Parse Tree := do
  let m ← mark
  if (← ahead).kind != .quoted then fail .unexpected
  literal m (← advance)

abbrev expectFrom : Parse Unit := do
  if !(← atWord "from") then
    let v := (← ahead).value
    fail (if v.isPresent then .unexpectedToken v.shown else .unexpected)
  let _ ← advance

abbrev importSpecifier : Parse Tree := do
  let m ← mark
  if (← ahead).kind == .identifier then
    let imported ← variableName none
    let localName ← if ← atWord "as" then (do
        let _ ← advance
        variableName none)
      else pure imported
    finish m .importSpecifier [(.localName, localName), (.imported, imported)]
  else
    let imported ← name
    if ← atWord "as" then
      let _ ← advance
      let localName ← variableName none
      finish m .importSpecifier [(.localName, localName), (.imported, imported)]
    else failAt (← advance)

abbrev bracedItems (item : Parse Tree) : Parse (Array Tree) := do
  expect "\x7b"
  let more : Parse Bool := do return !(← sees "\x7d")
  let next : Parse Tree := do
    let t ← item
    if !(← sees "\x7d") then expect ","
    return t
  let items ← collectWhile more next #[] (← size)
  expect "\x7d"
  return items

abbrev importNamespace : Parse Tree := do
  let m ← mark
  expect "*"
  if !(← atWord "as") then fail .unexpected
  let _ ← advance
  let localName ← name
  finish m .importNamespaceSpecifier [(.localName, localName)]

abbrev importDefault : Parse Tree := do
  let m ← mark
  let localName ← name
  finish m .importDefaultSpecifier [(.localName, localName)]

abbrev importClause : Parse (Array Tree) := do
  let t ← ahead
  if t.isPunctuator "\x7b" then bracedItems importSpecifier
  else if t.isPunctuator "*" then return #[← importNamespace]
  else if isName t && !t.isKeyword "default" then
    let first ← importDefault
    if ← accept "," then
      if ← sees "*" then return #[first, ← importNamespace]
      else if ← sees "\x7b" then return #[first] ++ (← bracedItems importSpecifier)
      else failAt (← ahead)
    else return #[first]
  else failAt (← advance)

def importDeclaration : Parse Tree := do
  if (← context).inFunctionBody then fail .unexpected
  let m ← mark
  expectKeyword "import"
  let specifiers ← (do
    if (← ahead).kind == .quoted then return #[]
    let specifiers ← importClause
    expectFrom
    return specifiers : Parse (Array Tree))
  let source ← moduleName
  semicolon
  finish m .importDeclaration [(.specifiers, .ofArray specifiers), (.source, source)]

abbrev exportSpecifier : Parse Tree := do
  let m ← mark
  let localName ← name
  let exported ← if ← atWord "as" then (do
      let _ ← advance
      name)
    else pure localName
  finish m .exportSpecifier [(.exported, exported), (.localName, localName)]

abbrev exportedDefault (r : Productions) : Parse Tree := do
  if ← atKeyword "function" then functionDeclaration r true
  else if ← atKeyword "class" then classDeclaration r true
  else if ← atWord "async" then
    if ← atAsyncFunction then functionDeclaration r true else r.assignment
  else
    if ← atWord "from" then fail (.unexpectedToken (← ahead).value.shown)
    let e ← (do
      if ← sees "\x7b" then objectLiteral r
      else if ← sees "[" then arrayLiteral r
      else r.assignment : Parse Tree)
    semicolon
    return e

abbrev exportNames (m : Mark) : Parse Tree := do
  let first ← (do
    if (← ahead).kind != .identifier then return #[]
    let m ← mark
    let localName ← name
    return #[← finish m .exportDefaultSpecifier [(.localName, localName)]] : Parse (Array Tree))
  let braced ← (do
    if first.isEmpty then return true
    accept "," : Parse Bool)
  let (specifiers, hasDefault) ← (do
    if !braced then return (first, false)
    expect "\x7b"
    let more : Parse Bool := do return !(← sees "\x7d")
    let next : Parse (Tree × Bool) := do
      let isDefault ← atKeyword "default"
      let t ← exportSpecifier
      if !(← sees "\x7d") then expect ","
      return (t, isDefault)
    let items ← collectWhile more next #[] (← size)
    expect "\x7d"
    return (first ++ items.map (·.1), items.any (·.2)) : Parse (Array Tree × Bool))
  let source ← (do
    if ← atWord "from" then
      let _ ← advance
      let source ← moduleName
      semicolon
      return source
    else if hasDefault then
      let v := (← ahead).value
      fail (if v.isPresent then .unexpectedToken v.shown else .unexpected)
    else
      semicolon
      return .null : Parse Tree)
  finish m .exportNamedDeclaration
    [(.declaration, .null), (.specifiers, .ofArray specifiers), (.source, source)]

def exportAttrs (declaration : Tree) : List (Attr × Tree) :=
  [(.declaration, declaration), (.specifiers, .list []), (.source, .null)]

def exportDeclaration (r : Productions) : Parse Tree := do
  if (← context).inFunctionBody then fail .unexpected
  let m ← mark
  expectKeyword "export"
  let t ← ahead
  if t.isKeyword "default" then
    let _ ← advance
    let declaration ← exportedDefault r
    finish m .exportDefaultDeclaration [(.declaration, declaration)]
  else if t.isPunctuator "*" then
    let _ ← advance
    expectFrom
    let source ← moduleName
    semicolon
    finish m .exportAllDeclaration [(.source, source)]
  else if t.kind == .keyword then
    let declaration ← (do
      if t.isKeyword "let" || t.isKeyword "const" then lexicalDeclaration r
      else if t.isOneOf .keyword ["var", "class", "function"] then r.listItem
      else failAt t : Parse Tree)
    finish m .exportNamedDeclaration (exportAttrs declaration)
  else if ← atAsyncFunction then
    let declaration ← functionDeclaration r false
    finish m .exportNamedDeclaration (exportAttrs declaration)
  else exportNames m

def listItem (r : Productions) : Parse Tree := do
  setContext fun c => { c with isAssignmentTarget := true, isBindingElement := true }
  let t ← ahead
  if t.isKeyword "export" then
    if !(← context).isModule then tolerateOn (.token t) .unexpected
    exportDeclaration r
  else if t.isKeyword "import" then
    if ← atImportCall then expressionStatement r
    else
      if !(← context).isModule then tolerateOn (.token t) .unexpected
      importDeclaration
  else if t.isKeyword "const" then lexicalDeclaration r
  else if t.isKeyword "function" then functionDeclaration r false
  else if t.isKeyword "class" then classDeclaration r false
  else if t.isKeyword "let" then
    if ← atLexicalDeclaration then lexicalDeclaration r else statement r
  else statement r

/-- The productions of the grammar, nested at most `n` deep. -/
def productions : Nat → Productions
  | 0 =>
    { assignment := throw .unfinished
      unary := throw .unfinished
      exponentiation := throw .unfinished
      callee := throw .unfinished
      call := throw .unfinished
      pattern := fun _ => throw .unfinished
      patternWithDefault := fun _ => throw .unfinished
      statement := throw .unfinished
      listItem := throw .unfinished
      element := throw .unfinished }
  | n + 1 =>
    { assignment := fun s p => assignment (productions n) s p
      unary := fun s p => unary (productions n) s p
      exponentiation := fun s p => exponentiation (productions n) s p
      callee := fun s p => callee (productions n) s p
      call := fun s p => call (productions n) s p
      pattern := fun b s p => pattern (productions n) b s p
      patternWithDefault := fun b s p => patternWithDefault (productions n) b s p
      statement := fun s p => statement (productions n) s p
      listItem := fun s p => listItem (productions n) s p
      element := fun s p => element (productions n) s p }

def program (r : Productions) (isModule : Bool) : Parse Tree := do
  if isModule then
    setContext fun c => { c with strict := true, isModule := true }
    modify fun p => { p with cursor := { p.cursor with inModule := true } }
  let m ← mark
  let before ← directives (expression r) none #[] (← size)
  let more : Parse Bool := do return !(← atFinish)
  let body ← collectWhile more r.listItem before (← size)
  let kind : Text := if isModule then "module" else "script"
  finish m .program [(.sourceType, kind), (.body, .ofArray body)]

def start (t : Text) (firstRef : Nat) : Parser :=
  let cursor := Cursor.start t
  let m : Mark := ⟨0, cursor.line, 0⟩
  { cursor, startMark := m, lastMark := m, nextRef := firstRef
    lookahead :=
      { kind := .finish, value := .text "", line := cursor.line, lineStart := 0, start := 0, stop := 0 } }

/-- Reads the first token and then a program. -/
def wholeProgram (isModule : Bool) : Parse Tree := do
  let _ ← advance
  setLast (← scanMark)
  program (productions (4 * (← size))) isModule

end ScriptLens.Parse

namespace ScriptLens

structure Parsed where
  tree : Tree
  nextRef : Nat
  built : Array (Kind × Span)

def Diagnostic.toTree (ref : Nat) (d : Diagnostic) : Tree :=
  .node ref .record [(.message, .text (("Error: " : Text) ++ d.message)), (.index, .int d.index),
    (.lineNumber, .int d.line), (.column, .int d.column)]

def extraAttrs (s : Settings) (p : Parser) : List (Attr × Tree) :=
  let errors := p.cursor.errors.toList.mapIdx fun i d => d.toTree (p.nextRef + i)
  (if s.comment then [(Attr.comments, Tree.ofArray p.comments.collected)] else [])
    ++ (if s.tokens then [(.tokens, .ofArray p.tokens)] else [])
    ++ (if s.source.tolerant then [(.errors, .list errors)] else [])

def parseProgram (s : Settings) (isModule : Bool) (firstRef : Nat) : Except Failure Parsed :=
  match (Parse.wholeProgram isModule).run s |>.run (Parse.start s.source.text firstRef) with
  | .error f _ => .error f
  | .ok tree p =>
    let tree := if s.attachComment then p.comments.apply tree else tree
    let tree := (extraAttrs s p).foldl (fun t (a, v) => t.put a v) tree
    .ok ⟨tree, p.nextRef + p.cursor.errors.size, p.built⟩

def parseScript (t : Text) (firstRef : Nat) : Except Failure Parsed :=
  parseProgram { source := { text := t }, range := true } false firstRef

mutual

def Tree.outline : Tree → List Text
  | .list l => Tree.outlineList l
  | .node _ k as =>
    match k, as.lookup .regex, as.lookup .isAsync with
    | .identifier, _, _ =>
      (match as.lookup .name with
        | some (.text t) => ("id " : Text) ++ t
        | _ => "id ") :: Tree.outlineAttrs as
    | .literal, none, _ =>
      (match as.lookup .raw with
        | some (.text t) => ("lit " : Text) ++ t
        | _ => "lit ") :: Tree.outlineAttrs as
    | .functionDeclaration, _, some (.flag false) =>
      ("enter fn" : Text) :: (Tree.outlineAttrs as ++ [("leave fn" : Text)])
    | _, _, _ => Tree.outlineAttrs as
  | _ => []

def Tree.outlineList : List Tree → List Text
  | [] => []
  | t :: r => Tree.outline t ++ Tree.outlineList r

def Tree.outlineAttrs : List (Attr × Tree) → List Text
  | [] => []
  | (_, t) :: r => Tree.outline t ++ Tree.outlineAttrs r

end

end ScriptLens
