import ScriptLens.Grammar.Cursor

/-!
# Binding patterns

What stands where a variable is bound: a name, an array pattern or an object pattern.
-/

namespace ScriptLens.Parse

/-- The context for an expression about which nothing is known yet. -/
def openContext (c : Context) : Context :=
  { c with isBindingElement := true, isAssignmentTarget := true, shorthandInitializer := none }

def refuseInitializer : Parse Unit := do
  match (← context).shorthandInitializer with
  | some t => failAt t
  | none => return ()

/-- Reads something that is certainly an expression; what it could be does not matter outside. -/
def isolate {α : Type} (p : Parse α) : Parse α :=
  within openContext
    (fun before c => { c with
      isBindingElement := before.isBindingElement
      isAssignmentTarget := before.isAssignmentTarget
      shorthandInitializer := before.shorthandInitializer }) do
    let a ← p
    refuseInitializer
    return a

/-- Reads something that is part of an expression that may turn out to be a pattern. -/
def inherit {α : Type} : Parse α → Parse α :=
  within openContext fun before c => { c with
    isBindingElement := c.isBindingElement && before.isBindingElement
    isAssignmentTarget := c.isAssignmentTarget && before.isAssignmentTarget
    shorthandInitializer := before.shorthandInitializer.or c.shorthandInitializer }

mutual

def reinterpret : Tree → Tree
  | .node r .spreadElement as => .node r .restElement (reinterpretAttr .argument as)
  | .node r .arrayExpression as => .node r .arrayPattern (reinterpretAttr .elements as)
  | .node r .objectExpression as => .node r .objectPattern (reinterpretProperties as)
  | .node r .assignmentExpression as =>
    .node r .assignmentPattern ((reinterpretAttr .left as).filter fun p => p.1 != .operator)
  | t => t

def reinterpretAttr (a : Attr) : List (Attr × Tree) → List (Attr × Tree)
  | [] => []
  | (b, t) :: r =>
    if a == b then
      match t with
      | .list l => (b, .list (reinterpretList l)) :: r
      | t => (b, reinterpret t) :: r
    else (b, t) :: reinterpretAttr a r

def reinterpretList : List Tree → List Tree
  | [] => []
  | t :: r => reinterpret t :: reinterpretList r

def reinterpretProperties : List (Attr × Tree) → List (Attr × Tree)
  | [] => []
  | (b, t) :: r =>
    if b == .properties then
      match t with
      | .list l => (b, .list (reinterpretPropertyList l)) :: r
      | t => (b, t) :: r
    else (b, t) :: reinterpretProperties r

def reinterpretPropertyList : List Tree → List Tree
  | [] => []
  | t :: r =>
    (match t with
      | .node i .spreadElement as => .node i .restElement (reinterpretAttr .argument as)
      | .node i k as => .node i k (reinterpretAttr .value as)
      | t => t) :: reinterpretPropertyList r

end

end ScriptLens.Parse

namespace ScriptLens

/-- The names bound so far, and how they are declared: by `var`, `let`, `const` or otherwise. -/
structure Binder where
  names : Array Token := #[]
  declared : Option Text := none

/-- The productions through which every circle of the grammar passes. -/
structure Productions where
  assignment : Parse Tree
  unary : Parse Tree
  exponentiation : Parse Tree
  callee : Parse Tree
  call : Parse Tree
  pattern : Binder → Parse (Tree × Binder)
  patternWithDefault : Binder → Parse (Tree × Binder)
  statement : Parse Tree
  listItem : Parse Tree
  element : Parse Tree

namespace Parse

def variableName (declared : Option Text) : Parse Tree := do
  let m ← mark
  let t ← advance
  let c ← context
  if t.isKeyword "yield" then
    if c.strict then tolerateOn (.token t) .strictReserved
    else if !c.allowYield then failAt t
  else if t.kind != .identifier then
    if c.strict && t.kind == .keyword && strictReservedWords.any t.value.isText then
      tolerateOn (.token t) .strictReserved
    else if c.strict || !t.value.isText "let" || declared != some "var" then failAt t
  else if (c.isModule || c.allowAwait) && t.value.isText "await" then tolerateAt t
  finish m .identifier [(.name, ofScalar t.value)]

def isName (t : Token) : Bool :=
  t.kind == .identifier || t.kind == .keyword || t.kind == .boolean || t.kind == .null

def name : Parse Tree := do
  let m ← mark
  let t ← advance
  if !isName t then failAt t
  finish m .identifier [(.name, ofScalar t.value)]

def literal (m : Mark) (t : Token) : Parse Tree := do
  finish m .literal [(.value, ofScalar t.value), (.raw, ← raw t)]

def propertyKey (r : Productions) : Parse Tree := do
  let m ← mark
  let t ← advance
  if t.kind == .quoted || t.kind == .numeric then
    if (← context).strict && t.octal then tolerateOn (.token t) .strictOctal
    literal m t
  else if isName t then finish m .identifier [(.name, ofScalar t.value)]
  else if t.isPunctuator "[" then
    let key ← isolate r.assignment
    expect "]"
    return key
  else failAt t

def beginsKey (t : Token) : Bool :=
  isName t || t.kind == .quoted || t.kind == .numeric || t.isPunctuator "["

def isKey (key : Tree) (name : Text) : Bool :=
  (key.kind == .identifier && (key.get .name).isText name)
    || (key.kind == .literal && (key.get .value).isText name)

abbrev patternWithDefault (r : Productions) (b : Binder) : Parse (Tree × Binder) := do
  let start ← ahead
  let (t, b) ← r.pattern b
  if ← accept "=" then
    let right ← withYield true (isolate r.assignment)
    return (← finish (markOf start 0) .assignmentPattern [(.left, t), (.right, right)], b)
  else return (t, b)

abbrev bindingRest (r : Productions) (b : Binder) : Parse (Tree × Binder) := do
  let m ← mark
  expect "..."
  let (t, b) ← r.pattern b
  return (← finish m .restElement [(.argument, t)], b)

def arrayPatternItems (r : Productions) (b : Binder) (acc : Array Tree) :
    Nat → Parse (Array Tree × Binder)
  | 0 => throw .unfinished
  | n + 1 => do
    if ← sees "]" then return (acc, b)
    else if ← accept "," then arrayPatternItems r b (acc.push .null) n
    else if ← sees "..." then
      let (t, b) ← bindingRest r b
      return (acc.push t, b)
    else
      let (t, b) ← r.patternWithDefault b
      if !(← sees "]") then expect ","
      arrayPatternItems r b (acc.push t) n

abbrev arrayPattern (r : Productions) (b : Binder) : Parse (Tree × Binder) := do
  let m ← mark
  expect "["
  let (items, b) ← arrayPatternItems r b #[] (← size)
  expect "]"
  return (← finish m .arrayPattern [(.elements, .ofArray items)], b)

def propertyAttrs (kind : Text) (key : Tree) (computed : Bool) (value : Tree)
    (method shorthand : Bool) : List (Attr × Tree) :=
  [(.key, key), (.computed, computed), (.value, value), (.kind, kind), (.method, method),
    (.shorthand, shorthand)]

abbrev propertyPattern (r : Productions) (b : Binder) : Parse (Tree × Binder) := do
  let m ← mark
  let t ← ahead
  if t.kind == .identifier then
    let key ← variableName none
    let initial ← finish m .identifier [(.name, ofScalar t.value)]
    if ← sees "=" then
      let b := { b with names := b.names.push t }
      let _ ← advance
      let right ← r.assignment
      let value ← finish (markOf t 0) .assignmentPattern [(.left, initial), (.right, right)]
      return (← finish m .property (propertyAttrs "init" key false value false true), b)
    else if !(← sees ":") then
      let b := { b with names := b.names.push t }
      return (← finish m .property (propertyAttrs "init" key false initial false true), b)
    else
      expect ":"
      let (value, b) ← r.patternWithDefault b
      return (← finish m .property (propertyAttrs "init" key false value false false), b)
  else
    let computed ← sees "["
    let key ← propertyKey r
    expect ":"
    let (value, b) ← r.patternWithDefault b
    return (← finish m .property (propertyAttrs "init" key computed value false false), b)

abbrev restProperty (r : Productions) (b : Binder) : Parse (Tree × Binder) := do
  let m ← mark
  expect "..."
  let (t, b') ← r.pattern { b with declared := none }
  if ← sees "=" then fail .defaultRest
  if !(← sees "\x7d") then fail .unexpected
  return (← finish m .restElement [(.argument, t)], { b' with declared := b.declared })

def objectPatternItems (r : Productions) (b : Binder) (acc : Array Tree) :
    Nat → Parse (Array Tree × Binder)
  | 0 => throw .unfinished
  | n + 1 => do
    if ← sees "\x7d" then return (acc, b)
    let (t, b) ← if ← sees "..." then restProperty r b else propertyPattern r b
    if !(← sees "\x7d") then expect ","
    objectPatternItems r b (acc.push t) n

abbrev objectPattern (r : Productions) (b : Binder) : Parse (Tree × Binder) := do
  let m ← mark
  expect "\x7b"
  let (items, b) ← objectPatternItems r b #[] (← size)
  expect "\x7d"
  return (← finish m .objectPattern [(.properties, .ofArray items)], b)

def pattern (r : Productions) (b : Binder) : Parse (Tree × Binder) := do
  if ← sees "[" then arrayPattern r b
  else if ← sees "\x7b" then objectPattern r b
  else
    let t ← ahead
    if t.isKeyword "let" && (b.declared == some "const" || b.declared == some "let") then
      tolerateOn (.token t) .letBinding
    return (← variableName b.declared, { b with names := b.names.push t })

end Parse

end ScriptLens
