import ScriptLens.Grammar.Basic

/-!
# Moving over tokens

Reading the next token, testing the token ahead, reporting problems, and completing nodes.
-/

namespace ScriptLens.Attachment

def of (a : Attachment) (ref : Nat) : NodeComments := (a.attached.lookup ref).getD {}

def change (a : Attachment) (ref : Nat) (f : NodeComments → NodeComments) : Attachment :=
  match a.attached.lookup ref with
  | some _ =>
    { a with attached := a.attached.map fun (r, c) => if r == ref then (r, f c) else (r, c) }
  | none => { a with attached := (ref, f {}) :: a.attached }

def unflagged {α : Type} : List α → List Bool → List α
  | [], _ => []
  | _ :: xs, true :: bs => unflagged xs bs
  | x :: xs, false :: bs => x :: unflagged xs bs
  | xs, [] => xs

def visitInner (a : Attachment) (t : Tree) (span : Span) : Except Failure Attachment := do
  if t.kind != .blockStatement || !(t.get .body).items.isEmpty then return a
  let flags := a.leading.map fun c => decide (c.start ≤ span.stop)
  let inside := a.leading.filter fun c => decide (c.start ≤ span.stop)
  let last := (flags.reverse.dropWhile (!·)).length
  if a.trailing.length < last then throw .missingItem
  if inside.isEmpty then return a
  let a := { a with leading := unflagged a.leading flags, trailing := unflagged a.trailing flags }
  return a.change t.ref fun c => { c with inner := inside.map (·.comment) }

def takeTrailing (a : Attachment) (span : Span) : List WaitingComment × Attachment :=
  if !a.trailing.isEmpty then
    let found := a.trailing.filter fun c => decide (span.stop ≤ c.start)
    (found, if found.isEmpty then a else { a with trailing := [] })
  else
    match a.stack with
    | [] => ([], a)
    | (ref, _) :: _ =>
      match (a.of ref).trailing with
      | [] => ([], a)
      | c :: cs =>
        if span.stop ≤ c.start then (c :: cs, a.change ref fun n => { n with trailing := [] })
        else ([], a)

def dropInside (start : Nat) (found : Option Nat) :
    List (Nat × Nat) → Option Nat × List (Nat × Nat)
  | [] => (found, [])
  | (ref, s) :: r => if start ≤ s then dropInside start (some ref) r else (found, (ref, s) :: r)

def takeLeading (a : Attachment) (span : Span) : List WaitingComment × Attachment :=
  let (target, stack) := dropInside span.start none a.stack
  let a := { a with stack }
  match target with
  | some ref =>
    let before := (a.of ref).leading
    let found := before.filter fun c => decide (c.stop ≤ span.start)
    if found.isEmpty then ([], a)
    else
      let kept := before.filter fun c => !decide (c.stop ≤ span.start)
      (found, a.change ref fun n => { n with leading := kept })
  | none =>
    let found := a.leading.filter fun c => decide (c.start ≤ span.start)
    (found, { a with leading := a.leading.filter fun c => !decide (c.start ≤ span.start) })

def visit (a : Attachment) (t : Tree) (span : Span) : Except Failure Attachment := do
  if t.kind == .program && !(t.get .body).items.isEmpty then return a
  let a ← a.visitInner t span
  let (trailing, a) := a.takeTrailing span
  let (leading, a) := a.takeLeading span
  let a := if leading.isEmpty then a else a.change t.ref fun c => { c with leading }
  let a := if trailing.isEmpty then a else a.change t.ref fun c => { c with trailing }
  return { a with stack := (t.ref, span.start) :: a.stack }

def attrs (c : NodeComments) : List (Attr × Tree) :=
  (if c.inner.isEmpty then [] else [(.innerComments, .list c.inner)])
    ++ (if c.leading.isEmpty then [] else [(.leadingComments, .list (c.leading.map (·.comment)))])
    ++ (if c.trailing.isEmpty then [] else [(.trailingComments, .list (c.trailing.map (·.comment)))])

mutual

def apply (a : Attachment) : Tree → Tree
  | .list l => .list (applyList a l)
  | .node r k as => .node r k (applyAttrs a as ++ attrs (a.of r))
  | t => t

def applyList (a : Attachment) : List Tree → List Tree
  | [] => []
  | t :: r => apply a t :: applyList a r

def applyAttrs (a : Attachment) : List (Attr × Tree) → List (Attr × Tree)
  | [] => []
  | (n, t) :: r => (n, apply a t) :: applyAttrs a r

end

end ScriptLens.Attachment

namespace ScriptLens.Parse

/-! ## Problems -/

/-- What a problem is blamed on. -/
inductive Culprit where
  | nothing
  | token (t : Token)
  | node

def unexpectedProblem (strict : Bool) (t : Token) : Problem :=
  match t.kind with
  | .finish => .unexpectedEnd
  | .identifier => .unexpectedIdentifier
  | .numeric => .unexpectedNumber
  | .quoted => .unexpectedString
  | .template => .unexpectedTemplate t.value.shown
  | .keyword =>
    if futureReservedWords.any t.value.isText then .unexpectedReserved
    else if strict && strictReservedWords.any t.value.isText then .strictReserved
    else .unexpectedToken t.value.shown
  | _ => .unexpectedToken t.value.shown

def atLast (p : Problem) : Parse Diagnostic := do
  let m := (← get).lastMark
  return ⟨p, m.index, m.line, m.column + 1⟩

def unexpected (c : Culprit) (problem : Option Problem) : Parse Diagnostic := do
  match c with
  | .nothing => atLast (problem.getD (.unexpectedToken "ILLEGAL"))
  | .node => atLast (problem.getD (.unexpectedToken "None"))
  | .token t =>
    let m := (← get).lastMark
    let p := problem.getD (unexpectedProblem (← context).strict t)
    return ⟨p, t.start, t.line, t.start - (m.index - m.column) + 1⟩

abbrev failAt {α : Type} (t : Token) : Parse α := do
  throw (.source (← unexpected (.token t) none))

abbrev failOn {α : Type} (c : Culprit) (p : Problem) : Parse α := do
  throw (.source (← unexpected c (some p)))

abbrev fail {α : Type} (p : Problem) : Parse α := do throw (.source (← atLast p))

def record (d : Diagnostic) : Parse Unit := do
  if (← read).source.tolerant then
    modify fun p => { p with cursor := { p.cursor with errors := p.cursor.errors.push d } }
  else throw (.source d)

abbrev tolerateAt (t : Token) : Parse Unit := do record (← unexpected (.token t) none)

abbrev tolerateOn (c : Culprit) (p : Problem) : Parse Unit := do record (← unexpected c (some p))

abbrev tolerate (p : Problem) : Parse Unit := do
  record { ← atLast p with line := (← get).cursor.line }

/-! ## Nodes -/

def handOver (t : Tree) (span : Span) : Parse Tree := do
  let settings ← read
  modify fun p => { p with built := p.built.push (t.kind, span) }
  let t ← match settings.delegate.bind fun f => f t span with
    | some (.node _ k as) => node k as
    | _ => pure t
  if settings.attachComment then
    match (← get).comments.visit t span with
    | .ok comments => modify fun p => { p with comments }
    | .error f => throw f
  return t

abbrev mark : Parse Mark := do return (← get).startMark

def markOf (t : Token) (lastLineStart : Int) : Mark :=
  let column := t.start - t.lineStart
  if column < 0 then ⟨t.start, t.line - 1, column + lastLineStart⟩ else ⟨t.start, t.line, column⟩

def spanAttrs (first last : Mark) : Parse (List (Attr × Tree)) := do
  let settings ← read
  let range := if settings.range then [(Attr.span, ofRange first.index last.index)] else []
  if !settings.loc then return range
  let loc ← ofPlaces ⟨first.line, first.column⟩ ⟨last.line, last.column⟩
  let loc := if settings.origin.isEmpty then loc else loc.put .source settings.origin
  return range ++ [(.location, loc)]

def finish (m : Mark) (kind : Kind) (attrs : List (Attr × Tree)) : Parse Tree := do
  let last := (← get).lastMark
  let t ← node kind (attrs ++ (← spanAttrs m last))
  handOver t ⟨⟨m.line, m.column⟩, ⟨last.line, last.column⟩, m.index, last.index⟩

/-! ## Tokens -/

def keepComment (c : Comment) : Parse Unit := do
  let settings ← read
  let value := settings.source.text.extract c.innerStart c.innerStop
  let range := ofRange c.start c.stop
  let loc ← if settings.loc then ofPlaces c.first c.last else pure .null
  modify fun p => { p with
    built := p.built.push (if c.block then .blockComment else .lineComment,
      ⟨c.first, c.last, c.start, c.stop⟩) }
  let kind : Kind := if c.block then .blockNote else .lineNote
  let collected ← node kind
    [(.value, value), (.span, if settings.range then range else .null), (.location, loc)]
  let attached ← node kind [(.value, value), (.span, range), (.location, loc)]
  let waiting : WaitingComment := ⟨attached, c.start, c.stop⟩
  modify fun p =>
    let a := { p.comments with collected := p.comments.collected.push collected }
    { p with comments :=
      if settings.attachComment then
        { a with leading := a.leading ++ [waiting], trailing := a.trailing ++ [waiting] }
      else a }

abbrev skipComments : Parse Unit := do
  let found ← scan Scan.comments
  found.toList.forM keepComment

abbrev scanMark : Parse Mark := do
  let c := (← get).cursor
  return ⟨c.index, c.line, c.index - c.lineStart⟩

abbrev setLast (m : Mark) : Parse Unit := modify fun p => { p with lastMark := m }

abbrev setStart (m : Mark) : Parse Unit := modify fun p => { p with startMark := m }

abbrev raw (t : Token) : Parse Text := do return (← read).source.text.extract t.start t.stop

def keepToken (t : Token) : Parse Unit := do
  let settings ← read
  if settings.tokens then
    let first := (← get).startMark
    let last ← scanMark
    let regex ← if t.kind == .regexp then
        node .record [(.pattern, t.pattern), (.flags, t.flags)]
      else pure .null
    let loc ← if settings.loc then
        ofPlaces ⟨first.line, first.column⟩ ⟨last.line, last.column⟩
      else pure .null
    let entry ← node .record [(.typeName, t.kind.name), (.value, ← raw t), (.regex, regex),
      (.span, if settings.range then ofRange t.start t.stop else .null), (.location, loc)]
    modify fun p => { p with tokens := p.tokens.push entry }

abbrev dropToken : Parse Unit := do
  if (← read).tokens then modify fun p => { p with tokens := p.tokens.pop }

/-- Moves to the next token, and keeps where the last one ended and this one starts. -/
def skipAhead : Parse Unit := do
  setLast (← scanMark)
  skipComments
  let m ← scanMark
  if m.index != (← mark).index then setStart m

def readAhead (t : Token) : Parse Unit := do
  let next ← scan Scan.lex
  let strictWord := (← context).strict && next.kind == .identifier
    && strictReservedWords.any next.value.isText
  let next := if strictWord then { next with kind := .keyword } else next
  modify fun p => { p with lookahead := next, newline := t.line != next.line }
  if next.kind != .finish then keepToken next

def advance : Parse Token := do
  let t ← ahead
  skipAhead
  readAhead t
  return t

def advanceRegexp : Parse Token := do
  skipComments
  let t ← scan Scan.regexp
  dropToken
  keepToken t
  modify fun p => { p with lookahead := t }
  let _ ← advance
  return t

def glance (x : Scan Token) : Parse Token := do
  let c := (← get).cursor
  let _ ← scan Scan.comments
  let t ← scan x
  modify fun p => { p with
    cursor := { p.cursor with index := c.index, line := c.line, lineStart := c.lineStart } }
  return t

abbrev peek : Parse Token := glance Scan.lex

abbrev sees (v : Text) : Parse Bool := do return (← ahead).isPunctuator v

abbrev atAny (vs : List Text) : Parse Bool := do return (← ahead).isOneOf .punctuator vs

abbrev atKeyword (v : Text) : Parse Bool := do return (← ahead).isKeyword v

abbrev atKeywords (vs : List Text) : Parse Bool := do return (← ahead).isOneOf .keyword vs

abbrev atWord (v : Text) : Parse Bool := do return (← ahead).isWord v

abbrev atFinish : Parse Bool := do return (← ahead).kind == .finish

abbrev expect (v : Text) : Parse Unit := do
  let t ← advance
  if !t.isPunctuator v then failAt t

abbrev expectKeyword (v : Text) : Parse Unit := do
  let t ← advance
  if !t.isKeyword v then failAt t

/-- Takes a comma; when problems are tolerated, a semicolon or nothing stands in for it. -/
abbrev expectComma : Parse Unit := do
  if (← read).source.tolerant then
    let t ← ahead
    if t.isPunctuator "," then
      let _ ← advance
    else if t.isPunctuator ";" then
      let _ ← advance
      tolerateAt t
    else tolerateOn (.token t) (.unexpectedToken t.value.shown)
  else expect ","

abbrev accept (v : Text) : Parse Bool := do
  if ← sees v then
    let _ ← advance
    return true
  else return false

/-- Takes the semicolon that ends a statement; it may be missing before a line break, before a
closing brace and at the end. -/
abbrev semicolon : Parse Unit := do
  if ← sees ";" then
    let _ ← advance
  else if !(← get).newline then
    if !(← atFinish) && !(← sees "\x7d") then failAt (← ahead)
    setLast (← mark)

def collectWhile {α : Type} (condition : Parse Bool) (step : Parse α) (acc : Array α) :
    Nat → Parse (Array α)
  | 0 => throw .unfinished
  | n + 1 => do
    if ← condition then collectWhile condition step (acc.push (← step)) n
    else return acc

end ScriptLens.Parse
