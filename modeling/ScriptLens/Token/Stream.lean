import ScriptLens.Token.Comment
import ScriptLens.Token.Number
import ScriptLens.Token.Quoted
import ScriptLens.Token.Slashed

/-!
# Token streams

`tokenize` cuts a source text into tokens without parsing it.  Whether a slash begins a regular
expression is guessed from the tokens before it.
-/

namespace ScriptLens.Scan

/-- The punctuators, longer ones before those they begin with. -/
def punctuators : List Text := List.map Text.ofString
  [">>>=", "...", "===", "!==", ">>>", "<<=", ">>=", "**=", "&&", "||", "==", "!=", "+=", "-=", "*=",
    "/=", "++", "--", "<<", ">>", "&=", "|=", "^=", "%=", "<=", ">=", "=>", "**", "(", "\x7b", ".",
    "\x7d", ")", ";", ",", "[", "]", ":", "?", "~", "<", ">", "=", "!", "+", "-", "*", "%", "&", "|",
    "^", "/"]

def punctuator : Scan Token := do
  let start := (← get).index
  let t := (← read).text
  match punctuators.find? fun p => p.occursAt t start with
  | none => fail .illegalToken
  | some p =>
    if p == "\x7b" then modify fun c => { c with braces := .plain :: c.braces }
    if p == "\x7d" then modify fun c => { c with braces := c.braces.tail }
    skip p.length
    token .punctuator (.text p) start

def lex : Scan Token := do
  if ← atEnd then token .finish (.text "") (← get).index
  else
    let c ← here
    if Text.isIdentifierStart c then word
    else if c == 39 || c == 34 then string
    else if Text.isDecimalDigit c then numeric
    else if c == '.'.toNat && Text.isDecimalDigit (← ahead 1) then numeric
    else if c == '`'.toNat || (c == 125 && (← get).braces.head? == some .substitution) then template
    else punctuator

end ScriptLens.Scan

namespace ScriptLens

structure StreamEntry where
  typeName : Text
  value : Text
  regexp : Option (Text × Text) := none
  start : Nat
  stop : Nat
  first : Place
  last : Place

/-- What the guess about slashes is based on: the punctuators and keywords seen so far (other
tokens count as nothing), and where the last brace and the last parenthesis were opened. -/
structure SlashGuess where
  values : Array (Option Text) := #[]
  curly : Int := -1
  paren : Int := -1

namespace SlashGuess

def beforeFunctionExpression : List Text := List.map Text.ofString
  ["(", "\x7b", "[", "in", "typeof", "instanceof", "new", "return", "case", "delete", "throw",
    "void", "=", "+=", "-=", "*=", "**=", "/=", "%=", "<<=", ">>=", ">>>=", "&=", "|=", "^=", ",",
    "+", "-", "*", "**", "/", "%", "++", "--", "<<", ">>", ">>>", "&", "|", "^", "!", "~", "&&",
    "||", "?", ":", "===", "==", ">=", "<=", "<", ">", "!=", "!=="]

/-- Keywords whose parenthesis is followed by a statement. -/
def beforeStatement : List Text := ["if", "while", "for", "with"]

/-- The value at a position; negative positions count from the end. -/
def value (g : SlashGuess) (i : Int) : Except Failure (Option Text) :=
  let j := if i < 0 then i + g.values.size else i
  if 0 ≤ j && j < g.values.size then .ok (g.values.getD j.toNat none) else .error .missingItem

def afterFunction (before : Option Text) (bare : Bool) : Bool :=
  match before with
  | some t => !beforeFunctionExpression.contains t
  | none => bare

def beginsRegexp (g : SlashGuess) : Except Failure Bool := do
  if g.values.isEmpty then return true
  match g.values.back?.join with
  | none => return false
  | some previous =>
    if previous == "this" || previous == "]" then return false
    else if previous == ")" then
      match ← g.value (g.paren - 1) with
      | some t => return beforeStatement.contains t
      | none => return false
    else if previous == "\x7d" then
      let function : Option Text := some "function"
      let anonymous ← if 3 ≤ g.values.size then g.value (g.curly - 3) else pure none
      if anonymous == function then return afterFunction (← g.value (g.curly - 4)) false
      let named ← if 4 ≤ g.values.size then g.value (g.curly - 4) else pure none
      if named == function then return afterFunction (← g.value (g.curly - 5)) true
      return true
    else return true

def push (g : SlashGuess) (t : Token) : SlashGuess :=
  match t.kind, t.value with
  | .punctuator, .text v | .keyword, .text v =>
    { values := g.values.push (some v)
      curly := if v == "\x7b" then g.values.size else g.curly
      paren := if v == "(" then g.values.size else g.paren }
  | _, _ => { g with values := g.values.push none }

end SlashGuess

namespace Scan

/-- The token at the cursor, read as a regular expression if it can be one.  After a failed
attempt the cursor returns, but not the record of open braces. -/
def slashed (maybeRegexp : Bool) : Scan Token := do
  if !maybeRegexp then lex
  else
    let c ← get
    try regexp
    catch _ =>
      modify fun k => { k with index := c.index, line := c.line, lineStart := c.lineStart }
      lex

def commentEntry (c : Comment) : Scan StreamEntry := do
  return {
    typeName := if c.block then "BlockComment" else "LineComment"
    value := (← read).text.extract c.innerStart c.innerStop
    start := c.start, stop := c.stop, first := c.first, last := c.last }

def entries (g : SlashGuess) : Scan (Array StreamEntry × Option StreamEntry × SlashGuess) := do
  let found ← comments
  let before ← found.mapM commentEntry
  if ← atEnd then return (before, none, g)
  let first ← place 0
  let maybeRegexp ← if (← here) == '/'.toNat then
      match g.beginsRegexp with
      | .ok b => pure b
      | .error f => throw f
    else pure false
  let t ← slashed maybeRegexp
  let last ← place 0
  let entry : StreamEntry := {
    typeName := t.kind.name
    value := (← read).text.extract t.start t.stop
    regexp := if t.kind == .regexp then some (t.pattern, t.flags) else none
    start := t.start, stop := t.stop, first, last }
  return (before, some entry, g.push t)

end Scan

/-- The tokens of a source and the problems recorded on the way. -/
structure TokenStream where
  entries : Array StreamEntry
  errors : Array Diagnostic

def streamFrom (s : Source) (g : SlashGuess) (c : Cursor) (acc : Array StreamEntry) :
    Nat → Except Failure TokenStream
  | 0 => .error .unfinished
  | n + 1 =>
    match (Scan.entries g).run s |>.run c with
    | .ok (before, none, _) c => .ok ⟨acc ++ before, c.errors⟩
    | .ok (before, some e, g) c => streamFrom s g c (acc ++ before |>.push e) n
    | .error f c =>
      match f, s.tolerant with
      | .source d, true => .ok ⟨acc, c.errors.push d⟩
      | f, _ => .error f

/-- Cuts a source into tokens.  When problems are tolerated, one that ends the scan is recorded
like the others and the tokens before it are kept. -/
def tokenize (s : Source) : Except Failure TokenStream :=
  streamFrom s {} (.start s.text) #[] (s.text.length + 2)

end ScriptLens
