import ScriptLens.Token.Scan

/-!
# Comments

Between tokens stand white space, line terminators and comments: to the end of the line after
`//`, up to `*/` after `/*`, and, in scripts, to the end of the line after `<!--` and after a
`-->` that begins a line.
-/

namespace ScriptLens

structure Place where
  line : Nat
  column : Int
deriving DecidableEq

structure Comment where
  /-- Whether the comment ends with `*/` and not with its line. -/
  block : Bool
  start : Nat
  stop : Nat
  innerStart : Nat
  innerStop : Nat
  first : Place
  last : Place
deriving DecidableEq

namespace Scan

abbrev place (back : Nat) : Scan Place := do
  let c ← get
  return ⟨c.line, c.index - c.lineStart - back⟩

def lineComment (width : Nat) : Scan Comment := do
  let inner := (← get).index
  let first ← place width
  let _ ← takeRun fun c => !Text.isLineTerminator c
  let last ← place 0
  let stop := (← get).index
  if !(← atEnd) then breakLine
  return ⟨false, inner - width, stop, inner, stop, first, last⟩

/-- Moves behind the `*/` that closes a comment, and tells whether there is one. -/
def skipBlock : Nat → Scan Bool
  | 0 => throw .unfinished
  | n + 1 => do
    if ← atEnd then return false
    let c ← here
    if Text.isLineTerminator c then
      breakLine
      skipBlock n
    else if c == '*'.toNat && (← ahead 1) == '/'.toNat then
      skip 2
      return true
    else
      skip 1
      skipBlock n

def blockComment : Scan Comment := do
  let inner := (← get).index
  let first ← place 2
  let closed ← skipBlock ((← size) + 1)
  let last ← place 0
  let stop := (← get).index
  if !closed then tolerate .illegalToken
  return ⟨true, inner - 2, stop, inner, if closed then stop - 2 else stop, first, last⟩

/-- Whether `-->` at the cursor would be a comment, and the comment or blank that stands there. -/
def trivia (lineBegins : Bool) : Scan (Option (Option Comment × Bool)) := do
  let c ← here
  if Text.isWhiteSpace c then
    skip 1
    return some (none, lineBegins)
  else if Text.isLineTerminator c then
    breakLine
    return some (none, true)
  else if ← looksAt 0 "//" then
    skip 2
    return some (some (← lineComment 2), true)
  else if ← looksAt 0 "/*" then
    skip 2
    return some (some (← blockComment), lineBegins)
  else if lineBegins && (← looksAt 0 "-->") then
    skip 3
    return some (some (← lineComment 3), lineBegins)
  else if !(← get).inModule && (← looksAt 0 "<!--") then
    skip 4
    return some (some (← lineComment 4), lineBegins)
  else return none

def triviaFrom (lineBegins : Bool) (acc : Array Comment) : Nat → Scan (Array Comment)
  | 0 => throw .unfinished
  | n + 1 => do
    if ← atEnd then return acc
    match ← trivia lineBegins with
    | none => return acc
    | some (comment, lineBegins) =>
      let acc := match comment with
        | some c => acc.push c
        | none => acc
      triviaFrom lineBegins acc n

/-- Moves to the next token and gives the comments before it, if they are kept. -/
def comments : Scan (Array Comment) := do
  let found ← triviaFrom ((← get).index == 0) #[] ((← size) + 1)
  return if (← read).keepComments then found else #[]

end Scan

end ScriptLens
