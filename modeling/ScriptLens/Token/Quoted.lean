import ScriptLens.Token.Name

/-!
# String and template literals

Both hold escapes.  A backslash before a line terminator continues the line; in a template a line
terminator stands for a line feed.
-/

namespace ScriptLens.Scan

def simpleEscape? (c : Nat) : Option Nat :=
  if c == 'n'.toNat then some 10
  else if c == 'r'.toNat then some 13
  else if c == 't'.toNat then some 9
  else if c == 'b'.toNat then some 8
  else if c == 'f'.toNat then some 12
  else if c == 'v'.toNat then some 11
  else none

def octalEscape (first : Nat) : Scan (Nat × Bool) := do
  let second ← here
  if (← atEnd) || !Text.isOctalDigit second then return (← digitsValue 8 [first], first != 48)
  skip 1
  let third ← here
  if first ≤ '3'.toNat && !(← atEnd) && Text.isOctalDigit third then
    skip 1
    return (← digitsValue 8 [first, second, third], true)
  return (← digitsValue 8 [first, second], true)

/-- What an escape in a string stands for, after its backslash, and whether it is octal. -/
def stringEscape : Scan (Text × Bool) := do
  let c ← here
  if Text.isLineTerminator c then
    breakLine
    return ("", false)
  skip 1
  if c == 'u'.toNat then
    if (← here) == '{'.toNat then
      skip 1
      return (.singleton (← bracedEscape), false)
    match ← hexEscape 4 with
    | some v => return (.singleton v, false)
    | none => fail .illegalToken
  else if c == 'x'.toNat then
    match ← hexEscape 2 with
    | some v => return (.singleton v, false)
    | none => fail .hexEscape
  else if let some v := simpleEscape? c then return (.singleton v, false)
  else if c == '8'.toNat || c == '9'.toNat then
    tolerate .illegalToken
    return (.singleton c, false)
  else if Text.isOctalDigit c then
    let (v, octal) ← octalEscape c
    return (.singleton v, octal)
  else return (.singleton c, false)

/-- The characters of a string up to its closing quote, or nothing if it is not closed. -/
def stringRest (quote : Nat) (acc : Text) (octal : Bool) : Nat → Scan (Option (Text × Bool))
  | 0 => throw .unfinished
  | n + 1 => do
    if ← atEnd then return none
    let c ← take
    if c == quote then return some (acc, octal)
    else if c == 92 then
      let (t, o) ← stringEscape
      stringRest quote (acc ++ t) (o || octal) n
    else if Text.isLineTerminator c then return none
    else stringRest quote (acc.push c) octal n

/-- A string literal, whose first character is known to be a quote. -/
def string : Scan Token := do
  let start := (← get).index
  let quote ← take
  match ← stringRest quote "" false (← size) with
  | some (t, octal) => return { ← token .quoted (.text t) start with octal }
  | none =>
    modify fun c => { c with index := start }
    fail .illegalToken

def templateEscape : Scan Text := do
  let c ← here
  if Text.isLineTerminator c then
    breakLine
    return ""
  skip 1
  if let some v := simpleEscape? c then return .singleton v
  else if c == 'u'.toNat then
    if (← here) == '{'.toNat then
      skip 1
      return .singleton (← bracedEscape)
    let restore := (← get).index
    match ← hexEscape 4 with
    | some v => return .singleton v
    | none =>
      modify fun k => { k with index := restore }
      return .singleton c
  else if c == 'x'.toNat then
    match ← hexEscape 2 with
    | some v => return .singleton v
    | none => fail .hexEscape
  else if c == '0'.toNat then
    if Text.isDecimalDigit (← here) then fail .templateOctal
    return .singleton 0
  else if Text.isOctalDigit c then fail .templateOctal
  else return .singleton c

/-- The characters of a part of a template, and whether it is the last part; nothing if the
template is not closed. -/
def templateRest (cooked : Text) : Nat → Scan (Option (Text × Bool))
  | 0 => throw .unfinished
  | n + 1 => do
    if ← atEnd then return none
    let c ← here
    if Text.isLineTerminator c then
      breakLine
      templateRest (cooked.push 10) n
    else
      skip 1
      if c == '`'.toNat then return some (cooked, true)
      else if c == '$'.toNat && (← here) == '{'.toNat then
        modify fun k => { k with braces := .substitution :: k.braces }
        skip 1
        return some (cooked, false)
      else if c == 92 then templateRest (cooked ++ (← templateEscape)) n
      else templateRest (cooked.push c) n

/-- A part of a template: from the opening quote or from the brace that ends a substitution, up to
the closing quote or the next substitution. -/
def template : Scan Token := do
  let start := (← get).index
  let head := (← take) == '`'.toNat
  match ← templateRest "" ((← size) + 1) with
  | none => fail .illegalToken
  | some (cooked, tail) =>
    if !head then modify fun c => { c with braces := c.braces.tail }
    let stop := (← get).index
    let raw := (← read).text.extract (start + 1) (stop - if tail then 1 else 2)
    return { ← token .template (.text raw) start with cooked, head, tail }

end ScriptLens.Scan
