import ScriptLens.Token.Scan
import ScriptLens.Text.Identifier

/-!
# Names and keywords

A name may hold characters written as `\u` escapes.  A keyword may not.
-/

namespace ScriptLens.Scan

/-- The value of up to `n` hexadecimal digits at the cursor, all of which must be there. -/
def hexEscapeFrom (value : Nat) : Nat → Scan (Option Nat)
  | 0 => return some value
  | n + 1 => do
    if ← atEnd then return none
    match Text.hexValue? (← here) with
    | some d =>
      skip 1
      hexEscapeFrom (value * 16 + d) n
    | none => return none

abbrev hexEscape (n : Nat) : Scan (Option Nat) := hexEscapeFrom 0 n

def bracedEscape : Scan Nat := do
  if (← here) == '}'.toNat then fail .illegalToken
  let code ← digitsValue 16 (← takeRun Text.isHexDigit)
  let last ← here
  if !(← atEnd) then skip 1
  if 0x10FFFF < code || last != '}'.toNat then fail .illegalToken
  return code

/-- The character of a name that an escape stands for, after the backslash; `allowed` says which
characters a four-digit escape may stand for. -/
def nameEscape (allowed : Nat → Bool) : Scan Nat := do
  if (← here) != 'u'.toNat then fail .illegalToken
  skip 1
  if (← here) == '{'.toNat then
    skip 1
    bracedEscape
  else
    match ← hexEscape 4 with
    | some c => if c == 92 || !allowed c then fail .illegalToken else return c
    | none => fail .illegalToken

def nameRest (acc : Text) : Nat → Scan Text
  | 0 => throw .unfinished
  | n + 1 => do
    if ← atEnd then return acc
    let c ← here
    if !Text.isIdentifierPart c then return acc
    skip 1
    if c == 92 then nameRest (acc.push (← nameEscape Text.isIdentifierPart)) n
    else nameRest (acc.push c) n

def name : Scan Text := do
  let c ← take
  let first ← if c == 92 then nameEscape Text.isIdentifierStart else pure c
  nameRest (.singleton first) (← size)

def nameKind (t : Text) : TokenKind :=
  if t.length == 1 then .identifier
  else if keywords.contains t then .keyword
  else if t == "null" then .null
  else if t == "true" || t == "false" then .boolean
  else .identifier

def word : Scan Token := do
  let start := (← get).index
  let t ← name
  let kind := nameKind t
  let stop := (← get).index
  if kind != .identifier && start + t.length != stop then
    modify fun c => { c with index := start }
    tolerate .escapedKeyword
    modify fun c => { c with index := stop }
  token kind (.text t) start

end ScriptLens.Scan
