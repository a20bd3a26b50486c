import ScriptLens.Token.Name
import ScriptLens.Pattern.Parse

/-!
# Regular expression literals

The body of a regular expression is checked in a form in which escapes for characters are
replaced by the characters, and characters beyond the basic plane by a stand-in.
-/

namespace ScriptLens.Scan

/-- The body of a regular expression up to its closing slash; `inSet` tells whether the cursor is
between brackets, where a slash does not close. -/
def regexpBody (inSet : Bool) : Nat → Scan Unit
  | 0 => throw .unfinished
  | n + 1 => do
    if ← atEnd then fail .unterminatedRegexp
    let c ← take
    if c == 92 then
      if Text.isLineTerminator (← take) then fail .unterminatedRegexp
      regexpBody inSet n
    else if Text.isLineTerminator c then fail .unterminatedRegexp
    else if inSet then regexpBody (c != ']'.toNat) n
    else if c == '/'.toNat then return ()
    else regexpBody (c == '['.toNat) n

def regexpFlags (acc : Text) : Nat → Scan Text
  | 0 => throw .unfinished
  | n + 1 => do
    if ← atEnd then return acc
    let c ← here
    if !Text.isIdentifierPart c then return acc
    skip 1
    if c == 92 && !(← atEnd) then
      if (← here) == 'u'.toNat then
        skip 1
        let restore := (← get).index
        let flag ← hexEscape 4
        if flag.isNone then modify fun k => { k with index := restore }
        tolerate .illegalToken
        regexpFlags (acc.push (flag.getD 'u'.toNat)) n
      else
        tolerate .illegalToken
        regexpFlags acc n
    else regexpFlags (acc.push c) n

/-- The stand-in for characters beyond the basic plane. -/
def astralStandIn : Nat := 0xFFFF

def unicodeEscape? : List Nat → Option (Nat × List Nat)
  | 92 :: 117 :: r =>
    let braced := match r with
      | 123 :: r =>
        let digits := r.takeWhile Text.isHexDigit
        match r.drop digits.length with
        | 125 :: rest => if digits.isEmpty then none else some (digits, rest)
        | _ => none
      | _ => none
    let found := match braced with
      | some p => some p
      | none =>
        let digits := (r.take 4).takeWhile Text.isHexDigit
        if digits.length == 4 then some (digits, r.drop 4) else none
    found.map fun (digits, rest) =>
      (digits.foldl (fun n c => n * 16 + (Text.hexValue? c).getD 0) 0, rest)
  | _ => none

/-- A body with its escapes for characters replaced, and how many of them were too large. -/
def unescapeBody : Nat → List Nat → List Nat × Nat
  | 0, l => (l, 0)
  | _, [] => ([], 0)
  | n + 1, c :: r =>
    match unicodeEscape? (c :: r) with
    | some (code, rest) =>
      let (l, bad) := unescapeBody n rest
      if 0x10FFFF < code then (astralStandIn :: l, bad + 1)
      else ((if code ≤ 0xFFFF then code else astralStandIn) :: l, bad)
    | none =>
      let (l, bad) := unescapeBody n r
      (c :: l, bad)

def joinSurrogates : List Nat → List Nat
  | c :: d :: r =>
    if 0xD800 ≤ c && c ≤ 0xDBFF && 0xDC00 ≤ d && d ≤ 0xDFFF then astralStandIn :: joinSurrogates r
    else c :: joinSurrogates (d :: r)
  | l => l

def regexpFlag (flags : Text) : RegexpFlag :=
  if flags.contains 'm'.toNat then .multiline
  else if flags.contains 'i'.toNat then .ignoreCase
  else .plain

def tolerateTimes (p : Problem) : Nat → Scan Unit
  | 0 => return ()
  | n + 1 => do
    tolerate p
    tolerateTimes p n

/-- The regular expression with the given body and flags, if it is well-formed. -/
def checkRegexp (body flags : Text) : Scan (Option Regexp) := do
  let (l, bad) := unescapeBody body.length body.toList
  tolerateTimes .invalidRegexp bad
  let r : Regexp := ⟨Text.ofList (joinSurrogates l), regexpFlag flags⟩
  match Pattern.compile r with
  | .ok _ => return some r
  | .error _ =>
    tolerate .invalidRegexp
    return none

def regexp : Scan Token := do
  let start := (← get).index
  skip 1
  regexpBody false ((← size) + 1)
  let pattern := (← read).text.extract (start + 1) ((← get).index - 1)
  let flags ← regexpFlags "" (← size)
  let regexp ← checkRegexp pattern flags
  return { ← token .regexp (.text "") start with pattern, flags, regexp }

end ScriptLens.Scan
