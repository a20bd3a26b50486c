import ScriptLens.Failure

/-!
# Command lines

What the words of a command line ask for.  A word that begins with two dashes is a switch; it may be
cut short as long as no other switch begins the same way, and what follows an equals sign is its
value.
-/

namespace ScriptLens.CommandLine

structure Switch where
  name : Text
  takesValue : Bool := false
  /-- Whether the switch only prints something and ends the program. -/
  ends : Bool := false
deriving DecidableEq

/-- Something a command line asks for. -/
inductive Request where
  | switch (name : Text)
  | valued (name value : Text)
  | plain (word : Text)
deriving DecidableEq

def help : Switch := { name := "--help", ends := true }

def splitValue (word : Text) : Text × Option Text :=
  match word.find? "=" 0 with
  | some i => (word.extract 0 i, some (word.drop (i + 1)))
  | none => (word, none)

def meant (all : List Switch) (name : Text) : List Switch :=
  match all.find? fun s => s.name == name with
  | some s => [s]
  | none => all.filter fun s => name.occursAt s.name 0

/-! ### The strict reader -/

def readStrictly (all : List Switch) : List Text → Except Failure (List Request)
  | [] => return []
  | word :: rest =>
    if word == "--" then return rest.map .plain
    else if Text.occursAt "--" word 0 then
      let (name, value) := splitValue word
      match meant all name with
      | [s] =>
        if value.isSome then throw (.exit 2)
        else if s.ends then throw (.exit 0)
        else return .switch s.name :: (← readStrictly all rest)
      | _ => throw (.exit 2)
    else if Text.occursAt "-" word 0 && 1 < word.length then
      throw (.exit (if Text.occursAt "-h" word 0 then 0 else 2))
    else return .plain word :: (← readStrictly all rest)

/-! ### The patient reader -/

inductive Sighting where
  | plain (word : Text)
  | switch (s : Switch) (value : Option Text)
  | unknown
  | divider
deriving DecidableEq

def isNegativeNumber (word : Text) : Bool :=
  let digit (c : Nat) : Bool := 48 ≤ c && c ≤ 57
  match word.toList with
  | 45 :: l =>
    match l.dropWhile digit with
    | [] => !l.isEmpty
    | [46] => false
    | 46 :: r => r.all digit
    | _ => false
  | _ => false

def sortWord (all : List Switch) (word : Text) : Except Failure Sighting :=
  if !Text.occursAt "-" word 0 || word.length == 1 then return .plain word
  else if Text.occursAt "--" word 0 then
    let (name, value) := splitValue word
    match meant all name with
    | [s] => return .switch s value
    | [] => return if word.contains 32 then .plain word else .unknown
    | _ => throw (.exit 2)
  else if Text.occursAt "-h" word 0 then
    return .switch help (if word.toList.tail.all (· == 104) then none else some {})
  else if isNegativeNumber word || word.contains 32 then return .plain word
  else return .unknown

def sortWords (all : List Switch) : List Text → Except Failure (List Sighting)
  | [] => return []
  | word :: rest => do
    if word == "--" then return .divider :: rest.map .plain
    let s ← sortWord all word
    return s :: (← sortWords all rest)

def follow (isBad : Bool) : List Sighting → Except Failure (List Request)
  | [] => if isBad then throw (.exit 2) else return []
  | .plain word :: rest => return .plain word :: (← follow isBad rest)
  | .unknown :: rest => follow true rest
  | .divider :: rest => follow isBad rest
  | .switch s value :: rest =>
    if s.takesValue then
      match value, rest with
      | some v, rest => return .valued s.name v :: (← follow isBad rest)
      | none, .plain v :: rest => return .valued s.name v :: (← follow isBad rest)
      | none, .divider :: .plain v :: rest => return .valued s.name v :: (← follow isBad rest)
      | none, _ => throw (.exit 2)
    else if value.isSome then throw (.exit 2)
    else if s.ends then throw (.exit 0)
    else return .switch s.name :: (← follow isBad rest)

def readPatiently (all : List Switch) (words : List Text) : Except Failure (List Request) := do
  follow false (← sortWords all words)

def plainWords (l : List Request) : List Text :=
  l.filterMap fun
    | .plain w => some w
    | _ => none

def asksFor (l : List Request) (name : Text) : Bool := l.contains (.switch name)

def valueOf? (l : List Request) (name : Text) : Option Text :=
  (l.filterMap fun
    | .valued n v => if n == name then some v else none
    | _ => none).getLast?

end ScriptLens.CommandLine
