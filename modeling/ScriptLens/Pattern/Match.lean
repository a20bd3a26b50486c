import ScriptLens.Pattern.Parse
import ScriptLens.Text.Case

/-!
# Matching regular expressions

`Pattern.step` matches an expression at a place and hands every way of doing so, in order of
preference, to a continuation; the first way that the continuation accepts is taken.
-/

open ScriptLens.Text

namespace ScriptLens.Pattern

/-- The groups matched so far, the latest match of a group first. -/
abbrev Groups := List (Nat × Nat × Nat)

def Groups.find (gs : Groups) (g : Nat) : Option (Nat × Nat) := (gs.lookup g)

/-- What two code points have in common when case is ignored. -/
def foldCase (mode : Mode) (c : Nat) : List Nat :=
  if mode.ascii then [if 65 ≤ c && c ≤ 90 then c + 32 else c]
  else upperPoint (lowerPoint c)

def sameChar (mode : Mode) (c d : Nat) : Bool :=
  c == d || (mode.ignoreCase && foldCase mode c == foldCase mode d)

def anyFrom (p : Nat → Bool) (low : Nat) : Nat → Bool
  | 0 => false
  | n + 1 => p low || anyFrom p (low + 1) n

def isWordChar (mode : Mode) (c : Nat) : Bool :=
  isWordCharacter c && (!mode.ascii || c < 128)

def Member.holds (mode : Mode) (c : Nat) : Member → Bool
  | .one d => sameChar mode d c
  | .range low high =>
    (low ≤ c && c ≤ high)
      || (mode.ignoreCase && anyFrom (fun d => sameChar mode d c) low (high + 1 - low))
  | .digit positive => (decimalDigits.contains c && (!mode.ascii || c < 128)) == positive
  | .space positive =>
    (blanks.contains c && (!mode.ascii || (c < 128 && !(28 ≤ c && c ≤ 31)))) == positive
  | .word positive => isWordChar mode c == positive

def atBoundary (mode : Mode) (t : Text) (i : Nat) : Bool :=
  (0 < i && isWordChar mode (t.get (i - 1))) != (i < t.length && isWordChar mode (t.get i))

def repeats (mode : Mode) (t : Text) (start stop i : Nat) : Bool :=
  i + (stop - start) ≤ t.length &&
    (List.range (stop - start)).all fun k =>
      let c := t.get (start + k)
      let d := t.get (i + k)
      c == d || (mode.ignoreCase && lowerPoint c == lowerPoint d)

abbrev Next := Groups → Nat → Option (Groups × Nat)

def stepAll (run : Expr → Groups → Nat → Next → Option (Groups × Nat)) :
    List Expr → Groups → Nat → Next → Option (Groups × Nat)
  | [], gs, i, k => k gs i
  | e :: es, gs, i, k => run e gs i fun gs i => stepAll run es gs i k

def step (t : Text) : Nat → Expr → Groups → Nat → Next → Option (Groups × Nat)
  | 0, _, _, _, _ => none
  | n + 1, e, gs, i, k =>
    match e with
    | .char mode c => if i < t.length && sameChar mode c (t.get i) then k gs (i + 1) else none
    | .any mode =>
      if i < t.length && (mode.dotAll || t.get i != 10) then k gs (i + 1) else none
    | .set mode positive members =>
      if i < t.length && (members.any (Member.holds mode (t.get i)) == positive) then k gs (i + 1)
      else none
    | .lineStart mode =>
      if i == 0 || (mode.multiline && t.get (i - 1) == 10) then k gs i else none
    | .lineEnd mode =>
      if i == t.length || (t.get i == 10 && (mode.multiline || i + 1 == t.length)) then k gs i
      else none
    | .textStart => if i == 0 then k gs i else none
    | .textEnd => if i == t.length then k gs i else none
    | .boundary mode positive =>
      if !t.isEmpty && atBoundary mode t i == positive then k gs i else none
    | .seq items => stepAll (step t n) items gs i k
    | .alt branches => branches.findSome? fun b => step t n b gs i k
    | .repeated lo hi .possessive item last =>
      match step t n (.repeated lo hi .greedy item last) gs i (fun gs i => some (gs, i)) with
      | some (gs, i) => k gs i
      | none => none
    | .repeated (lo + 1) hi greed item last =>
      step t n item gs i fun gs i => step t n (.repeated lo (hi.map (· - 1)) greed item last) gs i k
    | .repeated 0 hi .greedy item last =>
      let more :=
        if hi == some 0 || last == some i then none
        else step t n item gs i fun gs j =>
          step t n (.repeated 0 (hi.map (· - 1)) .greedy item (some i)) gs j k
      match more with
      | some r => some r
      | none => k gs i
    | .repeated 0 hi .lazy item last =>
      match k gs i with
      | some r => some r
      | none =>
        if hi == some 0 || last == some i then none
        else step t n item gs i fun gs j =>
          step t n (.repeated 0 (hi.map (· - 1)) .lazy item (some i)) gs j k
    | .group g item => step t n item gs i fun gs j => k ((g, i, j) :: gs) j
    | .plain item => step t n item gs i k
    | .atomic item =>
      match step t n item gs i (fun gs i => some (gs, i)) with
      | some (gs, i) => k gs i
      | none => none
    | .look back positive item =>
      let away := back.getD 0
      let found := if i < away then none else step t n item gs (i - away) fun gs i => some (gs, i)
      match found, positive with
      | some (gs, _), true => k gs i
      | none, false => k gs i
      | _, _ => none
    | .same mode g =>
      match gs.find g with
      | some (a, b) => if repeats mode t a b i then k gs (i + (b - a)) else none
      | none => none
    | .ifGroup g yes no =>
      match gs.find g with
      | some _ => step t n yes gs i k
      | none => step t n no gs i k

structure Found where
  start : Nat
  stop : Nat
  groups : Groups

def Compiled.depth (r : Regexp) (t : Text) : Nat := (r.pattern.length + 8) * (t.length + 8)

def matchAt (e : Expr) (depth : Nat) (t : Text) (i : Nat) (mustAdvance : Bool) : Option Found :=
  (step t depth e [] i fun gs j => if mustAdvance && j == i then none else some (gs, j)).map
    fun (gs, j) => ⟨i, j, gs⟩

def search (e : Expr) (depth : Nat) (t : Text) (mustAdvance : Bool) (i : Nat) : Nat → Option Found
  | 0 => none
  | n + 1 =>
    match matchAt e depth t i mustAdvance with
    | some f => some f
    | none => search e depth t false (i + 1) n

/-- All matches from `i` on, left to right, at most `limit` of them.  An empty match is not
followed by another one at the same place. -/
def searchAll (e : Expr) (depth : Nat) (t : Text) (mustAdvance : Bool) (i : Nat) : Nat → List Found
  | 0 => []
  | limit + 1 =>
    match search e depth t mustAdvance i (t.length + 1 - i) with
    | some f => f :: searchAll e depth t (f.stop == f.start) f.stop limit
    | none => []

end ScriptLens.Pattern

namespace ScriptLens.Regexp

def matchesStart (r : Regexp) (t : Text) : Except Pattern.Fault Bool := do
  let c ← Pattern.compile r
  return (Pattern.matchAt c.expr (Pattern.Compiled.depth r t) t 0 false).isSome

def matchesIn (r : Regexp) (t : Text) (all : Bool) : Except Pattern.Fault (List Pattern.Found) := do
  let c ← Pattern.compile r
  let limit := if all then 2 * t.length + 2 else 1
  return Pattern.searchAll c.expr (Pattern.Compiled.depth r t) t false 0 limit

end ScriptLens.Regexp

namespace ScriptLens.Pattern

inductive Part where
  | literal (c : Nat)
  | group (g : Nat)

inductive TemplateFault where
  | malformed
  | unknownName
deriving DecidableEq

def groupPart (c : Compiled) (g : Nat) : Except TemplateFault Part :=
  if c.groups ≤ g then .error .malformed else .ok (.group g)

/-- The group that a name or number between angle brackets stands for. -/
def namedPart (c : Compiled) (name : Text) : Except TemplateFault Part :=
  if isName name then
    match c.names.find? (·.1 == name) with
    | some (_, g) => .ok (.group g)
    | none => .error .unknownName
  else if !name.isEmpty && name.toList.all isDecimalDigit then
    groupPart c (digitsIn 10 name.toList)
  else .error .malformed

def template (c : Compiled) : Nat → List Nat → Except TemplateFault (List Part)
  | 0, _ => .ok []
  | _ + 1, [] => .ok []
  | _ + 1, [92] => .error .malformed
  | n + 1, 92 :: d :: r => do
    if d == 'g'.toNat then
      match r with
      | 60 :: r =>
        let name := r.takeWhile (· != 62)
        match r.drop name.length with
        | [] => .error .malformed
        | _ :: rest =>
          let p ← namedPart c (ofList name)
          return p :: (← template c n rest)
      | _ => .error .malformed
    else if d == 48 then
      let more := (r.take 2).takeWhile isOctalDigit
      return .literal (digitsIn 8 more % 256) :: (← template c n (r.drop more.length))
    else if isDecimalDigit d then
      match r with
      | e :: f :: rest =>
        if isOctalDigit d && isOctalDigit e && isOctalDigit f then
          let v := digitsIn 8 [d, e, f]
          if 255 < v then .error .malformed
          else return .literal v :: (← template c n rest)
        else if isDecimalDigit e then
          return (← groupPart c (digitsIn 10 [d, e])) :: (← template c n (f :: rest))
        else return (← groupPart c (digitsIn 10 [d])) :: (← template c n r)
      | [e] =>
        if isDecimalDigit e then return [← groupPart c (digitsIn 10 [d, e])]
        else return (← groupPart c (digitsIn 10 [d])) :: (← template c n r)
      | [] => return [← groupPart c (digitsIn 10 [d])]
    else if d == 'b'.toNat then return .literal 8 :: (← template c n r)
    else
      match simpleEscape? d with
      | some v => return .literal v :: (← template c n r)
      | none =>
        if isAsciiLetter d then .error .malformed
        else return .literal 92 :: .literal d :: (← template c n r)
  | n + 1, d :: r => return .literal d :: (← template c n r)

def Part.expand (t : Text) (f : Found) : Part → Text
  | .literal c => singleton c
  | .group 0 => t.extract f.start f.stop
  | .group g =>
    match f.groups.find g with
    | some (a, b) => t.extract a b
    | none => empty

def splice (t : Text) : Nat → List (Found × Text) → Text
  | i, [] => t.drop i
  | i, (f, s) :: r => t.extract i f.start ++ s ++ splice t f.stop r

end ScriptLens.Pattern
