import ScriptLens.Domain.Value
import ScriptLens.Text.Encoding
import ScriptLens.Text.Case

/-!
# Built-in functions on texts and numbers

The functions of this module take known primitive values and give what the built-in functions of
scripts are taken to give.
-/

namespace ScriptLens

def Double.toInt (x : Double) : Except Failure Int :=
  if x.isNaN then throw (.badValue "")
  else if x.isInfinite then throw .tooLarge
  else return x.trunc

namespace Text

/-- A position in a text of length `n`, counted from the end if it is negative. -/
def place (n : Nat) (i : Int) : Nat := if i < 0 then (n + i).toNat else min i.toNat n

/-- The part between two positions, which count from the end if they are negative; it goes to the
end of the text if there is no second position. -/
def slice (t : Text) (i : Int) (j : Option Int) : Text :=
  let n := t.length
  t.extract (place n i) (match j with
    | some j => place n j
    | none => n)

def pieces (t : Text) : List Text := t.toList.map singleton

def firstItems {α : Type} (l : List α) (n : Int) : List α := l.take (place l.length n)

end Text

namespace Builtin

def digitLetter (n : Nat) : Nat := if n < 10 then 48 + n else 87 + n

def digitsFrom (base : Nat) : Nat → Nat → Except Failure (List Nat)
  | 0, _ => throw .unfinished
  | fuel + 1, n =>
    if n % base ≥ 36 then throw .missingItem
    else if n < base then return [digitLetter n]
    else return digitLetter (n % base) :: (← digitsFrom base fuel (n / base))

def intText (n base : Int) : Except Failure Text := do
  if base == 0 then throw .dividedByZero
  if base ≤ 1 then throw .unfinished
  let digits ← digitsFrom base.toNat (n.natAbs + 1) n.natAbs
  return Text.ofList ((if n < 0 then [45] else []) ++ digits.reverse)

def digitValue? (c : Nat) : Option Nat :=
  if 48 ≤ c && c ≤ 57 then some (c - 48)
  else if 97 ≤ c && c ≤ 122 then some (c - 87)
  else none

/-- The longest number of decimal digits that is read as an integer. -/
def maxDigits : Nat := 4300

def readDigits (l : List Nat) (base : Int) : Except Failure Nat := do
  if base != 0 && (base < 2 || 36 < base) then throw (.badValue "")
  if base == 0 && l.head? == some 48 && l.any (· != 48) then throw (.badValue "")
  let b := if base == 0 then 10 else base.toNat
  if maxDigits < l.length && !([2, 4, 8, 16, 32].contains b) then throw (.badValue "")
  l.foldlM (fun n c => match digitValue? c with
    | some d => if d < b then return n * b + d else throw (.badValue "")
    | none => throw (.badValue "")) 0

def exactNumber (n : Nat) : Except Failure Double :=
  let x := Double.ofNat n
  if x.isInfinite then throw .tooLarge else return x

def parseInt (tag : Nat) (t : Text) (base : Double) : Except Failure Value := do
  if Double.lt (.ofNat 36) base then return .prim (.nan tag)
  let lettersTo ← (do
    if Double.lt (.ofNat 10) base then
      let b ← base.toInt
      if b < 11 then throw .badPattern
      return 97 + b.toNat - 11
    else return 0 : Except Failure Nat)
  let isDigit (c : Nat) : Bool := (48 ≤ c && c ≤ 57) || (97 ≤ c && c ≤ lettersTo)
  let digits := t.lower.toList.takeWhile isDigit
  if digits.isEmpty then return .prim (.nan tag)
  let n ← readDigits digits (← base.toInt)
  return .prim (.num (← exactNumber n))

def pointAt (t : Text) (x : Double) : Except Failure (Option Nat) := do
  if x.lt (.ofNat 0) || Double.le (.ofNat t.length) x then return none
  return some (t.get (← x.toInt).toNat)

def substr (t : Text) (start : Double) (length : Option Double) : Except Failure Value := do
  if start.lt (.ofNat 0) then return .undefined
  match length with
  | none => return .prim (.text (t.slice (← start.toInt) none))
  | some l =>
    if Double.lt (.ofNat t.length) (start.add l) then return .undefined
    let i ← start.toInt
    return .prim (.text (t.slice i (some (i + (← l.toInt)))))

def substring (t : Text) (start : Double) (stop : Option Double) : Except Failure Value := do
  if start.lt (.ofNat 0) then return .undefined
  match stop with
  | none => return .prim (.text (t.slice (← start.toInt) none))
  | some j =>
    if Double.lt (.ofNat t.length) j then return .undefined
    let i ← start.toInt
    return .prim (.text (t.slice i (some (← j.toInt))))

/-- The part of a text between two positions, which count from the end if they are negative. -/
def slice (t : Text) (start : Double) (stop : Option Double) : Except Failure Value := do
  match stop with
  | none => return .prim (.text (t.slice (← start.toInt) none))
  | some j =>
    let i ← start.toInt
    return .prim (.text (t.slice i (some (← j.toInt))))

def isBlank (c : Nat) : Bool := c == 32 || (9 ≤ c && c ≤ 13)

/-- The decimal digits of a list that may hold single underscores between them. -/
def groupedDigits? : List Nat → Option (List Nat)
  | [] => none
  | [c] => if 48 ≤ c && c ≤ 57 then some [c] else none
  | c :: 95 :: l =>
    if 48 ≤ c && c ≤ 57 then (groupedDigits? l).map (c :: ·) else none
  | c :: l => if 48 ≤ c && c ≤ 57 then (groupedDigits? l).map (c :: ·) else none

def readInt (t : Text) : Except Failure Int := do
  let l := (t.toList.dropWhile isBlank).reverse.dropWhile isBlank |>.reverse
  let (neg, l) := match l with
    | 45 :: l => (true, l)
    | 43 :: l => (false, l)
    | l => (false, l)
  match groupedDigits? l with
  | none => throw (.badValue "")
  | some l =>
    let n ← readDigits l 10
    return if neg then -(n : Int) else n

def primInt : Prim → Except Failure Int
  | .num x => x.toInt
  | .nan _ => throw (.badValue "")
  | .bool b => return if b then 1 else 0
  | .text t => readInt t
  | .bytes t => readInt t
  | _ => throw .wrongKind

/-- The first position of a text in another one from a position on, or `-1`. -/
def findText (t s : Text) (start : Int) : Double :=
  let n := t.length
  if (n : Int) < start then .ofInt (-1)
  else match t.find? s (Text.place n start) with
    | some i => .ofNat i
    | none => .ofInt (-1)

end Builtin

end ScriptLens
