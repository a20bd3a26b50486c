import ScriptLens.Token.Scan
import ScriptLens.Text.Identifier

/-!
# Numeric literals

Decimal literals with fraction and exponent, hexadecimal, binary and octal literals, and legacy
octal literals: a zero followed by octal digits only.
-/

namespace ScriptLens.Scan

open Text

def notFollowedBy (p : Nat → Bool) : Scan Unit := do
  if p (← here) then fail .illegalToken

def hexLiteral (start : Nat) : Scan Token := do
  let digits ← takeRun isHexDigit
  if digits.isEmpty then fail .illegalToken
  notFollowedBy isIdentifierStart
  token .numeric (.int (← digitsValue 16 digits)) start

def binaryLiteral (start : Nat) : Scan Token := do
  let digits ← takeRun fun c => c == 48 || c == 49
  if digits.isEmpty then fail .illegalToken
  if !(← atEnd) then
    notFollowedBy fun c => isIdentifierStart c || isDecimalDigit c
  token .numeric (.int (← digitsValue 2 digits)) start

def octalLiteral (legacy : Bool) (start : Nat) : Scan Token := do
  let digits ← takeRun isOctalDigit
  if !legacy && digits.isEmpty then fail .illegalToken
  notFollowedBy fun c => isIdentifierStart c || isDecimalDigit c
  return { ← token .numeric (.int (← digitsValue 8 digits)) start with octal := legacy }

def isLegacyOctal : Scan Bool := do
  let t := (← read).text
  let i := (← get).index + 1
  let j := spanEnd isOctalDigit t i (t.length - i)
  let c := t.get j
  return !(j < t.length && (c == '8'.toNat || c == '9'.toNat))

def decimalValue (whole fraction : List Nat) (exponent : Int) : Scalar :=
  let x := Double.ofParts whole fraction exponent
  if x.isFinite && x.isInteger then .int x.trunc else .real x

def exponentPart : Scan Int := do
  let c ← here
  if c != 'e'.toNat && c != 'E'.toNat then return 0
  skip 1
  let sign ← here
  if sign == '+'.toNat || sign == '-'.toNat then skip 1
  let digits ← takeRun isDecimalDigit
  if digits.isEmpty then fail .illegalToken
  let n : Int := (← digitsValue 10 digits)
  return if sign == '-'.toNat then -n else n

def fractionPart : Scan (List Nat) := do
  if (← here) == '.'.toNat then
    skip 1
    takeRun isDecimalDigit
  else return []

def decimalLiteral (start : Nat) : Scan Token := do
  let whole ← takeRun isDecimalDigit
  let fraction ← fractionPart
  let exponent ← exponentPart
  notFollowedBy isIdentifierStart
  if whole.isEmpty && fraction.isEmpty then throw (.badValue "")
  token .numeric (decimalValue whole fraction exponent) start

def numeric : Scan Token := do
  let start := (← get).index
  if (← here) != '0'.toNat then decimalLiteral start
  else
    let c ← ahead 1
    if c == 'x'.toNat || c == 'X'.toNat then
      skip 2
      hexLiteral start
    else if c == 'b'.toNat || c == 'B'.toNat then
      skip 2
      binaryLiteral start
    else if c == 'o'.toNat || c == 'O'.toNat then
      skip 2
      octalLiteral false start
    else
      skip 1
      if isOctalDigit c && (← isLegacyOctal) then octalLiteral true start
      else
        modify fun k => { k with index := start }
        decimalLiteral start

end ScriptLens.Scan
