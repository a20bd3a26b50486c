/-!
# Classes of characters

White space, line terminators and digits, and classes that are given as ranges.
-/

namespace ScriptLens.Text

/-- White space: tab, vertical tab, form feed, blanks of all widths and the byte order mark. -/
def isWhiteSpace (c : Nat) : Bool :=
  c == 0x20 || c == 0x09 || c == 0x0B || c == 0x0C || c == 0xA0 || c == 0x1680 || c == 0x180E
    || (0x2000 ≤ c && c ≤ 0x200A) || c == 0x202F || c == 0x205F || c == 0x3000 || c == 0xFEFF

/-- Line feed, carriage return, line separator and paragraph separator. -/
def isLineTerminator (c : Nat) : Bool :=
  c == 0x0A || c == 0x0D || c == 0x2028 || c == 0x2029

def isDecimalDigit (c : Nat) : Bool := 48 ≤ c && c ≤ 57

def isOctalDigit (c : Nat) : Bool := 48 ≤ c && c ≤ 55

def hexValue? (c : Nat) : Option Nat :=
  if 48 ≤ c && c ≤ 57 then some (c - 48)
  else if 97 ≤ c && c ≤ 102 then some (c - 87)
  else if 65 ≤ c && c ≤ 70 then some (c - 55)
  else none

def isHexDigit (c : Nat) : Bool := (hexValue? c).isSome

def isDigitOf (base c : Nat) : Bool := (hexValue? c).any (· < base)

end ScriptLens.Text

namespace ScriptLens

/-- A set of code points, as the lengths of runs outside and inside of it in turn. -/
structure Ranges where
  runs : List Nat

namespace Ranges

/-- The numbers that letters write in base 26, the last digit of each being a capital; `n` is what the
digits before have come to. -/
def numbers (n : Nat) : List Char → List Nat
  | [] => []
  | c :: l =>
    if c.isUpper then (26 * n + (c.toNat - 65)) :: numbers 0 l
    else numbers (26 * n + (c.toNat - 97)) l

def ofLines (lines : List String) : Ranges := ⟨numbers 0 (lines.flatMap String.toList)⟩

/-- Whether the code point `c` steps after the start of the next run belongs to the set. -/
def containsFrom (inside : Bool) (c : Nat) : List Nat → Bool
  | [] => inside
  | n :: l => if c < n then inside else containsFrom (!inside) (c - n) l

def contains (r : Ranges) (c : Nat) : Bool := containsFrom false c r.runs

end Ranges

end ScriptLens
