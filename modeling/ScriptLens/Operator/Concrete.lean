import ScriptLens.Number.Decimal

/-!
# Primitive values of scripts

A `Concrete` is what a running script computes with when no object is involved.
-/

open ScriptLens.Double

namespace ScriptLens.Numeral

/-- The blanks that may surround a numeral: white space, line ends and the byte order mark. -/
def isBlank (c : Nat) : Bool :=
  (9 ≤ c && c ≤ 13) || c == 0x20 || c == 0xA0 || c == 0x1680 || c == 0x180E
    || (0x2000 ≤ c && c ≤ 0x200A) || c == 0x2028 || c == 0x2029 || c == 0x202F || c == 0x205F
    || c == 0x3000 || c == 0xFEFF

def trim (l : List Nat) : List Nat :=
  ((l.dropWhile isBlank).reverse.dropWhile isBlank).reverse

structure Radix where
  base : Nat
  /-- How many digits count; further ones are read as zeros. -/
  precision : Nat
deriving DecidableEq

/-- Numerals without a mark are decimal. -/
def Radix.decimal : Radix := ⟨10, 20⟩

def Radix.ofMark? (c : Nat) : Option Radix :=
  if c == 'x'.toNat || c == 'X'.toNat then some ⟨16, 18⟩
  else if c == 'o'.toNat || c == 'O'.toNat then some ⟨8, 23⟩
  else if c == 'b'.toNat || c == 'B'.toNat then some ⟨2, 69⟩
  else none

def digit (c : Nat) : Nat :=
  if 48 ≤ c && c ≤ 57 then c - 48
  else if 97 ≤ c && c ≤ 122 then c - 87
  else if 65 ≤ c && c ≤ 90 then c - 55
  else 255

def Radix.isDigit (r : Radix) (c : Nat) : Bool := digit c < r.base

def Radix.number (r : Radix) (neg : Bool) (whole fraction : List Nat) (exponent : Int) : Double :=
  let significant := (whole ++ fraction).dropWhile (fun c => digit c == 0)
  let m := (significant.take r.precision).foldl (fun n c => r.base * n + digit c) 0
  let e : Int := exponent - fraction.length + ((significant.length - r.precision : Nat) : Int)
  if m == 0 then zero neg
  else if 1200 < e then infinity neg
  else if e < -1200 then zero neg
  else if 0 ≤ e then ofRatioBy roundDivUp neg (m * Nat.pow r.base e.toNat) 1
  else ofRatioBy roundDivUp neg m (Nat.pow r.base (-e).toNat)

/-- The digits before the point, those behind it if there is one, and the rest. -/
def Radix.parts (r : Radix) (l : List Nat) : List Nat × Option (List Nat) × List Nat :=
  let whole := l.takeWhile r.isDigit
  match l.dropWhile r.isDigit with
  | 46 :: rest => (whole, some (rest.takeWhile r.isDigit), rest.dropWhile r.isDigit)
  | rest => (whole, none, rest)

def exponent? : List Nat → Option Int
  | [] => some 0
  | c :: l =>
    if c == 'e'.toNat || c == 'E'.toNat then
      let (neg, ds) :=
        match l with
        | 45 :: r => (true, r)
        | 43 :: r => (false, r)
        | r => (false, r)
      if ds.isEmpty || !ds.all Radix.decimal.isDigit then none
      else
        let n : Int := (digitsValue ds : Nat)
        some (if neg then -n else n)
    else none

def decimalValue? (neg : Bool) (l : List Nat) : Option Double :=
  match Radix.decimal.parts l with
  | (whole, fraction, rest) =>
    match exponent? rest with
    | none => none
    | some e =>
      if whole.isEmpty && (fraction.getD []).isEmpty then none
      else some (Radix.decimal.number neg whole (fraction.getD []) e)

/-- The value of a numeral of another radix without its sign and mark: at least one digit, and
perhaps a point between digits. -/
def markedValue? (r : Radix) (neg : Bool) (l : List Nat) : Option Double :=
  match r.parts l with
  | (whole, none, []) => if whole.isEmpty then none else some (r.number neg whole [] 0)
  | (whole, some fraction, []) =>
    if whole.isEmpty || fraction.isEmpty then none else some (r.number neg whole fraction 0)
  | _ => none

def unsignedValue? (neg : Bool) (l : List Nat) : Option Double :=
  if l == (Text.ofString "Infinity").toList then some (infinity neg)
  else
    match l with
    | 48 :: c :: rest =>
      match Radix.ofMark? c with
      | some r => markedValue? r neg rest
      | none => decimalValue? neg l
    | _ => decimalValue? neg l

/-- The number a text stands for; not a number if it is no numeral. -/
def value (t : Text) : Double :=
  match trim t.toList with
  | [] => zero false
  | 43 :: l => (unsignedValue? false l).getD nan
  | 45 :: l => (unsignedValue? true l).getD nan
  | l => (unsignedValue? false l).getD nan

end ScriptLens.Numeral

namespace ScriptLens

inductive Concrete where
  | undefined
  | null
  | num (x : Double)
  | text (t : Text)
  | bool (b : Bool)
deriving DecidableEq

namespace Concrete

def boolNumber (b : Bool) : Double := if b then ofNat 1 else zero false

def toNumber : Concrete → Double
  | undefined => nan
  | null => zero false
  | num x => x
  | text t => Numeral.value t
  | bool b => boolNumber b

def toText : Concrete → Text
  | undefined => "undefined"
  | null => "null"
  | num x => x.toText
  | text t => t
  | bool b => if b then "true" else "false"

def toBool : Concrete → Bool
  | undefined => false
  | null => false
  | num x => !x.isNaN && !x.isZero
  | text t => !t.isEmpty
  | bool b => b

def toUInt32 (v : Concrete) : UInt32 := v.toNumber.toUInt32

end Concrete

end ScriptLens
