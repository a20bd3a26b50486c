/-!
# Binary floating-point numbers

A `Double` is the pattern of bits of a number in the binary format of 64 bits.
-/

namespace ScriptLens

structure Double where
  bits : UInt64
deriving DecidableEq, Inhabited, Hashable

namespace Double

def isNegative (x : Double) : Bool := x.bits >>> 63 == 1

def exponentBits (x : Double) : Nat := ((x.bits >>> 52) &&& 0x7FF).toNat

def fractionBits (x : Double) : Nat := (x.bits &&& 0xFFFFFFFFFFFFF).toNat

def isNaN (x : Double) : Bool := x.exponentBits == 2047 && x.fractionBits != 0

def isInfinite (x : Double) : Bool := x.exponentBits == 2047 && x.fractionBits == 0

def isFinite (x : Double) : Bool := x.exponentBits != 2047

def isZero (x : Double) : Bool := x.exponentBits == 0 && x.fractionBits == 0

/-- The magnitude of a finite number as `m * 2 ^ q`. -/
def decode (x : Double) : Nat × Int :=
  if x.exponentBits == 0 then (x.fractionBits, -1074)
  else (x.fractionBits + Nat.pow 2 52, (x.exponentBits : Int) - 1075)

def assemble (neg : Bool) (magnitude : Nat) : Double :=
  ⟨UInt64.ofNat (magnitude + if neg then Nat.pow 2 63 else 0)⟩

def nan : Double := ⟨0x7FF8000000000000⟩

def infinity (neg : Bool) : Double := assemble neg (2047 * Nat.pow 2 52)

def zero (neg : Bool) : Double := assemble neg 0

/-- The quotient rounded to the nearest integer, a half going to the even neighbour. -/
def roundDiv (num den : Nat) : Nat :=
  let q := num / den
  let r := num % den
  if 2 * r < den then q
  else if den < 2 * r then q + 1
  else if q % 2 == 0 then q else q + 1

def floorLog (num den : Nat) : Int :=
  let e : Int := (num.log2 : Int) - (den.log2 : Int)
  let below :=
    if 0 ≤ e then num < den * Nat.pow 2 e.toNat else num * Nat.pow 2 (-e).toNat < den
  if below then e - 1 else e

def roundDivUp (num den : Nat) : Nat := (2 * num + den) / (2 * den)

/-- The number near `num / den`, with the given sign; `round` takes the last step to an
integral multiple of the last place. -/
def ofRatioBy (round : Nat → Nat → Nat) (neg : Bool) (num den : Nat) : Double :=
  if num == 0 then zero neg
  else
    let q : Int := max (floorLog num den - 52) (-1074)
    let m :=
      if 0 ≤ q then round num (den * Nat.pow 2 q.toNat) else round (num * Nat.pow 2 (-q).toNat) den
    if m < Nat.pow 2 52 then assemble neg m
    else
      let biased := (q + 1074).toNat * Nat.pow 2 52 + m
      if 2047 * Nat.pow 2 52 ≤ biased then infinity neg else assemble neg biased

/-- The number nearest to `num / den`, with the given sign; a tie goes to the even neighbour. -/
def ofRatio (neg : Bool) (num den : Nat) : Double := ofRatioBy roundDiv neg num den

def ofInt (n : Int) : Double := ofRatio (n < 0) n.natAbs 1

def ofNat (n : Nat) : Double := ofRatio false n 1

def ofDecimal (neg : Bool) (digits : Nat) (exponent : Int) : Double :=
  if digits == 0 then zero neg
  else if 400 < exponent then infinity neg
  else if 0 ≤ exponent then ofRatio neg (digits * Nat.pow 10 exponent.toNat) 1
  else if exponent < -400 - (digits.log2 : Int) then zero neg
  else ofRatio neg digits (Nat.pow 10 (-exponent).toNat)

/-- The magnitude of a finite number, cut to an integer. -/
def truncNat (x : Double) : Nat :=
  let (m, q) := x.decode
  if 0 ≤ q then m * Nat.pow 2 q.toNat else m / Nat.pow 2 (-q).toNat

def trunc (x : Double) : Int :=
  if x.isNegative then -(x.truncNat : Int) else x.truncNat

def isInteger (x : Double) : Bool :=
  x.isFinite &&
    (let (m, q) := x.decode
     0 ≤ q || m % Nat.pow 2 (-q).toNat == 0)

/-- Equality of numbers: a NaN differs from everything, and the two zeros are equal. -/
def eq (x y : Double) : Bool :=
  !x.isNaN && !y.isNaN && (x.bits == y.bits || (x.isZero && y.isZero))

/-- The order of numbers; nothing is below or above a NaN. -/
def lt (x y : Double) : Bool :=
  if x.isNaN || y.isNaN then false
  else if x.isZero && y.isZero then false
  else
    match x.isNegative, y.isNegative with
    | true, false => true
    | false, true => false
    | false, false => x.bits < y.bits
    | true, true => y.bits < x.bits

def le (x y : Double) : Bool := lt x y || eq x y

def neg (x : Double) : Double := if x.isNaN then nan else ⟨x.bits ^^^ 0x8000000000000000⟩

/-- The number nearest to `n * 2 ^ e`, with the given sign. -/
def ofScaled (neg : Bool) (n : Nat) (e : Int) : Double :=
  if 0 ≤ e then ofRatio neg (n * Nat.pow 2 e.toNat) 1 else ofRatio neg n (Nat.pow 2 (-e).toNat)

/-- The magnitudes of two finite numbers as multiples of the same power of two, and its
exponent. -/
def aligned (x y : Double) : Nat × Nat × Int :=
  let (m, q) := x.decode
  let (n, r) := y.decode
  let e := min q r
  (m * Nat.pow 2 (q - e).toNat, n * Nat.pow 2 (r - e).toNat, e)

def signed (neg : Bool) (n : Nat) : Int := if neg then -(n : Int) else n

def add (x y : Double) : Double :=
  if x.isNaN || y.isNaN then nan
  else if x.isInfinite then
    if y.isInfinite && x.isNegative != y.isNegative then nan else x
  else if y.isInfinite then y
  else
    let (a, b, e) := aligned x y
    let s := signed x.isNegative a + signed y.isNegative b
    if s == 0 then zero (x.isNegative && y.isNegative) else ofScaled (s < 0) s.natAbs e

def sub (x y : Double) : Double := x.add y.neg

def mul (x y : Double) : Double :=
  let neg := x.isNegative != y.isNegative
  if x.isNaN || y.isNaN then nan
  else if x.isInfinite || y.isInfinite then
    if x.isZero || y.isZero then nan else infinity neg
  else
    let (m, q) := x.decode
    let (n, r) := y.decode
    ofScaled neg (m * n) (q + r)

def div (x y : Double) : Double :=
  let neg := x.isNegative != y.isNegative
  if x.isNaN || y.isNaN then nan
  else if x.isInfinite then
    if y.isInfinite then nan else infinity neg
  else if y.isInfinite then zero neg
  else if y.isZero then
    if x.isZero then nan else infinity neg
  else
    let (a, b, _) := aligned x y
    ofRatio neg a b

/-- The remainder of the division cut toward zero; it has the sign of the dividend. -/
def rem (x y : Double) : Double :=
  if x.isNaN || y.isNaN || x.isInfinite || y.isZero then nan
  else if y.isInfinite || x.isZero then x
  else
    let (a, b, e) := aligned x y
    ofScaled x.isNegative (a % b) e

/-- A number taken modulo `2 ^ 32`: the bits of its 32-bit integer. -/
def toUInt32 (x : Double) : UInt32 :=
  if x.isFinite then UInt32.ofNat (x.trunc % 4294967296).toNat else 0

/-- The number of a signed 32-bit integer given by its bits. -/
def ofInt32 (n : UInt32) : Double :=
  ofInt (if n.toNat < Nat.pow 2 31 then n.toNat else (n.toNat : Int) - 4294967296)

/-- A finite number rounded to an integer, a half going to the even neighbour. -/
def roundEven (x : Double) : Int :=
  let (m, q) := x.decode
  let n := if 0 ≤ q then m * Nat.pow 2 q.toNat else roundDiv m (Nat.pow 2 (-q).toNat)
  if x.isNegative then -(n : Int) else n

end Double

end ScriptLens
