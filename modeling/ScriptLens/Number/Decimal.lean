import ScriptLens.Number.Double
import ScriptLens.Text.Basic
import ScriptLens.Text.Class

/-!
# Decimal forms of numbers

`Decimal.shortest` finds the fewest decimal digits that still name a given double, and of two
candidates of that length the nearer one.
-/

namespace ScriptLens

structure Decimal where
  digits : Nat
  exponent : Int
deriving DecidableEq

namespace Decimal

def compareScaled (c : Nat) (e : Int) (x den : Nat) : Ordering :=
  if 0 ≤ e then compare (c * Nat.pow 10 e.toNat * den) x
  else compare (c * den) (x * Nat.pow 10 (-e).toNat)

def floorAt (e : Int) (x den : Nat) : Nat :=
  if 0 ≤ e then x / (den * Nat.pow 10 e.toNat) else x * Nat.pow 10 (-e).toNat / den

/-- The double of the place of `x / den` between its two neighbours on the grid of `10 ^ e`:
how `2 * (x / den)` compares with the sum of the two neighbours. -/
def compareMiddle (d : Nat) (e : Int) (x den : Nat) : Ordering :=
  compareScaled (2 * d + 1) e (2 * x) den |>.swap

/-- The number of digits before the point of `x / den`: the `p` with
`10 ^ (p - 1) ≤ x / den < 10 ^ p`, found by going up or down from an estimate. -/
def pointFrom (x den : Nat) : Nat → Int → Int
  | 0, p => p
  | n + 1, p =>
    if compareScaled 1 p x den != .gt then pointFrom x den n (p + 1)
    else if compareScaled 1 (p - 1) x den == .gt then pointFrom x den n (p - 1)
    else p

def strip : Nat → Decimal → Decimal
  | 0, d => d
  | n + 1, d =>
    if d.digits != 0 && d.digits % 10 == 0 then strip n ⟨d.digits / 10, d.exponent + 1⟩ else d

/-- The first decimal of `k`, `k + 1`, … digits inside the interval from `lo / den` to `hi / den`,
whose ends count when `closed`, nearest to `x / den`; of two that are equally near, the greater
one when `up` and else the even one. -/
def search (x lo hi den : Nat) (closed up : Bool) (p : Int) : Nat → Nat → Decimal
  | 0, k => ⟨floorAt (p - k) x den, p - k⟩
  | n + 1, k =>
    let e := p - k
    let d := floorAt e x den
    let inside (c : Nat) : Bool :=
      (match compareScaled c e lo den with
       | .gt => true
       | .eq => closed
       | .lt => false) &&
      (match compareScaled c e hi den with
       | .lt => true
       | .eq => closed
       | .gt => false)
    match inside d, inside (d + 1) with
    | true, true =>
      match compareMiddle d e x den with
      | .lt => ⟨d, e⟩
      | .gt => ⟨d + 1, e⟩
      | .eq => ⟨if !up && d % 2 == 0 then d else d + 1, e⟩
    | true, false => ⟨d, e⟩
    | false, true => ⟨d + 1, e⟩
    | false, false => search x lo hi den closed up p n (k + 1)

/-- The shortest decimal that names the number of magnitude `m * 2 ^ q`, for `0 < m`; a tie
between two such decimals goes up or to the even one. -/
def shortest (up : Bool) (m : Nat) (q : Int) : Decimal :=
  let lower := if m == Nat.pow 2 52 && q != -1074 then 4 * m - 1 else 4 * m - 2
  let (scale, den) :=
    if 2 ≤ q then (Nat.pow 2 (q - 2).toNat, 1) else (1, Nat.pow 2 (2 - q).toNat)
  let x := 4 * m * scale
  let estimate : Int := (((m.log2 : Int) + q) * 30103) / 100000
  let p := pointFrom x den 8 estimate
  strip 20 (search x (lower * scale) ((4 * m + 2) * scale) den (m % 2 == 0) up p 18 1)

def digitList (n : Nat) : List Nat := (Nat.toDigits 10 n).map Char.toNat

def natText (n : Nat) : Text := Text.ofList (digitList n)

def intText (n : Int) : Text :=
  if n < 0 then Text.ofList (45 :: digitList n.natAbs) else natText n.natAbs

structure Style where
  /-- The least and greatest place of the point that is written positionally. -/
  leastPoint : Int
  greatestPoint : Int
  markInteger : Bool
  exponentWidth : Nat
  /-- Whether a tie between two shortest decimals goes to the greater one. -/
  tieUp : Bool

def write (s : Style) (d : Decimal) : Text :=
  let ds := digitList d.digits
  let k : Int := ds.length
  let n : Int := d.exponent + k
  let zeros (c : Int) : List Nat := List.replicate c.toNat 48
  if s.leastPoint ≤ n && n ≤ s.greatestPoint then
    if k ≤ n then Text.ofList (ds ++ zeros (n - k) ++ (if s.markInteger then [46, 48] else []))
    else if 0 < n then Text.ofList (ds.take n.toNat ++ [46] ++ ds.drop n.toNat)
    else Text.ofList ([48, 46] ++ zeros (-n) ++ ds)
  else
    let e := n - 1
    let es := digitList e.natAbs
    let padded := List.replicate (s.exponentWidth - es.length) 48 ++ es
    let mantissa := if ds.length ≤ 1 then ds else ds.take 1 ++ [46] ++ ds.drop 1
    Text.ofList (mantissa ++ [101, if e < 0 then 45 else 43] ++ padded)

end Decimal

namespace Double

def shortest (x : Double) (s : Decimal.Style) : Decimal :=
  let (m, q) := x.decode
  Decimal.shortest s.tieUp m q

/-- Numbers as a program's own conversion to a string writes them: positionally from six places
behind the point up to 21 digits, and without a sign on zero; a tie goes up. -/
def scriptStyle : Decimal.Style := ⟨-5, 21, false, 1, true⟩

/-- Numbers as reports write them: positionally from three zeros behind the point up to 16
digits, integers marked by `.0`, exponents with two digits at least; a tie goes to even. -/
def reportStyle : Decimal.Style := ⟨-3, 16, true, 2, false⟩

/-- The text a program gets when it converts the number to a string. -/
def toText (x : Double) : Text :=
  if x.isNaN then "NaN"
  else if x.isInfinite then (if x.isNegative then "-Infinity" else "Infinity")
  else if x.isZero then "0"
  else
    let t := (x.shortest scriptStyle).write scriptStyle
    if x.isNegative then Text.ofString "-" ++ t else t

def toReport (x : Double) : Text :=
  if x.isNaN then "nan"
  else
    let t : Text :=
      if x.isInfinite then "inf"
      else if x.isZero then "0.0"
      else (x.shortest reportStyle).write reportStyle
    if x.isNegative then Text.ofString "-" ++ t else t

def digitsValue (l : List Nat) : Nat := l.foldl (fun n c => 10 * n + (c - 48)) 0

/-- The number written by a decimal literal: the digits before and after the point, and the
exponent behind the mark. -/
def ofParts (whole fraction : List Nat) (exponent : Int) : Double :=
  ofDecimal false (digitsValue (whole ++ fraction)) (exponent - fraction.length)

end Double

end ScriptLens
