import Mathlib.Tactic.Common
import ScriptLens.Number.Decimal

/-!
# The sign of zero and the bits of a NaN

Apart from a division nothing that scripts compute with numbers tells the two zeros apart, and
nothing tells one NaN from another.
-/

namespace ScriptLens.Double

open Double

def Alike (x y : Double) : Prop :=
  x = y ∨ (x.isZero = true ∧ y.isZero = true) ∨ (x.isNaN = true ∧ y.isNaN = true)

namespace Alike

variable {x y z : Double}

theorem refl (x : Double) : x.Alike x
  := .inl rfl

theorem symm (alike : x.Alike y) : y.Alike x := by
  rcases alike with rfl | ⟨zeroX, zeroY⟩ | ⟨nanX, nanY⟩
  · apply refl
  · right
    left
    use zeroY, zeroX
  · right
    right
    use nanY, nanX

end Alike

/-! ### The bits of a number -/

theorem exponentBits_eq (x : Double) : x.exponentBits = x.bits.toNat / 4503599627370496 % 2048 := by
  rw [exponentBits, UInt64.toNat_and, UInt64.toNat_shiftRight]
  have mask : UInt64.toNat 0x7FF = 2 ^ 11 - 1 := rfl
  rw [mask, Nat.and_two_pow_sub_one_eq_mod, Nat.shiftRight_eq_div_pow]
  rfl

theorem fractionBits_eq (x : Double) : x.fractionBits = x.bits.toNat % 4503599627370496 := by
  rw [fractionBits, UInt64.toNat_and]
  have mask : UInt64.toNat 0xFFFFFFFFFFFFF = 2 ^ 52 - 1 := rfl
  rw [mask, Nat.and_two_pow_sub_one_eq_mod]

theorem isNegative_eq (x : Double) : x.isNegative = decide (9223372036854775808 ≤ x.bits.toNat)
  := by
  have lt := x.bits.toNat_lt
  rw [isNegative, Bool.eq_iff_iff, beq_iff_eq, decide_eq_true_iff, ← UInt64.toNat_inj,
    UInt64.toNat_shiftRight, Nat.shiftRight_eq_div_pow]
  show x.bits.toNat / 9223372036854775808 = 1 ↔ _
  omega

variable {x y x' y' : Double}

theorem ext_bits (same : x.bits.toNat = y.bits.toNat) : x = y
  := congrArg mk (UInt64.toNat_inj.1 same)

theorem eq_zero_of_isZero (isZero : x.isZero = true) : ∃ neg, x = zero neg := by
  have lt := x.bits.toNat_lt
  simp only [Double.isZero, Bool.and_eq_true, beq_iff_eq, exponentBits_eq, fractionBits_eq]
    at isZero
  have cases : x.bits.toNat = 0 ∨ x.bits.toNat = 9223372036854775808 := by omega
  rcases cases with none | sign
  · use false, ext_bits none
  · use true, ext_bits sign

section

variable (neg : Bool)

theorem isZero_zero : (zero neg).isZero = true
  := by cases neg <;> decide

theorem bits_ne_zero (other : x.isZero = false) (neg : Bool) : x.bits.toNat ≠ (zero neg).bits.toNat
  := by
  intro same
  rw [ext_bits same, isZero_zero] at other
  cases other

theorem alike_zero (neg' : Bool) : (zero neg).Alike (zero neg')
  := .inr (.inl ⟨isZero_zero neg, isZero_zero neg'⟩)

@[simp] theorem isNaN_zero : (zero neg).isNaN = false
  := by cases neg <;> decide

@[simp] theorem isInfinite_zero : (zero neg).isInfinite = false
  := by cases neg <;> decide

@[simp] theorem isFinite_zero : (zero neg).isFinite = true
  := by cases neg <;> decide

@[simp] theorem decode_zero : (zero neg).decode = (0, -1074)
  := by cases neg <;> decide

@[simp] theorem neg_zero : (zero neg).neg = zero !neg
  := by cases neg <;> decide

end

theorem isZero_of_isNaN (nan : x.isNaN = true) : x.isZero = false := by
  rw [Bool.eq_false_iff]
  intro isZero
  obtain ⟨neg, rfl⟩ := eq_zero_of_isZero isZero
  cases (isNaN_zero neg).symm.trans nan

theorem Alike.congr {α : Type} {f : Double → α} {r : α → α → Prop}
    (same : ∀ a, r a a) (zeros : ∀ neg neg', r (f (zero neg)) (f (zero neg')))
    (nans : ∀ a b, a.isNaN = true → b.isNaN = true → r (f a) (f b)) (alike : x.Alike y) :
  r (f x) (f y)
  := by
  rcases alike with rfl | ⟨zeroX, zeroY⟩ | ⟨nanX, nanY⟩
  · apply same
  · obtain ⟨neg, rfl⟩ := eq_zero_of_isZero zeroX
    obtain ⟨neg', rfl⟩ := eq_zero_of_isZero zeroY
    apply zeros
  · apply nans x y nanX nanY

theorem Alike.isNaN_eq (alike : x.Alike y) : x.isNaN = y.isNaN := by
  apply alike.congr (f := isNaN) (r := Eq) (fun _ => rfl)
  · intro neg neg'
    rw [isNaN_zero, isNaN_zero]
  · intro a b nanA nanB
    rw [nanA, nanB]

theorem Alike.isZero_eq (alike : x.Alike y) : x.isZero = y.isZero := by
  apply alike.congr (f := isZero) (r := Eq) (fun _ => rfl)
  · intro neg neg'
    rw [isZero_zero, isZero_zero]
  · intro a b nanA nanB
    rw [isZero_of_isNaN nanA, isZero_of_isNaN nanB]

theorem Alike.trans {z : Double} (first : x.Alike y) (second : y.Alike z) : x.Alike z := by
  rcases first with rfl | ⟨zeroX, zeroY⟩ | ⟨nanX, nanY⟩
  · apply second
  · right
    left
    rw [← second.isZero_eq]
    use zeroX, zeroY
  · right
    right
    rw [← second.isNaN_eq]
    use nanX, nanY

/-! ### Operations -/

theorem ofScaled_none (neg : Bool) (e : Int) : ofScaled neg 0 e = zero neg := by
  rw [ofScaled]
  split
  · rw [Nat.zero_mul]
    rfl
  · rfl

theorem aligned_zero_left (neg neg' : Bool) (y : Double) :
  aligned (zero neg) y = aligned (zero neg') y
  := by
  rw [aligned, aligned, decode_zero, decode_zero]

theorem signed_none (neg : Bool) : signed neg 0 = 0
  := by cases neg <;> rfl

theorem aligned_zero_left_none (neg : Bool) (y : Double) : (aligned (zero neg) y).1 = 0 := by
  rw [aligned, decode_zero]
  apply Nat.zero_mul

theorem aligned_swap (x y : Double) :
  aligned x y = ((aligned y x).2.1, (aligned y x).1, (aligned y x).2.2)
  := by simp only [aligned, Int.min_comm]

theorem add_of_finite (nanX : x.isNaN = false) (nanY : y.isNaN = false)
    (finiteX : x.isInfinite = false) (finiteY : y.isInfinite = false) :
  x.add y =
    let s := signed x.isNegative (aligned x y).1 + signed y.isNegative (aligned x y).2.1
    if s == 0 then zero (x.isNegative && y.isNegative)
    else ofScaled (s < 0) s.natAbs (aligned x y).2.2
  := by
  simp only [add, nanX, nanY, finiteX, finiteY, Bool.false_or, Bool.false_eq_true, if_false]

theorem add_zero_left (neg neg' : Bool) (y : Double) : ((zero neg).add y).Alike ((zero neg').add y)
  := by
  cases nan : y.isNaN with
  | true =>
    left
    simp only [add, nan, Bool.or_true, if_true]
  | false =>
    cases infinite : y.isInfinite with
    | true =>
      left
      simp [add, nan, infinite]
    | false =>
      rw [add_of_finite (isNaN_zero neg) nan (isInfinite_zero neg) infinite,
        add_of_finite (isNaN_zero neg') nan (isInfinite_zero neg') infinite,
        aligned_zero_left_none, aligned_zero_left_none, signed_none, signed_none,
        aligned_zero_left neg neg' y]
      dsimp only
      split
      · apply alike_zero
      · apply Alike.refl

theorem add_zero_swap (neg : Bool) (x : Double) : x.add (zero neg) = (zero neg).add x := by
  simp only [add, isNaN_zero, isInfinite_zero, Bool.or_false, Bool.false_or, Bool.false_and,
    Bool.false_eq_true, if_false]
  rw [aligned_swap, Int.add_comm, Bool.and_comm]

theorem Alike.add (left : x.Alike x') (right : y.Alike y') : (x.add y).Alike (x'.add y') := by
  apply Alike.trans (y := x'.add y)
  · apply left.congr (f := fun x => x.add y) Alike.refl (fun neg neg' => add_zero_left neg neg' y)
    intro a b nanA nanB
    left
    simp only [Double.add, nanA, nanB, Bool.true_or, if_true]
  · apply right.congr (f := fun y => x'.add y) Alike.refl
    · intro neg neg'
      rw [add_zero_swap, add_zero_swap]
      apply add_zero_left
    · intro a b nanA nanB
      left
      simp only [Double.add, nanA, nanB, Bool.or_true, if_true]

theorem Alike.neg (alike : x.Alike y) : x.neg.Alike y.neg := by
  apply alike.congr (f := Double.neg) Alike.refl
  · intro neg neg'
    rw [neg_zero, neg_zero]
    apply alike_zero
  · intro a b nanA nanB
    left
    simp only [Double.neg, nanA, nanB, if_true]

theorem Alike.sub (left : x.Alike x') (right : y.Alike y') : (x.sub y).Alike (x'.sub y')
  := left.add right.neg

theorem mul_zero_left (neg neg' : Bool) (y : Double) : ((zero neg).mul y).Alike ((zero neg').mul y)
  := by
  have same : ∀ neg, y.isNaN = false → y.isInfinite = false →
      (zero neg).mul y = zero ((zero neg).isNegative != y.isNegative) := by
    intro neg nan infinite
    simp [mul, nan, infinite, ofScaled_none]
  cases nan : y.isNaN with
  | true =>
    left
    simp only [mul, nan, Bool.or_true, if_true]
  | false =>
    cases infinite : y.isInfinite with
    | true =>
      left
      simp [mul, nan, infinite, isZero_zero]
    | false =>
      rw [same neg nan infinite, same neg' nan infinite]
      apply alike_zero

theorem mul_swap (x y : Double) : x.mul y = y.mul x := by
  simp only [mul, Bool.or_comm x.isNaN, Bool.or_comm x.isInfinite, Bool.or_comm x.isZero,
    bne_comm (a := x.isNegative), Nat.mul_comm x.decode.1, Int.add_comm x.decode.2]

theorem Alike.mul (left : x.Alike x') (right : y.Alike y') : (x.mul y).Alike (x'.mul y') := by
  have first {x x' : Double} (y : Double) (alike : x.Alike x') : (x.mul y).Alike (x'.mul y) := by
    apply alike.congr (f := fun x => x.mul y) Alike.refl (fun neg neg' => mul_zero_left neg neg' y)
    intro a b nanA nanB
    left
    simp only [Double.mul, nanA, nanB, Bool.true_or, if_true]
  apply (first y left).trans
  rw [mul_swap x' y, mul_swap x' y']
  apply first x' right

theorem Alike.rem (left : x.Alike x') (right : y.Alike y') : (x.rem y).Alike (x'.rem y') := by
  apply Alike.trans (y := x'.rem y)
  · apply left.congr (f := fun x => x.rem y) Alike.refl
    · intro neg neg'
      simp only [Double.rem, isNaN_zero, isInfinite_zero, isZero_zero, Bool.false_or,
        Bool.or_false, Bool.or_true, if_true]
      split
      · apply Alike.refl
      · apply alike_zero
    · intro a b nanA nanB
      left
      simp only [Double.rem, nanA, nanB, Bool.true_or, if_true]
  · apply right.congr (f := fun y => x'.rem y) Alike.refl
    · intro neg neg'
      left
      simp only [Double.rem, isZero_zero, Bool.or_true, if_true]
    · intro a b nanA nanB
      left
      simp only [Double.rem, nanA, nanB, Bool.true_or, Bool.or_true, if_true]

theorem trunc_zero (neg : Bool) : (zero neg).trunc = 0 := by
  have none : (zero neg).truncNat = 0 := by
    rw [truncNat, decode_zero]
    apply Nat.zero_div
  rw [trunc, none]
  split <;> rfl

theorem isFinite_of_isNaN (nan : x.isNaN = true) : x.isFinite = false := by
  simp only [isNaN, Bool.and_eq_true, beq_iff_eq] at nan
  rw [isFinite, nan.1]
  rfl

theorem Alike.toUInt32_eq (alike : x.Alike y) : x.toUInt32 = y.toUInt32 := by
  apply alike.congr (f := toUInt32) (r := Eq) (fun _ => rfl)
  · intro neg neg'
    simp only [toUInt32, isFinite_zero, trunc_zero]
  · intro a b nanA nanB
    rw [toUInt32, toUInt32, isFinite_of_isNaN nanA, isFinite_of_isNaN nanB]
    rfl

theorem Alike.toText_eq (alike : x.Alike y) : x.toText = y.toText := by
  apply alike.congr (f := toText) (r := Eq) (fun _ => rfl)
  · intro neg neg'
    simp [toText, isZero_zero]
  · intro a b nanA nanB
    simp only [toText, nanA, nanB, if_true]

/-! ### Comparisons -/

theorem eq_iff_alike : x.eq y = true ↔ x.isNaN = false ∧ y.isNaN = false ∧ x.Alike y := by
  simp only [eq, Bool.and_eq_true, Bool.not_eq_true', Bool.or_eq_true, beq_iff_eq, and_assoc]
  have bits : x.bits = y.bits ↔ x = y := ⟨congrArg mk, congrArg bits⟩
  rw [bits]
  constructor
  · rintro ⟨nanX, nanY, same | zeros⟩
    · use nanX, nanY
      left
      apply same
    · use nanX, nanY
      right
      left
      apply zeros
  · rintro ⟨nanX, nanY, same | zeros | ⟨nan, -⟩⟩
    · use nanX, nanY
      left
      apply same
    · use nanX, nanY
      right
      apply zeros
    · cases nanX.symm.trans nan

theorem Alike.eq_eq (left : x.Alike x') (right : y.Alike y') : x.eq y = x'.eq y' := by
  rw [Bool.eq_iff_iff, eq_iff_alike, eq_iff_alike, left.isNaN_eq, right.isNaN_eq]
  have same : x.Alike y ↔ x'.Alike y' := by
    constructor
    · intro alike
      apply left.symm.trans (alike.trans right)
    · intro alike
      apply left.trans (alike.trans right.symm)
  rw [same]

theorem isNegative_zero (neg : Bool) : (zero neg).isNegative = neg
  := by cases neg <;> decide

theorem zero_lt_eq (neg : Bool) (y : Double) :
  (zero neg).lt y = (!y.isNaN && !y.isZero && !y.isNegative)
  := by
  simp only [lt, isNaN_zero, isZero_zero, Bool.false_or, Bool.true_and, isNegative_zero]
  cases nan : y.isNaN with
  | true => rfl
  | false =>
    cases isZero : y.isZero with
    | true => rfl
    | false =>
      have sign := y.isNegative_eq
      cases negative : y.isNegative with
      | true =>
        rw [negative, eq_comm, decide_eq_true_iff] at sign
        cases neg with
        | false => rfl
        | true =>
          show decide (y.bits < 9223372036854775808) = false
          rw [decide_eq_false_iff_not, UInt64.lt_iff_toNat_lt]
          apply Nat.not_lt.2 sign
      | false =>
        cases neg with
        | true => rfl
        | false =>
          show decide (0 < y.bits) = true
          rw [decide_eq_true_iff, UInt64.lt_iff_toNat_lt]
          apply Nat.pos_of_ne_zero (bits_ne_zero isZero false)

theorem lt_zero_eq (neg : Bool) (x : Double) :
  x.lt (zero neg) = (!x.isNaN && !x.isZero && x.isNegative)
  := by
  have lt := x.bits.toNat_lt
  simp only [Double.lt, isNaN_zero, isZero_zero, Bool.or_false, Bool.and_true, isNegative_zero]
  cases nan : x.isNaN with
  | true => rfl
  | false =>
    cases isZero : x.isZero with
    | true => rfl
    | false =>
      have sign := x.isNegative_eq
      cases negative : x.isNegative with
      | false =>
        cases neg with
        | true => rfl
        | false =>
          show decide (x.bits < 0) = false
          rw [decide_eq_false_iff_not, UInt64.lt_iff_toNat_lt]
          apply Nat.not_lt_zero
      | true =>
        rw [negative, eq_comm, decide_eq_true_iff] at sign
        cases neg with
        | false => rfl
        | true =>
          show decide (9223372036854775808 < x.bits) = true
          rw [decide_eq_true_iff, UInt64.lt_iff_toNat_lt]
          apply Nat.lt_of_le_of_ne sign (bits_ne_zero isZero true).symm

theorem Alike.lt_eq (left : x.Alike x') (right : y.Alike y') : x.lt y = x'.lt y' := by
  apply Eq.trans (b := x'.lt y)
  · apply left.congr (f := fun x => x.lt y) (r := Eq) (fun _ => rfl)
    · intro neg neg'
      rw [zero_lt_eq, zero_lt_eq]
    · intro a b nanA nanB
      simp only [lt, nanA, nanB, Bool.true_or, if_true]
  · apply right.congr (f := fun y => x'.lt y) (r := Eq) (fun _ => rfl)
    · intro neg neg'
      rw [lt_zero_eq, lt_zero_eq]
    · intro a b nanA nanB
      simp only [lt, nanA, nanB, Bool.or_true, if_true]

theorem Alike.le_eq (left : x.Alike x') (right : y.Alike y') : x.le y = x'.le y' := by
  rw [le, le, left.lt_eq right, left.eq_eq right]

end ScriptLens.Double
