import ScriptLens.Operator.Apply
import ScriptLens.Proofs.Number.Zero

/-!
# Operators on like values

Two primitive values are alike if they are equal up to the sign of zero and the bits of a NaN.
-/

namespace ScriptLens

namespace Concrete

def Alike : Concrete → Concrete → Prop
  | num x, num y => x.Alike y
  | a, b => a = b

namespace Alike

variable {a a' b b' : Concrete}

theorem refl (a : Concrete) : a.Alike a := by
  cases a with
  | num x => apply Double.Alike.refl
  | _ => rfl

theorem cases (alike : a.Alike b) :
  a = b ∨ ∃ x y, a = num x ∧ b = num y ∧ x.Alike y
  := by
  cases a with
  | num x =>
    cases b with
    | num y =>
      right
      use x, y, rfl, rfl, alike
    | _ => cases alike
  | _ =>
    left
    cases b <;> cases alike
    rfl

/-- What holds for equal values and for like numbers holds for like values. -/
theorem elim {r : Concrete → Concrete → Prop} (same : ∀ a, r a a)
    (numbers : ∀ {x y : Double}, x.Alike y → r (num x) (num y)) (alike : a.Alike b) : r a b
  := by
  rcases alike.cases with rfl | ⟨x, y, rfl, rfl, alike⟩
  · apply same
  · apply numbers alike

theorem symm : a.Alike b → b.Alike a
  := elim (r := fun a b => b.Alike a) refl (·.symm)

theorem trans {c : Concrete} (first : a.Alike b) (second : b.Alike c) : a.Alike c := by
  rcases first.cases with rfl | ⟨x, y, rfl, rfl, numbers⟩
  · apply second
  · rcases second.cases with rfl | ⟨y', z, same, rfl, numbers'⟩
    · apply numbers
    · obtain rfl := Concrete.num.inj same
      apply Double.Alike.trans numbers numbers'

/-! ### Conversions -/

theorem toNumber : a.Alike b → a.toNumber.Alike b.toNumber
  := elim (r := fun a b => a.toNumber.Alike b.toNumber) (fun _ => .refl _) id

theorem toText_eq : a.Alike b → a.toText = b.toText
  := elim (r := fun a b => a.toText = b.toText) (fun _ => rfl) (·.toText_eq)

theorem toBool_eq : a.Alike b → a.toBool = b.toBool := by
  apply elim (r := fun a b => a.toBool = b.toBool) (fun _ => rfl)
  intro x y alike
  rw [toBool, toBool, alike.isNaN_eq, alike.isZero_eq]

theorem toUInt32_eq (alike : a.Alike b) : a.toUInt32 = b.toUInt32
  := alike.toNumber.toUInt32_eq

/-! ### Comparisons -/

section

variable (left : a.Alike a') (right : b.Alike b')

include left right

theorem identical_eq :
  a.identical b = a'.identical b'
  := by
  rcases left.cases with rfl | ⟨x, x', rfl, rfl, numbers⟩
  · rcases right.cases with rfl | ⟨y, y', rfl, rfl, numbers'⟩
    · rfl
    · cases a with
      | num x => apply (Double.Alike.refl x).eq_eq numbers'
      | _ => rfl
  · rcases right.cases with rfl | ⟨y, y', rfl, rfl, numbers'⟩
    · cases b with
      | num y => apply numbers.eq_eq (Double.Alike.refl y)
      | _ => rfl
    · apply numbers.eq_eq numbers'

omit left right in
theorem unbool : a.Alike b → a.unbool.Alike b.unbool
  := elim (r := fun a b => a.unbool.Alike b.unbool) (fun _ => refl _) id

theorem looselyEqual_eq :
  a.looselyEqual b = a'.looselyEqual b'
  := by
  have same := left.identical_eq right
  rcases left.cases with rfl | ⟨x, x', rfl, rfl, numbers⟩
  · rcases right.cases with rfl | ⟨y, y', rfl, rfl, numbers'⟩
    · rfl
    · cases a with
      | text s => apply (Double.Alike.refl _).eq_eq numbers'
      | _ => apply same
  · rcases right.cases with rfl | ⟨y, y', rfl, rfl, numbers'⟩
    · cases b with
      | text t => apply numbers.eq_eq (Double.Alike.refl _)
      | _ => apply same
    · apply same

theorem loose_eq : a.loose b = a'.loose b'
  := left.unbool.looselyEqual_eq right.unbool

theorem less_eq : a.less b = a'.less b' := by
  have numbers := left.toNumber.lt_eq right.toNumber
  rcases left.cases with rfl | ⟨x, x', rfl, rfl, -⟩
  · rcases right.cases with rfl | ⟨y, y', rfl, rfl, -⟩
    · rfl
    · cases a <;> apply numbers
  · cases b <;> cases b' <;> apply numbers

theorem atMost_eq : a.atMost b = a'.atMost b' := by
  have numbers := left.toNumber.le_eq right.toNumber
  rcases left.cases with rfl | ⟨x, x', rfl, rfl, -⟩
  · rcases right.cases with rfl | ⟨y, y', rfl, rfl, -⟩
    · rfl
    · cases a <;> apply numbers
  · cases b <;> cases b' <;> apply numbers

theorem plus : (a.plus b).Alike (a'.plus b') := by
  have numbers : (num _).Alike (num _) := left.toNumber.add right.toNumber
  have textA := left.toText_eq
  have textB := right.toText_eq
  rcases left.cases with rfl | ⟨x, x', rfl, rfl, -⟩
  · rcases right.cases with rfl | ⟨y, y', rfl, rfl, -⟩
    · apply refl
    · cases a with
      | text s => rw [Concrete.plus, Concrete.plus, textB]; apply refl
      | _ => apply numbers
  · rcases right.cases with rfl | ⟨y, y', rfl, rfl, -⟩
    · cases b with
      | text t => simp only [Concrete.plus, textA]; apply refl
      | _ => apply numbers
    · apply numbers

end

theorem binary {o : BinaryOp} (noDivision : o ≠ .div) (left : a.Alike a')
    (right : b.Alike b') : (Concrete.binary o a b).Alike (Concrete.binary o a' b')
  := by
  cases o with
  | add => apply left.plus right
  | sub => apply left.toNumber.sub right.toNumber
  | mul => apply left.toNumber.mul right.toNumber
  | div => apply (noDivision rfl).elim
  | rem => apply left.toNumber.rem right.toNumber
  | gt => rw [Concrete.binary, Concrete.binary, right.less_eq left]; apply refl
  | lt => rw [Concrete.binary, Concrete.binary, left.less_eq right]; apply refl
  | ge => rw [Concrete.binary, Concrete.binary, right.atMost_eq left]; apply refl
  | le => rw [Concrete.binary, Concrete.binary, left.atMost_eq right]; apply refl
  | eq | ne => rw [Concrete.binary, Concrete.binary, left.loose_eq right]; apply refl
  | identical | different =>
    rw [Concrete.binary, Concrete.binary, left.identical_eq right]
    apply refl
  | xor | or | and =>
    rw [Concrete.binary, Concrete.binary, left.toUInt32_eq, right.toUInt32_eq]
    apply refl
  | shiftLeft | shiftRight =>
    rw [Concrete.binary, Concrete.binary, shiftAmount, shiftAmount, left.toUInt32_eq,
      right.toUInt32_eq]
    apply refl

theorem unary (o : UnaryOp) (alike : a.Alike b) :
  (Concrete.unary o a).Alike (Concrete.unary o b)
  := by
  cases o with
  | plus => apply alike.toNumber
  | minus => apply alike.toNumber.neg
  | not => rw [Concrete.unary, Concrete.unary, alike.toBool_eq]; apply refl
  | complement => rw [Concrete.unary, Concrete.unary, alike.toUInt32_eq]; apply refl

end Alike

variable {a b : Concrete}

theorem alike_of_identical (same : a.identical b = true) : a.Alike b := by
  unfold identical at same
  split at same
  · rfl
  · rfl
  · apply (Double.eq_iff_alike.1 same).2.2
  · rw [beq_iff_eq.1 same]
    apply Alike.refl
  · rw [beq_iff_eq.1 same]
    apply Alike.refl
  · cases same

end Concrete

/-! ### NUL -/

def Text.NulFree (t : Text) : Prop := 0 ∉ t.toList

instance (t : Text) : Decidable t.NulFree := inferInstanceAs (Decidable (0 ∉ t.toList))

theorem Text.nulFree_append {s t : Text} (left : s.NulFree) (right : t.NulFree) : (s ++ t).NulFree
  := by
  rw [NulFree, toList_append, List.mem_append, not_or]
  use left, right

theorem Decimal.mem_digitList {n c : Nat} (digit : c ∈ digitList n) : c ≠ 0 := by
  obtain ⟨d, member, rfl⟩ := List.mem_map.1 digit
  have isDigit := Nat.isDigit_of_mem_toDigits (by decide) (by decide) member
  intro none
  have null : d = Char.ofNat 0 := by rw [← none, Char.ofNat_toNat]
  rw [null] at isDigit
  cases isDigit

theorem Decimal.write_nulFree (s : Style) (d : Decimal) : (d.write s).NulFree := by
  have digits : ∀ n, 0 ∉ digitList n := fun n digit => mem_digitList digit rfl
  have taken : ∀ n k, 0 ∉ (digitList n).take k := fun n k digit =>
    digits n (List.mem_of_mem_take digit)
  have dropped : ∀ n k, 0 ∉ (digitList n).drop k := fun n k digit =>
    digits n (List.mem_of_mem_drop digit)
  have tail : ∀ n, 0 ∉ (digitList n).tail := fun n digit => digits n (List.mem_of_mem_tail digit)
  simp only [write]
  split
  · split
    · simp only [Text.NulFree, Text.toList_ofList]
      split <;> simp [digits]
    · split
      · simp [Text.NulFree, taken, dropped]
      · simp [Text.NulFree, digits]
  · simp only [Text.NulFree, Text.toList_ofList]
    split <;> split <;> simp [digits, taken, tail]

theorem Double.toText_nulFree (x : Double) : x.toText.NulFree := by
  have number := Decimal.write_nulFree scriptStyle (x.shortest scriptStyle)
  simp only [toText]
  split
  · decide
  · split
    · split <;> decide
    · split
      · decide
      · split
        · apply Text.nulFree_append (by decide) number
        · apply number

namespace Concrete

def NulFree : Concrete → Prop
  | text t => t.NulFree
  | _ => True

variable {a b : Concrete}

theorem toText_nulFree (free : a.NulFree) : a.toText.NulFree := by
  cases a with
  | num x => apply Double.toText_nulFree
  | text t => apply free
  | bool b => cases b <;> decide
  | _ => decide

theorem plus_nulFree (left : a.NulFree) (right : b.NulFree) : (a.plus b).NulFree := by
  have texts := Text.nulFree_append (toText_nulFree left) (toText_nulFree right)
  cases a with
  | text s => apply texts
  | _ =>
    cases b with
    | text t => apply texts
    | _ => trivial

theorem binary_nulFree (o : BinaryOp) (left : a.NulFree) (right : b.NulFree) :
  (binary o a b).NulFree
  := by
  cases o with
  | add => apply plus_nulFree left right
  | _ => trivial

theorem unary_nulFree (o : UnaryOp) (a : Concrete) : (unary o a).NulFree := by
  cases o <;> trivial

end Concrete

end ScriptLens
