import ScriptLens.Builtin.Arrays
import ScriptLens.Builtin.Convert
import ScriptLens.Proofs.Computation

/-!
# Operators on references

An operator that computes with texts or numbers takes a reference on its left as the text of its
object.
-/

namespace ScriptLens.Scene

def operand (c : Scene) (a : Atom) : Except Failure Value :=
  if isRef (.atom a) then c.toText (.atom a) else return .atom a

variable {c : Scene} {useOr : Bool} {op : Text} {o : BinaryOp} {a b : Atom}

theorem isTop_atom (known : a ≠ .top) : (Value.atom a).isTop = false := by
  cases a <;> first | rfl | exact absurd rfl known

theorem binary_of_reads (spelled : BinaryOp.ofText? op = some o) (reads : readsText o = true)
    (knownA : a ≠ .top) (knownB : b ≠ .top) :
  c.binary useOr op (.atom a) (.atom b) = (do
    let w ← (do
      if isRef (.atom a) || isRef (.atom b) then c.converted (.atom a) (.atom b)
      else return .atom a : Except Failure Value)
    return .ofConcrete c.tag (.binary o (← w.concrete) (← (Value.atom b).concrete)))
  := by
  change c.binaryPlain op (.atom a) (.atom b) = _
  rw [binaryPlain, isTop_atom knownA, isTop_atom knownB, spelled]
  cases hasRef : isRef (.atom a) || isRef (.atom b) <;> cases o <;> first | rfl | cases reads

theorem converted_left (right : isRef (.atom b) = false) :
  (if isRef (.atom a) || isRef (.atom b) then c.converted (.atom a) (.atom b)
    else pure (.atom a)) = c.operand a
  := by
  rw [converted, right, Bool.or_false, operand]
  split
  · exact bind_pure _
  · rfl

/-- The answer is any value if an operand may be.  Else an operator that converts has an answer exactly if
its right operand is no reference and both operands, the left one after its conversion, are values that
scripts compute with; the answer is then what they compute.  There is no answer to whether two
references are the same or not. -/
theorem operators_answer_iff (c : Scene) (useOr : Bool) (v : Value)
    (spelled : BinaryOp.ofText? op = some o) :
  (a = .top ∨ b = .top → c.binary useOr op (.atom a) (.atom b) = .ok .top) ∧
  (a ≠ .top → b ≠ .top → readsText o = true → (c.binary useOr op (.atom a) (.atom b) = .ok v ↔
    isRef (.atom b) = false ∧ ∃ w x y, c.operand a = .ok w ∧ w.concrete = .ok x ∧
      (Value.atom b).concrete = .ok y ∧ v = .ofConcrete c.tag (.binary o x y))) ∧
  (o = .identical ∨ o = .different → isRef (.atom a) = true → isRef (.atom b) = true →
    c.binary useOr op (.atom a) (.atom b) ≠ .ok v)
  := by
  refine ⟨fun top => ?_, fun knownA knownB reads => ?_, ?_⟩
  · change c.binaryPlain op (.atom a) (.atom b) = _
    rw [binaryPlain, if_pos]
    · rfl
    · rcases top with rfl | rfl
      · rfl
      · exact Bool.or_true _
  · simp only [binary_of_reads spelled reads knownA knownB, except_bind_eq_ok]
    constructor
    · rintro ⟨w, left, x, isX, y, isY, answer⟩
      have right : isRef (.atom b) = false := by
        cases b <;> first | rfl | cases isY
      rw [converted_left right] at left
      cases answer
      exact ⟨right, w, x, y, left, isX, isY, rfl⟩
    · rintro ⟨right, w, x, y, left, isX, isY, rfl⟩
      rw [converted_left right]
      exact ⟨w, left, x, isX, y, isY, rfl⟩
  · rintro (rfl | rfl) left right answered
    all_goals
      change c.binaryPlain op (.atom a) (.atom b) = _ at answered
      rw [binaryPlain, spelled] at answered
      cases a <;> cases left
      cases b <;> cases right
      cases answered

/-- An array of numbers and an object, with the numbers 0 and 1. -/
def sampleScene : Scene where
  heap := (Heap.insert {} 0 (Builtin.arrayOf [.prim (.ofNat 1), .null])).insert 1 { length := none }
  source := ""
  tag := 0

/-- An array on the left of a text. -/
theorem operators_answer_array :
  BinaryOp.ofText? "+" = some .add ∧
    sampleScene.binary true "+" (.ref ⟨0, .unbound⟩) (.prim (.text "!")) = .ok (.prim (.text "1,null!"))
  := by
  have spelled : BinaryOp.ofText? "+" = some .add := by decide +kernel
  use spelled
  apply ((operators_answer_iff sampleScene true _ spelled).2.1 (by decide) (by decide) rfl).2
  refine ⟨rfl, .prim (.text "1,null"), .text "1,null", .text "!", ?_, ?_, ?_, ?_⟩
  all_goals decide +kernel

/-- An object on the right of a text has a text, but the operator fails. -/
theorem plus_refuses_right_object :
  sampleScene.toText (.ref ⟨1, .unbound⟩) = .ok (.prim (.text "[object Object]")) ∧
    sampleScene.binary true "+" (.prim (.text "a")) (.ref ⟨1, .unbound⟩) = .error .notConvertible
  := by
  constructor
  · decide +kernel
  · exact except_eq_error (by decide +kernel)

end ScriptLens.Scene
