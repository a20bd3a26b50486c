import ScriptLens.Domain.State

/-!
# Equality of states

Two states are equal if their scopes and other fields are and if the objects reached from the
scopes are equal one by one.  The objects are walked in both heaps at once.
-/

namespace ScriptLens

inductive Comparison where
  | check (holds : Bool)
  /-- Two objects to compare, unless the first one has been visited. -/
  | edge (i j : Nat)

/-- The steps that compare two objects: their environments, each property of the first one and
what it refers to, and at last the objects themselves. -/
def Obj.comparison (a b : Obj) : List Comparison :=
  let env := match a.env, b.env with
    | some i, some j => [.edge i j]
    | _, _ => []
  let props := a.props.flatMap fun p =>
    let agrees := match b.get? p.1 with
      | some w => p.2.equal w
      | none => false
    .check agrees :: ((p.2.ref?.map Ref.ids).getD []).map fun i => Comparison.edge i i
  env ++ props ++ [.check (a.equal b)]

theorem Obj.length_comparison_le (a b : Obj) : (a.comparison b).length ≤ a.spread
  := by
  rw [comparison, List.length_append, List.length_append, Nat.add_right_comm]
  apply a.length_flatMap_le
  · split <;> simp
  · intro p
    rw [List.length_cons, List.length_map]
    have := p.2.length_ref?_ids_le
    omega

namespace State

def compareHeaps (first second rest : Heap) (work : List Comparison) :
    Except Failure (Option Heap) :=
  match work with
  | [] => return some rest
  | .check holds :: work => if holds then compareHeaps first second rest work else return none
  | .edge i j :: work =>
    match _present : rest.get? i with
    | some a =>
      match second.get? j with
      | some b => compareHeaps first second (rest.erase i) (a.comparison b ++ work)
      | none => throw .missingEntry
    | none =>
      if first.contains i then compareHeaps first second rest work else throw .missingEntry
termination_by rest.room Obj.spread + work.length
decreasing_by
  · exact Nat.lt_succ_self _
  · have room := Heap.room_erase_lt Obj.spread _present
    have steps := a.length_comparison_le b
    simp only [List.length_append, List.length_cons]
    omega
  · exact Nat.lt_succ_self _

/-- Whether the heaps agree from each of the given pairs of numbers on. -/
def compareFrom (s t : State) (rest : Heap) : List (Option Nat × Option Nat) → Except Failure Bool
  | [] => return true
  | (i, j) :: roots => do
    let a ← s.obj (← scopeId i)
    let b ← t.obj (← scopeId j)
    match ← compareHeaps s.objs t.objs rest (a.comparison b) with
    | some rest => compareFrom s t rest roots
    | none => return false

def equal (s t : State) : Except Failure Bool :=
  if s.isBottom == t.isBottom && s.gref == t.gref && s.lref == t.lref && s.pending == t.pending
      && s.value.equal t.value && s.frames == t.frames then
    compareFrom s t s.objs
      ((s.lref, t.lref) :: (s.gref, t.gref)
        :: (s.pending.ids ++ s.frames).map fun i => (some i, some i))
  else return false

end State

end ScriptLens
