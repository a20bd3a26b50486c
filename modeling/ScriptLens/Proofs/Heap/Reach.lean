import Mathlib.Data.List.Basic
import ScriptLens.Domain.State

/-!
# Reachable objects

The objects that an object mentions, what can be reached along them, and heaps in which nothing
that is mentioned is missing.
-/

namespace ScriptLens

def Obj.targets (o : Obj) : List Nat :=
  (o.props.flatMap fun p => State.refIds p.2) ++ o.env.toList

namespace Heap

/-- The numbers that are reached from given ones along what objects mention. -/
inductive Reach (h : Heap) (roots : List Nat) : Nat → Prop where
  | root {i : Nat} : i ∈ roots → h.Reach roots i
  | step {i j : Nat} {o : Obj} :
      h.Reach roots i → h.get? i = some o → j ∈ o.targets → h.Reach roots j

def Has (h : Heap) (i : Nat) : Prop := ∃ o, h.get? i = some o

/-- No object refers to one that is missing. -/
def Closed (h : Heap) : Prop := ∀ i o, h.get? i = some o → ∀ j ∈ o.targets, h.Has j

def Below (h : Heap) (n : Nat) : Prop := ∀ i, h.Has i → i < n

theorem contains_iff (h : Heap) (i : Nat) : h.contains i = true ↔ h.Has i := by
  rw [contains, Has, get?, Std.TreeMap.contains_eq_isSome_getElem?, Option.isSome_iff_exists]
  constructor
  · rintro ⟨c, found⟩
    use c.2
    rw [found]
    rfl
  · rintro ⟨o, found⟩
    obtain ⟨c, there, -⟩ := Option.map_eq_some_iff.1 found
    use c

variable {h : Heap} {i : Nat} {roots : List Nat}

instance : Decidable (h.Has i)
  := decidable_of_iff _ (h.contains_iff i)

theorem forall_objs_iff {P : Nat → Obj → Prop} :
  (∀ i o, h.get? i = some o → P i o) ↔ ∀ c ∈ h.cells.toList, P c.1 c.2.2
  := by
  simp only [get?, Option.map_eq_some_iff, Prod.forall,
    Std.TreeMap.mem_toList_iff_getElem?_eq_some]
  constructor
  · exact fun all i t o found => all i o ⟨_, found, rfl⟩
  · rintro all i o ⟨c, found, rfl⟩
    exact all i c.1 c.2 found

instance : Decidable h.Closed
  := decidable_of_iff' _ (forall_objs_iff (P := fun _ o => ∀ j ∈ o.targets, h.Has j))

instance (n : Nat) : Decidable (h.Below n)
  := decidable_of_iff (∀ c ∈ h.cells.toList, c.1 < n) <|
    (forall_objs_iff (P := fun i _ => i < n)).symm.trans (forall_congr' fun _ =>
      exists_imp.symm)

theorem get?_eq_none_iff (h : Heap) (i : Nat) : h.get? i = none ↔ ¬ h.Has i := by
  rw [Has, Option.eq_none_iff_forall_ne_some, not_exists]

theorem Closed.has_of_reach (closed : h.Closed)
    (present : ∀ i ∈ roots, h.Has i) (reached : h.Reach roots i) : h.Has i
  := by
  cases reached with
  | root member => apply present _ member
  | step _ found target => apply closed _ _ found _ target

theorem Reach.mem_of_closed {p : Nat → Prop} (start : ∀ i ∈ roots, p i)
    (next : ∀ i o, p i → h.get? i = some o → ∀ j ∈ o.targets, p j)
    (reached : h.Reach roots i) : p i
  := by
  induction reached with
  | root member => apply start _ member
  | step _ found target inside => apply next _ _ inside found _ target

theorem lookup_update (h : Heap) (i j : Nat) (f : Obj → Obj) :
  (h.update i f).get? j = if i = j then (h.get? j).map f else h.get? j
  := by
  unfold update
  split
  · rename_i o found
    rw [lookup_insert]
    split
    · rename_i same
      rw [← same, found]
      rfl
    · rfl
  · rename_i missing
    split
    · rename_i same
      rw [← same, missing]
      rfl
    · rfl

theorem lookup_filter (h : Heap) (keep : Nat → Bool) (i : Nat) :
  (h.filter keep).get? i = if keep i then h.get? i else none
  := by
  simp only [filter, get?, Std.TreeMap.getElem?_filter']
  cases keep i <;> cases h.cells[i]? <;> rfl

theorem Reach.mono {roots' : List Nat} (more : roots ⊆ roots') (reached : h.Reach roots i) :
  h.Reach roots' i
  := by
  apply reached.mem_of_closed
  · intro j root
    apply Reach.root (more root)
  · intro j o inside found k target
    apply Reach.step inside found target

end Heap

namespace State

def anchors (s : State) : List Nat :=
  s.lref.toList ++ s.gref.toList ++ s.pending.ids ++ s.frames

def Reach (s : State) (i : Nat) : Prop := s.objs.Reach (s.anchors ++ refIds s.value) i

/-- A state that is not bottom and in which nothing that is mentioned is missing. -/
structure Closed (s : State) : Prop where
  notBottom : s.isBottom = false
  hasLocal : ∃ i, s.lref = some i
  hasGlobal : ∃ i, s.gref = some i
  heap : s.objs.Closed
  roots : ∀ i ∈ s.anchors ++ refIds s.value, s.objs.Has i

theorem Closed.has_of_reach {s : State} {i : Nat} (closed : s.Closed) (reached : s.Reach i) :
  s.objs.Has i
  := closed.heap.has_of_reach closed.roots reached

theorem Reach.target {s : State} {i j : Nat} {o : Obj} (reached : s.Reach i)
    (found : s.objs.get? i = some o) (target : j ∈ o.targets) : s.Reach j
  := Heap.Reach.step reached found target

end State

end ScriptLens
