import Std.Data.TreeMap
import ScriptLens.Domain.Object

/-!
# Heaps

A heap maps numbers to objects and remembers the order in which the numbers came into use.
-/

namespace ScriptLens

open Std.TreeMap

structure Heap where
  /-- Each object with the moment its number came into use. -/
  cells : Std.TreeMap Nat (Nat × Obj) := {}
  stamp : Nat := 0

namespace Heap

def get? (h : Heap) (i : Nat) : Option Obj := (h.cells[i]?).map Prod.snd

def contains (h : Heap) (i : Nat) : Bool := h.cells.contains i

def size (h : Heap) : Nat := h.cells.size

def insert (h : Heap) (i : Nat) (o : Obj) : Heap :=
  match h.cells[i]? with
  | some c => { h with cells := h.cells.insert i (c.1, o) }
  | none => { cells := h.cells.insert i (h.stamp, o), stamp := h.stamp + 1 }

def erase (h : Heap) (i : Nat) : Heap := { h with cells := h.cells.erase i }

def update (h : Heap) (i : Nat) (f : Obj → Obj) : Heap :=
  match h.get? i with
  | some o => h.insert i (f o)
  | none => h

/-- The objects with their numbers, in the order in which the numbers came into use. -/
def toList (h : Heap) : List (Nat × Obj) :=
  ((h.cells.toList.mergeSort fun a b => a.2.1 ≤ b.2.1).map fun c => (c.1, c.2.2))

def ids (h : Heap) : List Nat := h.toList.map Prod.fst

def filter (h : Heap) (keep : Nat → Bool) : Heap :=
  { h with cells := h.cells.filter fun i _ => keep i }

theorem lookup_insert (h : Heap) (i j : Nat) (o : Obj) :
  (h.insert i o).get? j = if i = j then some o else h.get? j
  := by
  unfold insert get?
  split <;> simp only [getElem?_insert, Nat.compare_eq_eq] <;> split <;> rfl

theorem lookup_erase (h : Heap) (i j : Nat) : (h.erase i).get? j = if i = j then none else h.get? j
  := by
  unfold erase get?
  simp only [getElem?_erase, Nat.compare_eq_eq]
  split <;> rfl

theorem size_erase_lt (h : Heap) {i : Nat} {o : Obj} (present : h.get? i = some o) :
  (h.erase i).size < h.size
  := by
  have inside : h.cells.contains i = true := by
    rw [get?, Option.map_eq_some_iff] at present
    obtain ⟨c, found, _⟩ := present
    rw [contains_eq_isSome_getElem?, found]
    rfl
  have positive : 0 < h.cells.size := by
    apply Nat.pos_of_ne_zero
    intro none
    have empty : h.cells.isEmpty = true := by
      rw [isEmpty_eq_size_eq_zero, none]
      rfl
    rw [contains_of_isEmpty empty] at inside
    cases inside
  simp only [size, erase, size_erase, inside, if_true]
  exact Nat.sub_lt positive Nat.one_pos

/-- The largest of a measure of the objects of a heap. -/
def bound (f : Obj → Nat) (h : Heap) : Nat :=
  h.cells.toList.foldr (fun c n => max (f c.2.2) n) 0

/-- A number is at least the bound of a heap when it is at least the measure of each object. -/
theorem bound_le_iff (f : Obj → Nat) (h : Heap) (n : Nat) :
  h.bound f ≤ n ↔ ∀ i o, h.get? i = some o → f o ≤ n
  := by
  have folded : ∀ cells : List (Nat × Nat × Obj),
      cells.foldr (fun c n => max (f c.2.2) n) 0 ≤ n ↔ ∀ c ∈ cells, f c.2.2 ≤ n := by
    intro cells
    induction cells with
    | nil => simp
    | cons c cells step => rw [List.foldr_cons, Nat.max_le, step, List.forall_mem_cons]
  rw [bound, folded]
  constructor
  · intro all i o found
    rw [get?, Option.map_eq_some_iff] at found
    obtain ⟨c, found, rfl⟩ := found
    exact all (i, c) (mem_toList_iff_getElem?_eq_some.mpr found)
  · intro all c listed
    apply all c.1
    rw [get?, mem_toList_iff_getElem?_eq_some.mp listed]
    rfl

theorem le_bound (f : Obj → Nat) {h : Heap} {i : Nat} {o : Obj} (present : h.get? i = some o) :
  f o ≤ h.bound f
  := (bound_le_iff f h _).mp (Nat.le_refl _) i o present

theorem bound_erase_le (f : Obj → Nat) (h : Heap) (i : Nat) : (h.erase i).bound f ≤ h.bound f
  := by
  rw [bound_le_iff]
  intro j o present
  rw [lookup_erase] at present
  split at present
  · cases present
  · exact le_bound f present

theorem bound_insert_le (f : Obj → Nat) (h : Heap) (i : Nat) (o : Obj) :
  (h.insert i o).bound f ≤ max (h.bound f) (f o)
  := by
  rw [bound_le_iff]
  intro j p present
  rw [lookup_insert] at present
  split at present
  · cases present
    exact Nat.le_max_right _ _
  · exact Nat.le_trans (le_bound f present) (Nat.le_max_left _ _)

theorem bound_update_le (f : Obj → Nat) (h : Heap) (i : Nat) {change : Obj → Obj}
    (keeps : ∀ o, f (change o) = f o) : (h.update i change).bound f ≤ h.bound f
  := by
  unfold update
  split
  · rename_i o present
    apply Nat.le_trans (bound_insert_le f h i _)
    rw [keeps]
    exact Nat.max_le.mpr ⟨Nat.le_refl _, le_bound f present⟩
  · exact Nat.le_refl _

/-- How many steps a walk can take that visits each object of a heap once and goes on from it to at
most as many places as its measure is. -/
def room (f : Obj → Nat) (h : Heap) : Nat := h.size * (h.bound f + 1)

/-- A visit takes the room that its steps need. -/
theorem room_erase_lt (f : Obj → Nat) {h : Heap} {i : Nat} {o : Obj}
    (present : h.get? i = some o) : (h.erase i).room f + f o < h.room f
  := by
  calc (h.erase i).room f + f o
    _ < (h.erase i).size * (h.bound f + 1) + (h.bound f + 1) := by
      apply Nat.add_lt_add_of_le_of_lt
      · exact Nat.mul_le_mul_left _ (Nat.succ_le_succ (bound_erase_le f h i))
      · exact Nat.lt_succ_of_le (le_bound f present)
    _ = ((h.erase i).size + 1) * (h.bound f + 1) := (Nat.succ_mul _ _).symm
    _ ≤ h.room f := Nat.mul_le_mul_right _ (size_erase_lt h present)

end Heap

end ScriptLens
