import Mathlib.Data.List.Nodup
import ScriptLens.Domain.Unify
import ScriptLens.Proofs.Computation
import ScriptLens.Proofs.Heap.Reach

/-!
# Renamings and moves

A renaming lists numbers with the numbers that stand for them.  `State.moveObjects` moves objects
one entry after the other; no object is lost on the way if no entry moves an object to a number
that a later entry still has to move away from.
-/

namespace ScriptLens

namespace Renaming

open List

def Orderly (m : Renaming) : Prop := m.Pairwise fun a b => a.2 ≠ b.1

def Functional (m : Renaming) : Prop := (m.map Prod.fst).Nodup

variable {m : Renaming} {i : Nat}

theorem Functional.cons {a : Nat × Nat} (functional : Functional (a :: m)) :
  (∀ b ∈ m, b.1 ≠ a.1) ∧ m.Functional
  := by
  obtain ⟨new, functional⟩ := nodup_cons.1 functional
  refine ⟨?_, functional⟩
  intro b member same
  apply new
  rw [← same]
  apply mem_map_of_mem member

section

variable (functional : m.Functional)

include functional

theorem mem_set (i j : Nat) (a : Nat × Nat) :
  a ∈ m.set i j ↔ a = (i, j) ∨ (a ∈ m ∧ a.1 ≠ i)
  := by
  induction m with
  | nil => simp [set]
  | cons b m ih =>
    obtain ⟨k, l⟩ := b
    obtain ⟨other, functional⟩ := functional.cons
    simp only [set]
    split
    · rename_i same
      obtain rfl := beq_iff_eq.1 same
      constructor
      · intro member
        rcases mem_cons.1 member with rfl | member
        · left
          rfl
        · right
          use mem_cons_of_mem _ member
          apply other _ member
      · rintro (rfl | ⟨member, different⟩)
        · apply mem_cons_self
        · rcases mem_cons.1 member with rfl | member
          · apply (different rfl).elim
          · apply mem_cons_of_mem _ member
    · rename_i different
      have different : k ≠ i := by simpa using different
      rw [mem_cons, ih functional, mem_cons]
      constructor
      · rintro (rfl | rfl | ⟨member, other⟩)
        · right
          use .inl rfl
        · left
          rfl
        · right
          use .inr member
      · rintro (rfl | ⟨rfl | member, other⟩)
        · right
          left
          rfl
        · left
          rfl
        · right
          right
          use member

omit functional in
theorem fst_set (m : Renaming) (i j : Nat) :
  (m.set i j).map Prod.fst = m.map Prod.fst ∨
    i ∉ m.map Prod.fst ∧ (m.set i j).map Prod.fst = m.map Prod.fst ++ [i]
  := by
  induction m with
  | nil => simp [set]
  | cons b m ih =>
    simp only [set]
    split
    · left
      rfl
    · rename_i different
      have different : b.1 ≠ i := by simpa using different
      rcases ih with same | ⟨new, added⟩
      · left
        rw [map_cons, map_cons, same]
      · right
        rw [map_cons, map_cons, added]
        simp [new, different.symm]

theorem Functional.set (i j : Nat) : (m.set i j).Functional := by
  rw [Functional]
  rcases fst_set m i j with same | ⟨new, added⟩
  · rw [same]
    apply functional
  · rw [added, ← concat_eq_append]
    apply functional.concat new

theorem lookup_eq_some_iff (i j : Nat) :
  m.lookup i = some j ↔ (i, j) ∈ m
  := by
  induction m with
  | nil => simp
  | cons b m ih =>
    obtain ⟨k, l⟩ := b
    obtain ⟨other, functional⟩ := functional.cons
    rw [lookup_cons, mem_cons, Prod.mk.injEq, ← ih functional]
    split
    · rename_i same
      have missing : m.lookup i ≠ some j := fun found => other _ ((ih functional).1 found) same
      subst same
      simp [missing, eq_comm]
    · rename_i different
      simp [different]

theorem apply_of_mem {j : Nat} (member : (i, j) ∈ m) : m.apply i = j
  := by
  rw [apply, (lookup_eq_some_iff functional i j).2 member]
  rfl

theorem apply_of_not_mem (missing : ∀ j, (i, j) ∉ m) : m.apply i = i
  := by
  rw [apply]
  cases found : m.lookup i with
  | none => rfl
  | some j => apply (missing j ((lookup_eq_some_iff functional i j).1 found)).elim

theorem mem_or_apply_eq (i : Nat) :
  (i, m.apply i) ∈ m ∨ ((∀ j, (i, j) ∉ m) ∧ m.apply i = i)
  := by
  by_cases member : ∃ j, (i, j) ∈ m
  · obtain ⟨j, member⟩ := member
    left
    rw [apply_of_mem functional member]
    apply member
  · right
    have missing := not_exists.1 member
    use missing
    apply apply_of_not_mem functional missing

end

end Renaming

namespace State

variable {i j : Nat} {m : Renaming}

theorem moveObjects_cons {h h' : Heap} :
  moveObjects h ((i, j) :: m) = .ok h' ↔
    ∃ o, h.get? i = some o ∧ moveObjects ((h.erase i).insert j o) m = .ok h'
  := by
  simp only [moveObjects]
  split
  · rename_i o found
    simp only [found, Option.some.injEq, exists_eq_left']
  · rename_i missing
    simp only [missing, reduceCtorEq, false_and, exists_false]

theorem moveObjects_ok (functional : m.Functional) :
  ∀ h : Heap, (∀ a ∈ m, h.Has a.1) → ∃ h', moveObjects h m = .ok h'
  := by
  induction m with
  | nil =>
    intro h _
    use h
    rfl
  | cons a m ih =>
    obtain ⟨i, j⟩ := a
    obtain ⟨other, functional⟩ := functional.cons
    intro h present
    obtain ⟨o, found⟩ := present _ List.mem_cons_self
    simp only [moveObjects, found]
    apply ih functional
    intro b member
    obtain ⟨o', found'⟩ := present _ (List.mem_cons_of_mem _ member)
    by_cases same : j = b.1
    · use o
      rw [Heap.lookup_insert, if_pos same]
    · use o'
      rw [Heap.lookup_insert, if_neg same, Heap.lookup_erase, if_neg, found']
      apply (other b member).symm

theorem moveObjects_other {k : Nat} :
  ∀ h h' : Heap, moveObjects h m = .ok h' → (∀ a ∈ m, a.1 ≠ k ∧ a.2 ≠ k) → h'.get? k = h.get? k
  := by
  induction m with
  | nil =>
    intro h h' moved _
    cases moved
    rfl
  | cons a m ih =>
    obtain ⟨i, j⟩ := a
    intro h h' moved other
    obtain ⟨from_i, to_j⟩ := other _ List.mem_cons_self
    obtain ⟨o, _, moved⟩ := moveObjects_cons.1 moved
    rw [ih _ _ moved (fun b member => other b (List.mem_cons_of_mem _ member)),
      Heap.lookup_insert, if_neg to_j, Heap.lookup_erase, if_neg from_i]

theorem moveObjects_vacates :
  ∀ h h' : Heap, moveObjects h m = .ok h' → m.Functional → (i, j) ∈ m → (∀ a ∈ m, a.2 ≠ i) →
    h'.get? i = none
  := by
  induction m with
  | nil =>
    intro _ _ _ _ member
    cases member
  | cons a m ih =>
    obtain ⟨k, l⟩ := a
    intro h h' moved functional member noArrival
    obtain ⟨other, functional⟩ := functional.cons
    have away : l ≠ i := noArrival _ List.mem_cons_self
    have noneLater : ∀ a ∈ m, a.2 ≠ i := fun a later => noArrival a (List.mem_cons_of_mem _ later)
    obtain ⟨o, _, moved⟩ := moveObjects_cons.1 moved
    rcases List.mem_cons.1 member with same | later
    · cases same
      rw [moveObjects_other _ _ moved, Heap.lookup_insert, if_neg away, Heap.lookup_erase,
        if_pos rfl]
      exact fun a later => ⟨other a later, noneLater a later⟩
    · apply ih _ _ moved functional later noneLater

theorem moveObjects_orderly :
  ∀ h h' : Heap, moveObjects h m = .ok h' → m.Functional →
    (∀ a ∈ m, ∀ b ∈ m, a.2 = b.1 → h'.Has a.2 ∧ ∀ c ∈ m, c.2 = a.2 → c = a) → m.Orderly
  := by
  induction m with
  | nil =>
    intro _ _ _ _ _
    apply List.Pairwise.nil
  | cons a m ih =>
    obtain ⟨k, l⟩ := a
    intro h h' moved functional arrive
    obtain ⟨other, functional⟩ := functional.cons
    obtain ⟨o, found, moved⟩ := moveObjects_cons.1 moved
    apply List.Pairwise.cons
    · rintro ⟨i, j⟩ later rfl
      -- The object that has arrived is moved away again, and nothing replaces it.
      obtain ⟨⟨o, found⟩, only⟩ := arrive _ List.mem_cons_self _ (List.mem_cons_of_mem _ later) rfl
      have vacated := moveObjects_vacates _ _ moved functional later (by
        intro c member arrives
        obtain rfl := only c (List.mem_cons_of_mem _ member) arrives
        apply other _ member rfl)
      cases found.symm.trans vacated
    · apply ih _ _ moved functional
      intro a member b member' meets
      obtain ⟨there, only⟩ := arrive a (List.mem_cons_of_mem _ member) b
        (List.mem_cons_of_mem _ member') meets
      use there
      intro c member'' same
      apply only c (List.mem_cons_of_mem _ member'') same

theorem moveObjects_arrives :
  ∀ h h' : Heap, moveObjects h m = .ok h' → m.Functional → m.Orderly → (i, j) ∈ m →
    (∀ k, (k, j) ∈ m → k = i) → h'.get? j = h.get? i
  := by
  induction m with
  | nil =>
    intro _ _ _ _ _ member
    cases member
  | cons a m ih =>
    obtain ⟨k, l⟩ := a
    intro h h' moved functional orderly member only
    obtain ⟨other, functional⟩ := functional.cons
    obtain ⟨first, orderly⟩ := List.pairwise_cons.1 orderly
    obtain ⟨o, found, moved⟩ := moveObjects_cons.1 moved
    rcases List.mem_cons.1 member with same | later
    · cases same
      -- The object is in its place after this entry, and no later entry touches that place.
      rw [moveObjects_other _ _ moved, Heap.lookup_insert, if_pos rfl, found]
      intro b later
      use (first b later).symm
      rintro rfl
      apply other b later (only b.1 (List.mem_cons_of_mem _ later))
    · have different : k ≠ i := (other _ later).symm
      rw [ih _ _ moved functional orderly later
          (fun b member => only b (List.mem_cons_of_mem _ member)),
        Heap.lookup_insert, if_neg (first _ later), Heap.lookup_erase, if_neg different]

end State

end ScriptLens
