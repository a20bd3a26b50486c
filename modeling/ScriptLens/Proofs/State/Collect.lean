import Mathlib.Order.Bounds.Defs
import ScriptLens.Domain.Collect
import ScriptLens.Proofs.Heap.Unify

/-!
# Collections

A collection comes to an end exactly if everything that is reached from the scopes, the objects in
use, the objects that exist before the program and the object that the value of the last statement
refers to is there and can be read.
-/

namespace ScriptLens

open Domain List

def Obj.Readable (o : Obj) : Prop := ∀ p ∈ o.props, p.2 ≠ .absent ∧ p.2.NoPrimReceiver

instance (o : Obj) : Decidable o.Readable
  := inferInstanceAs (Decidable (∀ p ∈ o.props, p.2 ≠ .absent ∧ p.2.NoPrimReceiver))

namespace Value

theorem object_mem_visits {v : Value} {j : Nat} : .object j ∈ v.visits ↔ j ∈ State.refIds v := by
  unfold visits
  split
  · simp [State.refIds, refs, choices]
  · simp only [State.refIds, mem_flatMap]
    refine exists_congr fun r => and_congr_right fun _ => ?_
    cases isThis : r.this <;> simp [Ref.ids, Receiver.object?, isThis]

theorem visits_objects_iff {v : Value} :
  (∀ x ∈ v.visits, ∃ j, x = .object j) ↔ v ≠ .absent ∧ v.NoPrimReceiver
  := by
  cases v with
  | absent => simp [visits]
  | atom a =>
    cases a with
    | ref r => cases isThis : r.this <;> simp [visits, NoPrimReceiver, refs, choices, Atom.ref?, isThis]
    | _ => simp [visits, NoPrimReceiver, refs, choices, Atom.ref?]
  | or s =>
    simp only [visits, mem_flatMap, NoPrimReceiver]
    constructor
    · intro objects
      refine ⟨Value.noConfusion, fun r reference p bound => ?_⟩
      obtain ⟨j, ⟨⟩⟩ := objects .nothing ⟨r, reference, by simp [bound]⟩
    · rintro ⟨-, free⟩ x ⟨r, reference, place⟩
      rcases mem_cons.1 place with rfl | receiver
      · exact ⟨_, rfl⟩
      · cases isThis : r.this with
        | unbound =>
          rw [isThis] at receiver
          cases receiver
        | object i =>
          rw [isThis] at receiver
          exact ⟨i, mem_singleton.1 receiver⟩
        | prim p => exact (free r reference p isThis).elim

end Value

namespace Obj

theorem object_mem_visits {o : Obj} {j : Nat} : .object j ∈ o.visits ↔ j ∈ o.targets := by
  simp only [visits, targets, mem_append, mem_flatMap, mem_map, Value.object_mem_visits,
    Visit.object.injEq, exists_eq_right]

theorem readable_iff {o : Obj} : o.Readable ↔ ∀ x ∈ o.visits, ∃ j, x = .object j := by
  simp only [Readable, ← Value.visits_objects_iff, visits, mem_append, mem_flatMap,
    mem_map]
  constructor
  · rintro objects x (⟨p, property, place⟩ | ⟨i, -, rfl⟩)
    · exact objects p property x place
    · exact ⟨i, rfl⟩
  · intro objects p property x place
    exact objects x (.inl ⟨p, property, place⟩)

end Obj

namespace State

/-! ### The walk -/

variable {heap : Heap} {roots : List Nat}

theorem unreached_walked (rest : Heap) (work : List Visit) :
  ∀ rest', unreached heap rest work = .ok rest' → heap.Walk .object Obj.visits rest work →
    heap.Walked .object Obj.visits rest work rest'
  := by
  fun_induction unreached heap rest work with
  | case1 rest =>
    intro rest' result walk
    cases result
    exact walk.done
  | case2 | case3 | case6 =>
    intro rest' result
    cases result
  | case4 rest i work o found ih =>
    intro rest' result walk
    obtain ⟨walk, known⟩ := walk.visit found
    exact (ih rest' result walk).before known
  | case5 rest i work visited present ih =>
    intro rest' result walk
    obtain ⟨walk, known⟩ := walk.skip ((heap.contains_iff i).1 present) visited
    exact (ih rest' result walk).before known

theorem unreached_ok (readable : ∀ i, heap.Reach roots i → ∃ o, heap.get? i = some o ∧ o.Readable)
    (rest : Heap) (work : List Visit) :
  (∀ i o, rest.get? i = some o → heap.get? i = some o) →
  (∀ x ∈ work, ∃ i, x = .object i ∧ heap.Reach roots i) →
  ∃ rest', unreached heap rest work = .ok rest' ∧
    ∀ i, rest'.get? i = rest.get? i ∨ heap.Reach roots i
  := by
  fun_induction unreached heap rest work with
  | case1 rest =>
    intro _ _
    exact ⟨rest, rfl, fun _ => .inl rfl⟩
  | case2 | case3 =>
    intro _ objects
    obtain ⟨i, ⟨⟩, -⟩ := objects _ mem_cons_self
  | case4 rest i work o found ih =>
    intro part objects
    obtain ⟨j, same, reached⟩ := objects _ mem_cons_self
    obtain rfl := Visit.object.inj same
    have there := part i o found
    obtain ⟨o', again, reads⟩ := readable i reached
    cases there.symm.trans again
    obtain ⟨rest', result, left⟩ := ih
      (fun j a kept => part j a (Heap.get?_of_erase kept))
      (by
        intro x place
        rcases mem_append.1 place with leads | later
        · obtain ⟨j, rfl⟩ := Obj.readable_iff.1 reads x leads
          exact ⟨j, rfl, .step reached there (Obj.object_mem_visits.1 leads)⟩
        · exact objects x (mem_cons_of_mem _ later))
    refine ⟨rest', result, fun j => ?_⟩
    rcases left j with same | isReached
    · rw [Heap.lookup_erase] at same
      split at same
      · rename_i here
        exact .inr (here ▸ reached)
      · exact .inl same
    · exact .inr isReached
  | case5 rest i work visited present ih =>
    intro part objects
    exact ih part fun x later => objects x (mem_cons_of_mem _ later)
  | case6 rest i work visited missing =>
    intro _ objects
    obtain ⟨j, same, reached⟩ := objects _ mem_cons_self
    obtain rfl := Visit.object.inj same
    obtain ⟨o, there, -⟩ := readable i reached
    exact (missing ((heap.contains_iff i).2 ⟨o, there⟩)).elim

theorem unreached_spec {rest : Heap} (result : unreached heap heap (roots.map .object) = .ok rest) :
  (∀ i, heap.Reach roots i → ∃ o, heap.get? i = some o ∧ o.Readable) ∧
    (∀ i, heap.Reach roots i → rest.get? i = none) ∧
    ∀ i, ¬ heap.Reach roots i → rest.get? i = heap.get? i
  := by
  obtain ⟨all, closed⟩ := unreached_walked heap _ rest result .start
  have visited : ∀ i, heap.Reach roots i → Heap.Visited Visit.object heap rest (.object i) := by
    intro i reached
    apply reached.mem_of_closed
    · intro j root
      exact all _ (.inr (mem_map_of_mem root))
    · rintro j o ⟨_, same, -, gone⟩ there k target
      obtain rfl := Visit.object.inj same
      exact closed j o there gone _ (Obj.object_mem_visits.2 target)
  have readable : ∀ i, heap.Reach roots i → ∃ o, heap.get? i = some o ∧ o.Readable := by
    intro i reached
    obtain ⟨_, same, ⟨o, there⟩, gone⟩ := visited i reached
    obtain rfl := Visit.object.inj same
    refine ⟨o, there, Obj.readable_iff.2 fun x leads => ?_⟩
    obtain ⟨j, isObject, -⟩ := closed i o there gone x leads
    exact ⟨j, isObject⟩
  refine ⟨readable, ?_, ?_⟩
  · intro i reached
    obtain ⟨_, same, -, gone⟩ := visited i reached
    obtain rfl := Visit.object.inj same
    exact gone
  · intro i apart
    obtain ⟨rest', again, left⟩ := unreached_ok readable heap (roots.map .object)
      (fun _ _ there => there) (by
        intro x place
        obtain ⟨j, root, rfl⟩ := mem_map.1 place
        exact ⟨j, rfl, .root root⟩)
    cases result.symm.trans again
    rcases left i with same | reached
    · exact same
    · exact (apart reached).elim

/-! ### States -/

/-- What a collection starts from: the scopes, the target of the value of the last statement if it is a
reference, the scopes of the callers, the objects in use and those that exist before the program. -/
def keepers (s : State) (roots : List Nat) : List Nat :=
  s.lref.toList ++ s.gref.toList ++ (match s.value with
    | .ref r => [r.target]
    | _ => []) ++ s.frames ++ s.pending.ids ++ roots

/-- The second state is the first one with the objects that are reached, and no others. -/
structure Swept (s t : State) (roots : List Nat) : Prop where
  others : t = { s with objs := t.objs }
  kept : ∀ i, s.objs.Reach (s.keepers roots) i → t.objs.get? i = s.objs.get? i
  gone : ∀ i, ¬ s.objs.Reach (s.keepers roots) i → t.objs.get? i = none

variable {s t : State} {c : Setting} {n m : Nat}

theorem cleanup_eq_ok_iff (notBottom : s.isBottom = false) (off : c.options.cleanTopObjects = false) :
  s.cleanup.eval c n = .ok (t, m) ↔ s.lref.isSome ∧ s.gref.isSome ∧ ∃ rest,
    unreached s.objs s.objs ((s.keepers c.roots).map .object) = .ok rest ∧
    t = { s with objs := s.objs.filter fun i => !rest.contains i } ∧ m = n
  := by
  have objs : (do
      if (← options).cleanTopObjects then unlink s.objs (heapRefCount s.objs + 1)
      else return s.objs : Domain Heap).eval c n = .ok (s.objs, n) := by
    rw [eval_bind_ok (eval_options c n), off]
    rfl
  unfold cleanup
  simp only [notBottom, Bool.false_eq_true, if_false]
  rw [eval_bind_ok objs, keepers]
  have missing : scopeId none = .error .missingEntry := rfl
  cases isLocal : s.lref with
  | none =>
    rw [eval_lift_bind_error missing]
    simp
  | some l =>
    rw [eval_lift_bind_ok (scopeId_some l)]
    cases isGlobal : s.gref with
    | none =>
      rw [eval_lift_bind_error missing]
      simp
    | some g =>
      rw [eval_lift_bind_ok (scopeId_some g), eval_bind_ok (eval_read c n),
        eval_lift_bind_eq_ok]
      simp only [Option.isSome_some, true_and, eval_pure, Except.ok.injEq, Prod.mk.injEq,
        eq_comm (b := t), eq_comm (b := m)]
      rfl

theorem cleanup_swept (notBottom : s.isBottom = false) (off : c.options.cleanTopObjects = false)
    (result : s.cleanup.eval c n = .ok (t, m)) :
  m = n ∧ (∀ i, s.objs.Reach (s.keepers c.roots) i → ∃ o, s.objs.get? i = some o ∧ o.Readable) ∧
    s.Swept t c.roots
  := by
  obtain ⟨-, -, rest, walked, rfl, rfl⟩ := (cleanup_eq_ok_iff notBottom off).1 result
  obtain ⟨readable, gone, left⟩ := unreached_spec walked
  have kept (i : Nat) : (!rest.contains i) = true ↔ rest.get? i = none := by
    rw [Heap.get?_eq_none_iff, ← Heap.contains_iff, Bool.not_eq_true, Bool.not_eq_true']
  refine ⟨rfl, readable, rfl, fun i reached => ?_, fun i apart => ?_⟩
  · rw [Heap.lookup_filter, if_pos ((kept i).2 (gone i reached))]
  · rw [Heap.lookup_filter]
    split
    · rename_i isKept
      rw [← left i apart]
      exact (kept i).1 isKept
    · rfl

/-- A set of numbers has all that a collection starts from, and with an object what it mentions. -/
def Retains (s : State) (roots : List Nat) (p : Set Nat) : Prop :=
  (∀ i ∈ s.keepers roots, i ∈ p) ∧ ∀ i ∈ p, ∀ o, s.objs.get? i = some o → ∀ j ∈ o.targets, j ∈ p

/-- A collection that comes to an end leaves the least set of objects that has what it starts from and
what they mention; these objects and the rest of the state are as before. -/
theorem cleanup_leaves_least (notBottom : s.isBottom = false) (off : c.options.cleanTopObjects = false)
    (result : s.cleanup.eval c n = .ok (t, m)) :
  IsLeast {p | s.Retains c.roots p} {i | t.objs.Has i} ∧
    (∀ i o, t.objs.get? i = some o → s.objs.get? i = some o) ∧ t = { s with objs := t.objs } ∧ m = n
  := by
  obtain ⟨same, readable, swept⟩ := cleanup_swept notBottom off result
  have has_iff (i : Nat) : t.objs.Has i ↔ s.objs.Reach (s.keepers c.roots) i := by
    by_cases reached : s.objs.Reach (s.keepers c.roots) i
    · obtain ⟨o, there, -⟩ := readable i reached
      exact iff_of_true ⟨o, (swept.kept i reached).trans there⟩ reached
    · exact iff_of_false ((Heap.get?_eq_none_iff _ i).1 (swept.gone i reached)) reached
  refine ⟨⟨⟨?_, ?_⟩, ?_⟩, ?_, swept.others, same⟩
  · exact fun i keeper => (has_iff i).2 (.root keeper)
  · exact fun i left o there j target => (has_iff j).2 (.step ((has_iff i).1 left) there target)
  · exact fun p retains i left =>
      ((has_iff i).1 left).mem_of_closed retains.1 fun j o inside => retains.2 j inside o
  · intro i o left
    rw [← swept.kept i ((has_iff i).1 ⟨o, left⟩)]
    exact left

theorem cleanup_ok (notBottom : s.isBottom = false) (off : c.options.cleanTopObjects = false)
    (hasLocal : s.lref.isSome) (hasGlobal : s.gref.isSome)
    (readable : ∀ i, s.objs.Reach (s.keepers c.roots) i → ∃ o, s.objs.get? i = some o ∧ o.Readable) :
  ∃ t, s.cleanup.eval c n = .ok (t, n)
  := by
  obtain ⟨rest, walked, -⟩ := unreached_ok readable s.objs ((s.keepers c.roots).map .object)
    (fun _ _ there => there) (by
      intro x place
      obtain ⟨j, root, rfl⟩ := mem_map.1 place
      exact ⟨j, rfl, .root root⟩)
  exact ⟨_, (cleanup_eq_ok_iff notBottom off).2 ⟨hasLocal, hasGlobal, rest, walked, rfl, rfl⟩⟩

/-- A state that is not bottom and in which no object is missing that is reached from the scopes, the
objects in use, the objects that exist before the program or the value of the last statement. -/
structure Intact (s : State) (roots : List Nat) : Prop where
  notBottom : s.isBottom = false
  hasLocal : s.lref.isSome
  hasGlobal : s.gref.isSome
  present : ∀ i, s.objs.Reach (s.anchors ++ roots ++ refIds s.value) i → s.objs.Has i

theorem Closed.intact (closed : s.Closed) (present : ∀ i ∈ roots, s.objs.Has i) : s.Intact roots
  := by
  obtain ⟨l, isLocal⟩ := closed.hasLocal
  obtain ⟨g, isGlobal⟩ := closed.hasGlobal
  refine ⟨closed.notBottom, by simp [isLocal], by simp [isGlobal], fun i reached => ?_⟩
  apply closed.heap.has_of_reach _ reached
  intro j root
  simp only [mem_append] at root
  rcases root with (anchor | root) | value
  · exact closed.roots j (mem_append_left _ anchor)
  · exact present j root
  · exact closed.roots j (mem_append_right _ value)

theorem mem_keepers {i : Nat} :
  i ∈ s.keepers roots ↔ i ∈ s.anchors ∨ i ∈ roots ∨ ∃ r, s.value = .ref r ∧ r.target = i
  := by
  have target : i ∈ (match s.value with
      | .ref r => [r.target]
      | _ => []) ↔ ∃ r, s.value = .ref r ∧ r.target = i := by
    split
    · rename_i r isValue
      simp [isValue, eq_comm]
    · rename_i other
      simp only [not_mem_nil, false_iff, not_exists, not_and]
      exact fun r isValue => (other r isValue).elim
  rw [keepers]
  simp only [mem_append, target, anchors]
  grind

theorem keepers_subset : s.keepers roots ⊆ s.anchors ++ roots ++ refIds s.value := by
  intro i keeper
  simp only [mem_append]
  rcases mem_keepers.1 keeper with anchor | root | ⟨r, isValue, rfl⟩
  · exact .inl (.inl anchor)
  · exact .inl (.inr root)
  · right
    rw [isValue]
    exact mem_flatMap.2 ⟨r, mem_singleton_self r, mem_cons_self⟩

/-- A collection of an intact state comes to an end in an intact state exactly if what it reaches can be
read and it reaches all objects that the value of the last statement names. -/
theorem cleanup_intact_iff (off : c.options.cleanTopObjects = false) (intact : s.Intact c.roots) :
  (∃ t, s.cleanup.eval c n = .ok (t, n) ∧ t.Intact c.roots) ↔
    (∀ i o, s.objs.Reach (s.keepers c.roots) i → s.objs.get? i = some o → o.Readable) ∧
    ∀ i ∈ refIds s.value, s.objs.Reach (s.keepers c.roots) i
  := by
  constructor
  · rintro ⟨t, result, intactT⟩
    obtain ⟨-, readable, swept⟩ := cleanup_swept intact.notBottom off result
    constructor
    · intro i o reached there
      obtain ⟨o', again, reads⟩ := readable i reached
      cases there.symm.trans again
      exact reads
    · intro i named
      by_contra apart
      have mentioned : i ∈ t.anchors ++ c.roots ++ refIds t.value := by
        rw [swept.others]
        exact mem_append_right _ named
      obtain ⟨o, there⟩ := intactT.present i (.root mentioned)
      rw [swept.gone i apart] at there
      cases there
  · rintro ⟨readable, named⟩
    have complete : ∀ i, s.objs.Reach (s.keepers c.roots) i → ∃ o, s.objs.get? i = some o ∧ o.Readable := by
      intro i reached
      obtain ⟨o, there⟩ := intact.present i (reached.mono keepers_subset)
      exact ⟨o, there, readable i o reached there⟩
    obtain ⟨t, result⟩ := cleanup_ok (n := n) intact.notBottom off intact.hasLocal intact.hasGlobal complete
    obtain ⟨-, -, swept⟩ := cleanup_swept intact.notBottom off result
    refine ⟨t, result, ?_⟩
    have inside : ∀ i, t.objs.Reach (t.anchors ++ c.roots ++ refIds t.value) i →
        s.objs.Reach (s.keepers c.roots) i := by
      intro i reached
      apply reached.mem_of_closed
      · intro j root
        rw [swept.others] at root
        simp only [mem_append] at root
        rcases root with (anchor | root) | value
        · exact .root (mem_keepers.2 (.inl anchor))
        · exact .root (mem_keepers.2 (.inr (.inl root)))
        · exact named j value
      · intro j o reachedJ there k target
        rw [swept.kept j reachedJ] at there
        exact .step reachedJ there target
    rw [swept.others]
    refine ⟨intact.notBottom, intact.hasLocal, intact.hasGlobal, fun i reached => ?_⟩
    have reachedS : s.objs.Reach (s.keepers c.roots) i := by
      apply inside
      rw [swept.others]
      exact reached
    obtain ⟨o, there, -⟩ := complete i reachedS
    exact ⟨o, (swept.kept i reachedS).trans there⟩

/-- A function in a scope of its own, an object that refers back to it, and an object that nothing refers
to; the value of the last statement is the function bound to the object. -/
def tangled : State :=
  { sample (.or [.undefined, .ref ⟨1, .object 2⟩])
      [(1, { env := some 3 }), (2, { props := [("up", .ref ⟨1, .unbound⟩)] }), (3, {}), (4, {})] with
    value := .ref ⟨1, .object 2⟩, frames := [3] }

theorem tangled_closed : tangled.Closed
  := ⟨rfl, ⟨0, rfl⟩, ⟨0, rfl⟩, by decide +kernel, by decide +kernel⟩

theorem tangled_readable (i : Nat) (o : Obj) (there : tangled.objs.get? i = some o) : o.Readable
  := Heap.forall_objs_iff (P := fun _ o => o.Readable).2 (by decide +kernel) i o there

theorem cleanup_leaves_least_tangled :
  ∃ t, tangled.cleanup.eval { roots := [3] } 5 = .ok (t, 5) ∧
    IsLeast {p | tangled.Retains [3] p} {i | t.objs.Has i} ∧ ¬ t.objs.Has 4
  := by
  have intact : tangled.Intact [3] := tangled_closed.intact (by decide +kernel)
  obtain ⟨t, result⟩ := cleanup_ok (c := { roots := [3] }) (n := 5) rfl rfl rfl rfl (by
    intro i reached
    obtain ⟨o, there⟩ := intact.present i (reached.mono keepers_subset)
    exact ⟨o, there, tangled_readable i o there⟩)
  obtain ⟨least, -⟩ := cleanup_leaves_least (c := { roots := [3] }) rfl rfl result
  refine ⟨t, result, least, fun left => ?_⟩
  have roots : ∀ i ∈ tangled.keepers [3], i ≠ 4 := by decide
  have others : tangled.Retains [3] {i | i ≠ 4} := ⟨roots, fun i _ =>
    Heap.forall_objs_iff (P := fun _ o => ∀ j ∈ o.targets, j ≠ 4).2 (by decide +kernel) i⟩
  exact least.2 others left rfl

theorem cleanup_intact_tangled :
  tangled.Intact [3] ∧
    ∃ t, tangled.cleanup.eval { roots := [3] } 5 = .ok (t, 5) ∧ t.Intact [3]
  := by
  have intact : tangled.Intact [3] := tangled_closed.intact (by decide +kernel)
  refine ⟨intact, (cleanup_intact_iff (c := { roots := [3] }) rfl intact).2 ⟨?_, ?_⟩⟩
  · exact fun i o _ => tangled_readable i o
  · have bound : tangled.objs.Reach (tangled.keepers [3]) 2 := by
      refine .step (.root (i := 0) (by decide)) (scope_sample (by decide)) ?_
      decide
    intro i named
    rcases mem_pair.1 named with rfl | rfl
    · exact .root (mem_keepers.2 (.inr (.inr ⟨_, rfl, rfl⟩)))
    · exact bound

/-- A reference bound to a primitive value makes a collection fail; a choice in the value of the last
statement loses the object that it refers to. -/
theorem cleanup_fails_or_loses :
  (let s := sample (.ref ⟨1, .prim (.text "x")⟩) [(1, {})]
   s.Intact [] ∧ s.cleanup.eval {} 2 = .error (.badValue "")) ∧
  let s : State := { sample .top [(1, {})] with value := .or [.undefined, .ref ⟨1, .unbound⟩] }
  s.Intact [] ∧ ∃ t, s.cleanup.eval {} 2 = .ok (t, 2) ∧ ¬ t.Intact []
  := by
  constructor
  · intro s
    have closed : s.Closed := ⟨rfl, ⟨0, rfl⟩, ⟨0, rfl⟩, by decide +kernel, by decide +kernel⟩
    exact ⟨closed.intact (by decide), except_eq_error (by decide +kernel)⟩
  · intro s
    have closed : s.Closed := ⟨rfl, ⟨0, rfl⟩, ⟨0, rfl⟩, by decide +kernel, by decide +kernel⟩
    have intact : s.Intact [] := closed.intact (by decide)
    have scope : s.objs.get? 0 = some _ := scope_sample (by decide)
    -- the scope is all that the collection reaches
    have only : ∀ i, s.objs.Reach (s.keepers []) i → i = 0 := by
      intro i reached
      apply reached.mem_of_closed
      · decide
      · rintro j o rfl there k target
        cases scope.symm.trans there
        revert target
        simp [Obj.targets, refIds, Value.refs, Value.choices, Atom.ref?, unknownObj]
    obtain ⟨t, result⟩ := cleanup_ok (c := {}) (n := 2) intact.notBottom rfl intact.hasLocal
      intact.hasGlobal (by
        intro i reached
        obtain rfl := only i reached
        refine ⟨_, scope, ?_⟩
        simp [Obj.Readable, Value.NoPrimReceiver, Value.refs, Value.choices, Atom.ref?])
    refine ⟨intact, t, result, fun intactT => ?_⟩
    obtain ⟨-, -, swept⟩ := cleanup_swept (c := {}) intact.notBottom rfl result
    have mentioned : 1 ∈ t.anchors ++ [] ++ refIds t.value := by
      rw [swept.others]
      exact mem_append_right _ mem_cons_self
    obtain ⟨o, there⟩ := intactT.present 1 (.root mentioned)
    rw [swept.gone 1 fun reached => absurd (only 1 reached) (by decide)] at there
    cases there

end State

end ScriptLens
