import ScriptLens.Builtin.Convert
import ScriptLens.Domain.Collect
import ScriptLens.Proofs.Object.Join

/-!
# Unlinking unknown objects

A collection may begin with rounds that drop references to objects of which nothing is known.  An
object that loses a reference may become unknown itself, so that further references go; each round
but the last one drops some, so that the rounds come to an end.
-/

namespace ScriptLens

open List

/-- Nothing is known of the object: all its properties, listed or not, may be anything. -/
def Obj.Unknown (o : Obj) : Prop := o.missing = .isTop ∧ ∀ p ∈ o.props, p.2 = .top

/-- The second object is the first one, except that under some of the given keys it may have any
value. -/
structure Obj.Loosens (P : Key → Prop) (o o' : Obj) : Prop where
  others : o' = { o with props := o'.props }
  distinct : Props.Distinct o'.props
  read : ∀ k, o'.get? k = o.get? k ∨ o'.member k = .top ∧ P k

namespace Obj.Loosens

variable {P Q : Key → Prop} {o o' o'' : Obj} {k : Key} (loosens : o.Loosens P o')

include loosens

theorem member_eq (same : o'.get? k = o.get? k) : o'.member k = o.member k
  := by rw [member, member, same, loosens.others]

theorem top (top : o.member k = .top) : o'.member k = .top := by
  rcases loosens.read k with same | ⟨isTop, -⟩
  · exact (loosens.member_eq same).trans top
  · exact isTop

theorem get?_eq {r : Ref} (found : o'.get? k = some (.ref r)) : o.get? k = some (.ref r) := by
  rcases loosens.read k with same | ⟨top, -⟩
  · exact same ▸ found
  · rw [member, found] at top
    cases top

theorem trans (weaker : ∀ k, P k → Q k) {R : Key → Prop} (next : o'.Loosens R o'')
    (given : ∀ k, o'.get? k = o.get? k → R k → Q k) : o.Loosens Q o''
  := by
  refine ⟨by rw [next.others, loosens.others], next.distinct, fun k => ?_⟩
  rcases loosens.read k with same | ⟨top, isGiven⟩
  · rw [← same]
    exact (next.read k).imp_right (.imp_right (given k same))
  · exact .inr ⟨next.top top, weaker k isGiven⟩

end Obj.Loosens

namespace Heap

variable {h h' : Heap} {i : Nat} {o o' : Obj} {k : Key} {r : Ref} {ls : List (Nat × Key)}

/-- Under the key, the object refers to an object of which nothing is known. -/
def Vague (h : Heap) (o : Obj) (k : Key) : Prop :=
  ∃ r u, o.get? k = some (.ref r) ∧ h.get? r.target = some u ∧ u.Unknown

/-- What is read as a reference leads to an object, and no object lists a key twice. -/
structure Linked (h : Heap) : Prop where
  present : ∀ i o k r, h.get? i = some o → o.get? k = some (.ref r) → h.Has r.target
  distinct : ∀ i o, h.get? i = some o → Props.Distinct o.props

/-- The second heap has the objects of the first one, without some of the references to objects that
are unknown in the second one; the references that are left are among the listed ones. -/
structure Unlinking (h h' : Heap) (ls : List (Nat × Key)) : Prop where
  kept : ∀ i o, h.get? i = some o → ∃ o', h'.get? i = some o' ∧ o.Loosens (h'.Vague o) o'
  only : ∀ i, h'.Has i → h.Has i
  listed : ∀ i o k r, h'.get? i = some o → o.get? k = some (.ref r) → ∃ q ∈ ls, q.1 = i ∧ q.2.same k = true

theorem mem_toList : (i, o) ∈ h.toList ↔ h.get? i = some o := by
  simp only [toList, get?, mem_map, mem_mergeSort, Option.map_eq_some_iff, Prod.mk.injEq,
    Std.TreeMap.mem_toList_iff_getElem?_eq_some, Prod.exists]
  grind

/-- Where the references stand, to begin with. -/
theorem Linked.start (linked : h.Linked) : ∃ ls, h.Unlinking h ls ∧ ls.length = State.heapRefCount h := by
  refine ⟨h.toList.flatMap fun c => (c.2.props.filter (Scene.isRef ·.2)).map fun p => (c.1, p.1),
    ⟨?_, fun _ => id, ?_⟩, ?_⟩
  · exact fun i o found => ⟨o, found, rfl, linked.distinct i o found, fun _ => .inl rfl⟩
  · intro i o k r found listed
    obtain ⟨l, same, inside⟩ := Props.mem_of_get? listed
    refine ⟨(i, l), mem_flatMap.2 ⟨(i, o), mem_toList.2 found, ?_⟩, rfl, same⟩
    exact mem_map.2 ⟨(l, .ref r), mem_filter.2 ⟨inside, rfl⟩, rfl⟩
  · simp only [length_flatMap, length_map, sum, foldr_map]
    rfl

namespace Unlinking

variable (unlinking : h.Unlinking h' ls)

include unlinking

theorem before (found : h'.get? i = some o') : ∃ o, h.get? i = some o ∧ o.Loosens (h'.Vague o) o' := by
  obtain ⟨o, there⟩ := unlinking.only i ⟨o', found⟩
  obtain ⟨_, again, loosens⟩ := unlinking.kept i o there
  cases found.symm.trans again
  exact ⟨o, there, loosens⟩

theorem linked (linked : h.Linked) : h'.Linked := by
  constructor
  · intro i o' k r found listed
    obtain ⟨o, there, loosens⟩ := unlinking.before found
    obtain ⟨u, isTarget⟩ := linked.present i o k r there (loosens.get?_eq listed)
    obtain ⟨u', isTarget', -⟩ := unlinking.kept _ u isTarget
    exact ⟨u', isTarget'⟩
  · intro i o' found
    obtain ⟨o, -, loosens⟩ := unlinking.before found
    exact loosens.distinct

/-- The object at a number loses references to unknown objects. -/
theorem drop {P : Key → Prop} (found : h'.get? i = some o) (loosens : o.Loosens P o')
    (vague : ∀ k, P k → h'.Vague o k) (given : P k) (gone : o'.member k = .top) :
  ∃ ls', h.Unlinking (h'.insert i o') ls' ∧ ls'.length < ls.length
  := by
  -- an object that loses a reference was not unknown, so that unknown objects stay as they are
  have unknown (u : Obj) (j : Nat) (there : h'.get? j = some u) (unknown : u.Unknown) :
      (h'.insert i o').get? j = some u := by
    rw [lookup_insert, if_neg, there]
    rintro rfl
    cases found.symm.trans there
    obtain ⟨r, -, listed, -⟩ := vague k given
    obtain ⟨l, -, inside⟩ := Props.mem_of_get? listed
    cases unknown.2 _ inside
  have still {u : Obj} {l : Key} : h'.Vague u l → (h'.insert i o').Vague u l := by
    rintro ⟨r, u', listed, there, isUnknown⟩
    exact ⟨r, u', listed, unknown u' _ there isUnknown, isUnknown⟩
  have after {j : Nat} {u : Obj} (there : (h'.insert i o').get? j = some u) :
      i = j ∧ u = o' ∨ i ≠ j ∧ h'.get? j = some u := by
    rw [lookup_insert] at there
    split at there <;> simp_all
  obtain ⟨r, -, listed, -⟩ := vague k given
  refine ⟨ls.filter fun q => !(q.1 == i && q.2.same k), ⟨?_, ?_, ?_⟩, ?_⟩
  · intro j u there
    obtain ⟨u', there', loosens'⟩ := unlinking.kept j u there
    by_cases here : i = j
    · cases found.symm.trans (here ▸ there')
      refine ⟨o', by rw [lookup_insert, if_pos here], loosens'.trans (fun _ => still) loosens ?_⟩
      rintro l same isGiven
      obtain ⟨r, v, listed, isUnknown⟩ := still (vague l isGiven)
      exact ⟨r, v, same ▸ listed, isUnknown⟩
    · refine ⟨u', by rw [lookup_insert, if_neg here, there'], loosens'.others, loosens'.distinct, fun l => ?_⟩
      exact (loosens'.read l).imp_right (.imp_right still)
  · rintro j ⟨u, there⟩
    rcases after there with ⟨rfl, rfl⟩ | ⟨-, there⟩
    · exact unlinking.only i ⟨o, found⟩
    · exact unlinking.only j ⟨u, there⟩
  · intro j u l r there isRef
    rcases after there with ⟨rfl, rfl⟩ | ⟨other, there⟩
    · obtain ⟨q, inside, rfl, same⟩ := unlinking.listed i o l r found (loosens.get?_eq isRef)
      refine ⟨q, mem_filter.2 ⟨inside, ?_⟩, rfl, same⟩
      -- what is dropped is any value now, and no reference
      have other : ¬ q.2.same k = true := by
        intro isKey
        rw [← Obj.member_congr isKey, Obj.member_congr same, Obj.member, isRef] at gone
        cases gone
      simp [other]
    · obtain ⟨q, inside, rfl, same⟩ := unlinking.listed j u l r there isRef
      exact ⟨q, mem_filter.2 ⟨inside, by simp [other.symm]⟩, rfl, same⟩
  · obtain ⟨q, inside, isHere, same⟩ := unlinking.listed i o k r found listed
    exact length_filter_lt_length_iff_exists.2 ⟨q, inside, by simp [isHere, same]⟩

end Unlinking

end Heap

namespace State

variable {h h' : Heap} {i : Nat} {o : Obj} {ls : List (Nat × Key)}

theorem isUnknown_iff : isUnknown o = true ↔ o.Unknown := by
  have top (v : Value) : v.isTop = true ↔ v = .top := by
    unfold Value.isTop
    split <;> simp_all
  simp only [isUnknown, Obj.Unknown, Bool.and_eq_true, beq_iff_eq, all_eq_true, top]

/-! ### Rounds -/

def forgetKey (o : Obj) (k : Key) : Obj := if o.missing == .isTop then o.drop k else o.put k .top

theorem forgetKey_loosens (k : Key) (distinct : Props.Distinct o.props) :
  o.Loosens (k.same · = true) (forgetKey o k) ∧ (forgetKey o k).member k = .top
  := by
  have same : k.same k = true := Key.same_iff.2 rfl
  unfold forgetKey
  split
  · rename_i mode
    have top (l : Key) (same : k.same l = true) : (o.drop k).member l = .top := by
      have gone : (o.drop k).get? k = none := distinct.get?_erase_self k
      rw [← Obj.member_congr same, Obj.member, gone]
      exact if_pos mode
    refine ⟨⟨rfl, distinct.sublist (Props.erase_sublist _ _), fun l => ?_⟩, top k same⟩
    by_cases same : k.same l = true
    · exact .inr ⟨top l same, same⟩
    · exact .inl (Props.get?_erase _ same)
  · have read (l : Key) := Props.get?_set o.props k l .top
    have top (l : Key) (same : k.same l = true) : (o.put k .top).member l = .top := by
      rw [Obj.member, Obj.get?, Obj.put, read, if_pos same]
    refine ⟨⟨rfl, distinct.set, fun l => ?_⟩, top k same⟩
    by_cases same : k.same l = true
    · exact .inr ⟨top l same, same⟩
    · exact .inl ((read l).trans (if_neg same))

theorem forget_loosens (keys : List Key) (distinct : Props.Distinct o.props) :
  o.Loosens (fun l => ∃ k ∈ keys, k.same l = true) (forget o keys)
  := by
  induction keys generalizing o with
  | nil => exact ⟨rfl, distinct, fun _ => .inl rfl⟩
  | cons k keys ih =>
    have first := (forgetKey_loosens k distinct).1
    refine first.trans (fun l same => ⟨k, mem_cons_self, same⟩) (ih first.distinct) ?_
    rintro l - ⟨k', inside, same⟩
    exact ⟨k', mem_cons_of_mem _ inside, same⟩

theorem unknownKeys_ok {ps : Props} (present : ∀ k r, (k, .ref r) ∈ ps → h.Has r.target) :
  ∃ keys, unknownKeys h ps = .ok keys ∧
    ∀ k, k ∈ keys ↔ ∃ r u, (k, .ref r) ∈ ps ∧ h.get? r.target = some u ∧ u.Unknown
  := by
  induction ps with
  | nil => exact ⟨[], rfl, by simp⟩
  | cons p ps ih =>
    obtain ⟨l, v⟩ := p
    obtain ⟨keys, run, spec⟩ := ih fun k r inside => present k r (mem_cons_of_mem _ inside)
    rw [unknownKeys] at run
    rw [unknownKeys, filterMapM_cons, run]
    by_cases vague : ∃ r u, v = .ref r ∧ h.get? r.target = some u ∧ u.Unknown
    · refine ⟨l :: keys, ?_, by grind⟩
      obtain ⟨r, u, rfl, there, unknown⟩ := vague
      simp only [there, isUnknown_iff.2 unknown]
      rfl
    · refine ⟨keys, ?_, by grind⟩
      split
      · rename_i r is
        obtain rfl : v = .ref r := is
        obtain ⟨u, there⟩ := present l r mem_cons_self
        have known : ¬ isUnknown u = true :=
          fun unknown => vague ⟨r, u, rfl, there, isUnknown_iff.1 unknown⟩
        simp only [there, known]
        rfl
      · rfl

/-- A round passes over an object without references to unknown objects, and drops these of another
one. -/
theorem unlinkOnce_cons (linked : h.Linked) (unlinking : h.Unlinking h' ls) (i : Nat) (l : List Nat) :
  (unlinkOnce h' (i :: l) = unlinkOnce h' l ∧ ∀ o, h'.get? i = some o → ∀ k, ¬ h'.Vague o k) ∨
    ∃ h1 ls1, h.Unlinking h1 ls1 ∧ ls1.length < ls.length ∧
      unlinkOnce h' (i :: l) = (unlinkOnce h1 l).map fun r => (r.1, true)
  := by
  rw [unlinkOnce]
  cases found : h'.get? i with
  | none => exact .inl ⟨rfl, fun _ impossible => by cases impossible⟩
  | some o =>
    obtain ⟨present, distinct⟩ := unlinking.linked linked
    have read {k : Key} {v : Value} := (distinct i o found).get?_eq (k := k) (v := v)
    obtain ⟨keys, run, spec⟩ := unknownKeys_ok fun k r inside => present i o k r found (read inside)
    simp only [except_bind_of_ok run]
    cases keys with
    | nil =>
      refine .inl ⟨?_, ?_⟩
      · simp only [isEmpty_nil, if_true, Bool.not_true, Bool.or_false]
        exact bind_pure _
      · rintro _ ⟨⟩ k ⟨r, u, listed, unknown⟩
        obtain ⟨l, -, inside⟩ := Props.mem_of_get? listed
        exact not_mem_nil ((spec l).2 ⟨r, u, inside, unknown⟩)
    | cons k keys =>
      obtain ⟨first, gone⟩ := forgetKey_loosens k (distinct i o found)
      obtain ⟨ls1, unlinking1, fewer⟩ := unlinking.drop (k := k) found (forget_loosens (k :: keys) (distinct i o found))
        (by
          rintro l ⟨k', key, same⟩
          obtain ⟨r, u, inside, unknown⟩ := (spec k').1 key
          exact ⟨r, u, (Props.get?_congr same).symm.trans (read inside), unknown⟩)
        ⟨k, mem_cons_self, Key.same_iff.2 rfl⟩ ((forget_loosens keys first.distinct).top gone)
      refine .inr ⟨_, ls1, unlinking1, fewer, ?_⟩
      simp only [isEmpty_cons, Bool.not_false, Bool.or_true]
      rfl

theorem unlinkOnce_ok (linked : h.Linked) (l : List Nat) (unlinking : h.Unlinking h' ls) :
  ∃ h1 ls1 changed, unlinkOnce h' l = .ok (h1, changed) ∧ h.Unlinking h1 ls1 ∧
    ls1.length + changed.toNat ≤ ls.length ∧
    (changed = false → h1 = h' ∧ ∀ i ∈ l, ∀ o, h'.get? i = some o → ∀ k, ¬ h'.Vague o k)
  := by
  induction l generalizing h' ls with
  | nil => exact ⟨h', ls, false, rfl, unlinking, Nat.le_refl _, fun _ => ⟨rfl, by simp⟩⟩
  | cons i l ih =>
    rcases unlinkOnce_cons linked unlinking i l with ⟨run, clear⟩ | ⟨h1, ls1, unlinking1, fewer, run⟩
    · obtain ⟨h1, ls1, changed, rest, unlinking1, count, unchanged⟩ := ih unlinking
      refine ⟨h1, ls1, changed, run.trans rest, unlinking1, count, fun still => ?_⟩
      exact ⟨(unchanged still).1, forall_mem_cons.2 ⟨clear, (unchanged still).2⟩⟩
    · obtain ⟨h2, ls2, changed, rest, unlinking2, count, -⟩ := ih unlinking1
      refine ⟨h2, ls2, true, by rw [run, rest]; rfl, unlinking2, ?_, fun impossible => by cases impossible⟩
      rw [Bool.toNat_true]
      omega

theorem unlink_ends {n : Nat} (linked : h.Linked) (unlinking : h.Unlinking h' ls) (enough : ls.length < n) :
  ∃ h1 ls1, (∀ m ≥ n, unlink h' m = .ok h1) ∧ unlinkOnce h1 h1.ids = .ok (h1, false) ∧ h.Unlinking h1 ls1 ∧
    ∀ i o, h1.get? i = some o → ∀ k, ¬ h1.Vague o k
  := by
  induction n generalizing h' ls with
  | zero => cases enough
  | succ n ih =>
    obtain ⟨h1, ls1, changed, run, unlinking1, count, unchanged⟩ := unlinkOnce_ok linked h'.ids unlinking
    have round (m : Nat) : unlink h' (m + 1) = if changed then unlink h1 m else .ok h1
      := except_bind_of_ok run
    cases changed with
    | false =>
      obtain ⟨rfl, none⟩ := unchanged rfl
      refine ⟨h1, ls1, fun m more => ?_, run, unlinking1, fun i o found => ?_⟩
      · obtain ⟨m, rfl⟩ := Nat.exists_eq_add_of_le' more
        exact round _
      · exact none i (mem_map.2 ⟨(i, o), Heap.mem_toList.2 found, rfl⟩) o found
    | true =>
      rw [Bool.toNat_true] at count
      obtain ⟨h2, ls2, ends, last⟩ := ih unlinking1 (by omega)
      refine ⟨h2, ls2, fun m more => ?_, last⟩
      obtain ⟨m, rfl⟩ := Nat.exists_eq_add_of_le' more
      exact (round _).trans (ends _ (Nat.le_add_left _ _))

/-- The rounds that unlink unknown objects come to an end: with every bound above the number of
references they lead to one heap, which a further round does not change, and the collection goes on
from there.  No property refers to an unknown object any more.  The heap has the same objects, and what
is read from them under a key is as before, or it was a reference to an object that is unknown in the
end and may now be anything. -/
theorem cleanup_unlinks {s : State} {c : Setting} (n : Nat) (notBottom : s.isBottom = false)
    (on : c.options.cleanTopObjects = true) (linked : s.objs.Linked) :
  ∃ heap : Heap, (∀ rounds > heapRefCount s.objs, unlink s.objs rounds = .ok heap) ∧
    unlinkOnce heap heap.ids = .ok (heap, false) ∧
    s.cleanup.eval c n = Domain.eval (cleanup { s with objs := heap })
      { c with options := { c.options with cleanTopObjects := false } } n ∧
    heap.Linked ∧ (∀ i o, heap.get? i = some o → ∀ k, ¬ heap.Vague o k) ∧ (∀ i, heap.Has i → s.objs.Has i) ∧
    ∀ i o, s.objs.get? i = some o → ∃ o', heap.get? i = some o' ∧ o' = { o with props := o'.props } ∧
      ∀ k, o'.member k = o.member k ∨ o'.member k = .top ∧ heap.Vague o k
  := by
  obtain ⟨places, start, count⟩ := linked.start
  obtain ⟨heap, ls, ends, last, unlinking, none⟩ := unlink_ends linked start (Nat.lt_succ_self _)
  rw [count] at ends
  refine ⟨heap, ends, last, ?_, unlinking.linked linked, none, unlinking.only, fun i o found => ?_⟩
  · have objs : (do
        if (← Domain.options).cleanTopObjects then unlink s.objs (heapRefCount s.objs + 1)
        else return s.objs : Domain Heap).eval c n = .ok (heap, n) := by
      rw [Domain.eval_bind_ok (Domain.eval_options c n), on, if_pos rfl, ends _ (Nat.le_refl _)]
      rfl
    unfold cleanup
    simp only [notBottom, Bool.false_eq_true, if_false]
    rw [Domain.eval_bind_ok objs]
    rfl
  · obtain ⟨o', found', loosens⟩ := unlinking.kept i o found
    exact ⟨o', found', loosens.others, fun k => (loosens.read k).imp_left loosens.member_eq⟩

/-- The object `2` is unknown after a round that unlinks `1` from it, and is unlinked in the next one. -/
theorem cleanup_unlinks_chain :
  let v (i : Nat) : Value := .ref ⟨i, .unbound⟩
  let s : State := { isBottom := false, objs := ((Heap.insert {} 1 { missing := .isTop }).insert 2
    { missing := .isTop, props := [("a", v 1)] }).insert 3 { props := [("a", v 2), ("b", v 3)] } }
  s.isBottom = false ∧ s.objs.Linked ∧ ∃ heap, unlink s.objs (heapRefCount s.objs + 1) = .ok heap ∧
    ∀ i o, heap.get? i = some o → ∀ k, ¬ heap.Vague o k
  := by
  intro v s
  have present : ∀ i o, s.objs.get? i = some o → ∀ p ∈ o.props, ∀ r ∈ p.2.refs, s.objs.Has r.target
    := Heap.forall_objs_iff.2 (by decide +kernel)
  have linked : s.objs.Linked := by
    refine ⟨fun i o k r found listed => ?_, Heap.forall_objs_iff.2 (by decide +kernel)⟩
    obtain ⟨l, -, inside⟩ := Props.mem_of_get? listed
    exact present i o found _ inside r (mem_singleton_self r)
  obtain ⟨heap, ends, -, -, -, none, -⟩ :=
    cleanup_unlinks (c := { options := { cleanTopObjects := true } }) 0 rfl rfl linked
  exact ⟨rfl, linked, heap, ends _ (Nat.lt_succ_self _), none⟩

end State

end ScriptLens
