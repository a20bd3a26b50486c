import ScriptLens.Domain.Join
import ScriptLens.Proofs.Object.Join

/-!
# Joins of heaps

Two heaps are joined by a walk along the references that both of them have.
-/

namespace ScriptLens

open List

/-- A step of an access path: to a property, or to the environment of a function. -/
inductive PathStep where
  | key (k : Key)
  | env

namespace Heap

/-- The values that are read along a path from a value.  Environments are entered at the objects that
`via` holds of; anything may be read from any value. -/
inductive Reads (h : Heap) (via : Nat → Prop) : Value → List PathStep → Value → Prop where
  | here {v : Value} : h.Reads via v [] v
  | any {v : Value} {step : PathStep} {path : List PathStep} :
      .top ∈ v.choices → h.Reads via v (step :: path) .top
  | key {v w : Value} {r : Ref} {o : Obj} {k : Key} {path : List PathStep} :
      r ∈ v.refs → h.get? r.target = some o → h.Reads via (o.member k) path w →
      h.Reads via v (.key k :: path) w
  | env {v w : Value} {r : Ref} {o : Obj} {e : Nat} {path : List PathStep} :
      r ∈ v.refs → h.get? r.target = some o → o.env = some e → via r.target →
      h.Reads via (.ref ⟨e, .unbound⟩) path w → h.Reads via v (.env :: path) w

/-- If the objects that `p` holds of are below those of another heap, and lead on to such objects, what is
read from them is below what is read in the other heap. -/
theorem Reads.covered {h heap : Heap} {via p : Nat → Prop} {v w : Value} {path : List PathStep}
    (covers : ∀ i a, p i → h.get? i = some a → ∃ o, heap.get? i = some o ∧ o.Above a ∧
      (via i → ∀ e, a.env = some e → o.env = some e ∧ p e) ∧
      ∀ k, ∀ r ∈ (o.member k).refs, ∀ q ∈ (a.member k).refs, p q.target)
    (reads : h.Reads via v path w) :
  ∀ {u : Value}, u.Above v → (∀ r ∈ u.refs, ∀ q ∈ v.refs, p q.target) →
    ∃ w', heap.Reads (fun _ => True) u path w' ∧ w'.Above w
  := by
  have any (w : Value) : Value.top.Above w := Value.above_of_top (mem_singleton_self _)
  induction reads with
  | here =>
    intro u above _
    exact ⟨u, .here, above⟩
  | any top =>
    intro u above _
    exact ⟨.top, .any (above.top_mem top), any _⟩
  | key reference found _ ih =>
    intro u above inside
    rcases above.ref_mem reference with top | ⟨q, reference', equals⟩
    · exact ⟨.top, .any top, any _⟩
    · obtain ⟨o', found', above', -, next⟩ := covers _ _ (inside q reference' _ reference) found
      obtain ⟨w', reads', covered⟩ := ih (above' _) (next _)
      rw [← (Ref.equal_iff.1 equals).1] at found'
      exact ⟨w', .key reference' found' reads', covered⟩
  | env reference found isEnv enters _ ih =>
    intro u above inside
    rcases above.ref_mem reference with top | ⟨q, reference', equals⟩
    · exact ⟨.top, .any top, any _⟩
    · obtain ⟨o', found', -, env, -⟩ := covers _ _ (inside q reference' _ reference) found
      obtain ⟨isEnv', next⟩ := env enters _ isEnv
      obtain ⟨w', reads', covered⟩ := ih (Value.above_unbound _)
        (fun _ _ q only => mem_singleton.1 only ▸ next)
      rw [← (Ref.equal_iff.1 equals).1] at found'
      exact ⟨w', .env reference' found' isEnv' trivial reads', covered⟩

/-- A heap as joins expect it: nothing that is mentioned is missing, and the objects are as joins
expect them. -/
structure Joinable (h : Heap) : Prop where
  closed : h.Closed
  regular : ∀ i o, h.get? i = some o → o.Regular

def SameEnv (h k : Heap) (i : Nat) : Prop :=
  ∀ a b, h.get? i = some a → k.get? i = some b → a.env = b.env

end Heap

/-! ### One object -/

/-- An object that may be joined with `b`: it is above the object of the heap `first`, if that is there,
and all it has comes from the two. -/
structure Obj.Mixed (useOr : Bool) (first : Heap) (i : Nat) (b o : Obj) : Prop where
  regular : o.Regular
  above : ∀ a, first.get? i = some a → o.Above a
  kept : ∀ a, first.get? i = some a → a.join useOr b = a → o = a
  origin : ∀ k, ∀ r ∈ (o.member k).refs, (∀ j ∈ r.ids, first.Has j) ∨ r ∈ (b.member k).refs
  env : (∀ a, first.get? i = some a → a.env = b.env) → o.env = b.env

/-- An object that has been joined with `b` once or more often. -/
structure Obj.Blend (useOr : Bool) (first : Heap) (i : Nat) (b o : Obj) : Prop
    extends Obj.Mixed useOr first i b o where
  joined : ∃ a : Obj, a.Regular ∧ o = a.join useOr b

namespace Obj

variable {useOr : Bool} {first : Heap} {i : Nat} {a b o : Obj}

theorem targets_of_member {k : Key} {r : Ref} {j : Nat} (reference : r ∈ (o.member k).refs)
    (inside : j ∈ r.ids) : j ∈ o.targets
  := by
  obtain ⟨l, -, listed⟩ := Props.mem_of_get? (get?_of_mem_refs reference)
  apply ref_mem_targets listed reference inside

theorem Blend.above_second (blend : Blend useOr first i b o) (regularB : b.Regular) : o.Above b
  := by
  obtain ⟨a, regularA, rfl⟩ := blend.joined
  apply above_join_right regularA regularB

theorem Blend.refs_equal {k : Key} {r q : Ref} (blend : Blend useOr first i b o)
    (regularB : b.Regular) (mine : r ∈ (o.member k).refs) (other : q ∈ (b.member k).refs) :
  r.equal q = true
  := by
  obtain ⟨a, regularA, rfl⟩ := blend.joined
  apply refs_join_equal regularA regularB mine other

theorem Blend.env_of_some {e : Nat} (blend : Blend useOr first i b o) (isEnv : o.env = some e) :
  b.env = some e
  := by
  obtain ⟨a, -, rfl⟩ := blend.joined
  rw [join_env] at isEnv
  split at isEnv
  · rename_i same
    rw [← same]
    apply isEnv
  · cases isEnv

theorem Mixed.start (joinable : first.Joinable) (found : first.get? i = some a) :
  Mixed useOr first i b a
  := by
  have only : ∀ a', first.get? i = some a' → a' = a := fun a' again =>
    Option.some.inj (again.symm.trans found)
  constructor
  · apply joinable.regular i a found
  · intro a' again
    rw [only a' again]
    apply (joinable.regular i a found).above_refl
  · intro a' again _
    apply (only a' again).symm
  · intro k r reference
    left
    intro j inside
    apply joinable.closed i a found j (targets_of_member reference inside)
  · intro same
    apply same a found

theorem Mixed.copy (regularB : b.Regular) (missing : first.get? i = none) : Mixed useOr first i b b.copy
  := by
  have never : ∀ a, first.get? i ≠ some a := by
    intro a found
    cases missing.symm.trans found
  constructor
  · exact ⟨regularB.distinct, regularB.values⟩
  · exact fun a found => (never a found).elim
  · exact fun a found => (never a found).elim
  · intro k r reference
    right
    apply reference
  · intro _
    rfl

theorem Mixed.join (mixed : Mixed useOr first i b o) (regularB : b.Regular) :
  Blend useOr first i b (o.join useOr b)
  := by
  refine ⟨⟨mixed.regular.join regularB, ?_, ?_, ?_, ?_⟩, o, mixed.regular, rfl⟩
  · intro a found
    apply (above_join_left mixed.regular regularB).trans (mixed.above a found)
  · intro a found same
    rw [mixed.kept a found same, same]
  · intro k r reference
    rcases mem_refs_join mixed.regular regularB reference with left | right
    · apply mixed.origin k r left
    · right
      apply right
  · intro same
    rw [join_env, if_pos (mixed.env same), mixed.env same]

end Obj

/-! ### The walk -/

namespace State

variable {useOr : Bool} {first second heap rest : Heap} {done : Nat → Prop} {work : List Merging}

/-- The steps that follow the join of the object `i` with `b`, which gave `o`. -/
def mergeSteps (i : Nat) (o b : Obj) : List Merging :=
  (match o.env, b.env with
    | some e, some _ => [Merging.edge e]
    | _, _ => []) ++ o.props.map fun p => .property i p.1 (b.get? p.1)

variable {i : Nat} {b o : Obj} {k : Key}

theorem mergeObj_eq {a : Obj} (found : heap.get? i = some a) :
  mergeObj useOr heap i b =
    .ok (heap.insert i (a.join useOr b), mergeSteps i (a.join useOr b) b)
  := by
  rw [mergeObj, found]
  rfl

theorem edge_mem_mergeSteps {e : Nat} (step : .edge e ∈ mergeSteps i o b) : o.env = some e := by
  rcases mem_append.1 step with env | property
  · split at env
    · rename_i e' _ isEnv _
      obtain ⟨rfl⟩ := mem_singleton.1 env
      apply isEnv
    · cases env
  · obtain ⟨p, -, ⟨⟩⟩ := mem_map.1 property

theorem mem_mergeSteps_of_env {e : Nat} (mine : o.env = some e) (other : b.env = some e) :
  .edge e ∈ mergeSteps i o b
  := by
  apply mem_append_left
  rw [mine, other]
  apply mem_singleton_self

theorem property_mem_mergeSteps {j : Nat} {v : Option Value}
    (step : .property j k v ∈ mergeSteps i o b) : j = i ∧ v = b.get? k
  := by
  rcases mem_append.1 step with env | property
  · split at env
    · cases mem_singleton.1 env
    · cases env
  · obtain ⟨p, -, ⟨⟩⟩ := mem_map.1 property
    use rfl

theorem mem_mergeSteps_of_ref {r : Ref} (reference : r ∈ (o.member k).refs) :
  ∃ l, l.same k = true ∧ .property i l (b.get? l) ∈ mergeSteps i o b
  := by
  obtain ⟨l, same, listed⟩ := Props.mem_of_get? (Obj.get?_of_mem_refs reference)
  use l, same
  apply mem_append_right
  exact mem_map.2 ⟨_, listed, rfl⟩

/-- What holds while the heap `second` is joined into the heap `first`: the objects that `done` holds
of have been joined, the others are as before, and all that follows from a joined object is done or
among the steps ahead. -/
structure MergeWalk (useOr : Bool) (first second heap rest : Heap) (done : Nat → Prop)
    (work : List Merging) : Prop where
  kept : ∀ i, first.Has i ∨ done i → heap.Has i
  objects : ∀ i o, heap.get? i = some o →
    (¬ done i ∧ first.get? i = some o) ∨
      (done i ∧ ∃ b, second.get? i = some b ∧ Obj.Blend useOr first i b o)
  unvisited : ∀ i b, rest.get? i = some b → second.get? i = some b
  visited : ∀ i, second.Has i → rest.get? i = none → done i
  edges : ∀ i, .edge i ∈ work → second.Has i
  properties : ∀ i k v, .property i k v ∈ work →
    done i ∧ ∃ b, second.get? i = some b ∧ v = b.get? k
  next : ∀ i b o, done i → second.get? i = some b → heap.get? i = some o →
    ∀ k, ∀ r ∈ (o.member k).refs, ∀ q ∈ (b.member k).refs,
      (∀ j ∈ q.ids, done j ∨ .edge j ∈ work) ∨
        ∃ l, l.same k = true ∧ .property i l (b.get? l) ∈ work
  nextEnv : ∀ i o e, done i → heap.get? i = some o → o.env = some e → done e ∨ .edge e ∈ work

namespace MergeWalk

variable {i : Nat} {b : Obj}

theorem blend {o : Obj} (walk : MergeWalk useOr first second heap rest done work)
    (isDone : done i) (other : second.get? i = some b) (found : heap.get? i = some o) :
  Obj.Blend useOr first i b o
  := by
  rcases walk.objects i o found with ⟨notDone, -⟩ | ⟨-, b', again, blend⟩
  · apply (notDone isDone).elim
  · cases other.symm.trans again
    apply blend

theorem start (first second : Heap) : MergeWalk useOr first second first second (fun _ => False) []
  := by
  constructor
  · rintro i (here | impossible)
    · apply here
    · apply impossible.elim
  · intro i o found
    left
    use id, found
  · intro i b found
    apply found
  · rintro i ⟨b, found⟩ missing
    rw [found] at missing
    cases missing
  · intro i impossible
    cases impossible
  · intro i k v impossible
    cases impossible
  · intro i b o impossible
    apply impossible.elim
  · intro i o e impossible
    apply impossible.elim

theorem blend_join {a : Obj} (joinableA : first.Joinable) (regularB : b.Regular)
    (walk : MergeWalk useOr first second heap rest done work) (other : second.get? i = some b)
    (is : (heap.get? i).getD b.copy = a) : Obj.Blend useOr first i b (a.join useOr b)
  := by
  subst is
  cases found : heap.get? i with
  | none =>
    apply (Obj.Mixed.copy regularB _).join regularB
    rw [Heap.get?_eq_none_iff] at found ⊢
    intro here
    apply found (walk.kept i (.inl here))
  | some a =>
    rcases walk.objects i a found with ⟨-, first⟩ | ⟨isDone, -⟩
    · apply (Obj.Mixed.start joinableA first).join regularB
    · apply (walk.blend isDone other found).toMixed.join regularB

/-- An object is joined: its environment and its properties are the next steps. -/
theorem visit {a : Obj} {heap' rest' : Heap} {ahead : List Merging}
    (joinableA : first.Joinable) (joinableB : second.Joinable)
    (walk : MergeWalk useOr first second heap rest done work) (other : second.get? i = some b)
    (is : (heap.get? i).getD b.copy = a)
    (lookup : ∀ j, heap'.get? j = if i = j then some (a.join useOr b) else heap.get? j)
    (unvisited : ∀ j c, rest'.get? j = some c → rest.get? j = some c)
    (visited : ∀ j, rest'.get? j = none → j = i ∨ rest.get? j = none)
    (later : ∀ w ∈ ahead, w ∈ work) (leaves : ∀ w ∈ work, w = .edge i ∨ w ∈ ahead) :
  MergeWalk useOr first second heap' rest' (fun j => done j ∨ j = i)
    (mergeSteps i (a.join useOr b) b ++ ahead)
  := by
  have blend := walk.blend_join joinableA (joinableB.regular i b other) other is
  have here : heap'.get? i = some (a.join useOr b) := by rw [lookup, if_pos rfl]
  have elsewhere : ∀ j, j ≠ i → heap'.get? j = heap.get? j := by
    intro j differs
    rw [lookup, if_neg (Ne.symm differs)]
  -- what was ahead is still ahead, but for the object itself
  have due : ∀ j, done j ∨ .edge j ∈ work →
      (done j ∨ j = i) ∨ .edge j ∈ mergeSteps i (a.join useOr b) b ++ ahead := by
    rintro j (isDone | step)
    · exact .inl (.inl isDone)
    · rcases leaves _ step with same | step
      · cases same
        exact .inl (.inr rfl)
      · exact .inr (mem_append_right _ step)
  constructor
  case kept =>
    intro j present
    by_cases same : j = i
    · rw [same]
      use a.join useOr b, here
    · rw [Heap.Has, elsewhere j same]
      apply walk.kept
      rcases present with first | isDone | impossible
      · exact .inl first
      · exact .inr isDone
      · apply (same impossible).elim
  case objects =>
    intro j o found
    by_cases same : j = i
    · subst same
      cases here.symm.trans found
      exact .inr ⟨.inr rfl, b, other, blend⟩
    · rw [elsewhere j same] at found
      rcases walk.objects j o found with ⟨notDone, first⟩ | ⟨isDone, joined⟩
      · exact .inl ⟨fun now => now.elim notDone same, first⟩
      · exact .inr ⟨.inl isDone, joined⟩
  case unvisited =>
    intro j c found
    apply walk.unvisited j c (unvisited j c found)
  case visited =>
    intro j present gone
    rcases visited j gone with same | gone
    · exact .inr same
    · exact .inl (walk.visited j present gone)
  case edges =>
    intro j step
    rcases mem_append.1 step with new | old
    · apply joinableB.closed i b other
      apply Obj.env_mem_targets (blend.env_of_some (edge_mem_mergeSteps new))
    · apply walk.edges j (later _ old)
  case properties =>
    intro j k v step
    rcases mem_append.1 step with new | old
    · obtain ⟨rfl, rfl⟩ := property_mem_mergeSteps new
      exact ⟨.inr rfl, b, other, rfl⟩
    · obtain ⟨isDone, partner⟩ := walk.properties j k v (later _ old)
      exact ⟨.inl isDone, partner⟩
  case next =>
    intro j c o isDone partner found k r reference q reference'
    by_cases same : j = i
    · subst same
      right
      cases here.symm.trans found
      cases other.symm.trans partner
      obtain ⟨l, same, step⟩ := mem_mergeSteps_of_ref reference
      exact ⟨l, same, mem_append_left _ step⟩
    · rw [elsewhere j same] at found
      have isDone := isDone.resolve_right same
      rcases walk.next j c o isDone partner found k r reference q reference' with
        followed | ⟨l, spelling, step⟩
      · left
        intro e inside
        apply due e (followed e inside)
      · right
        rcases leaves _ step with impossible | step
        · cases impossible
        · exact ⟨l, spelling, mem_append_right _ step⟩
  case nextEnv =>
    intro j o e isDone found isEnv
    by_cases same : j = i
    · subst same
      right
      cases here.symm.trans found
      apply mem_append_left
      apply mem_mergeSteps_of_env isEnv (blend.env_of_some isEnv)
    · rw [elsewhere j same] at found
      apply due e (walk.nextEnv j o e (isDone.resolve_right same) found isEnv)

theorem replace {work' : List Merging} (walk : MergeWalk useOr first second heap rest done work)
    (edges : ∀ i, .edge i ∈ work' → second.Has i)
    (properties : ∀ i k v, .property i k v ∈ work' → .property i k v ∈ work)
    (due : ∀ i, .edge i ∈ work → done i ∨ .edge i ∈ work')
    (ahead : ∀ i k b o, second.get? i = some b → heap.get? i = some o →
      .property i k (b.get? k) ∈ work → .property i k (b.get? k) ∈ work' ∨
        ∀ r ∈ (o.member k).refs, ∀ q ∈ (b.member k).refs, ∀ j ∈ q.ids, .edge j ∈ work') :
  MergeWalk useOr first second heap rest done work'
  := by
  refine ⟨walk.kept, walk.objects, walk.unvisited, walk.visited, edges, ?_, ?_, ?_⟩
  · intro i k v step
    apply walk.properties i k v (properties i k v step)
  · intro i b o isDone other found k r reference q reference'
    rcases walk.next i b o isDone other found k r reference q reference' with
      followed | ⟨l, spelling, step⟩
    · left
      intro j inside
      rcases followed j inside with before | step
      · exact .inl before
      · apply due j step
    · rcases ahead i l b o other found step with step | leads
      · right
        use l, spelling, step
      · left
        intro j inside
        right
        rw [Obj.member_congr spelling, Obj.member_congr spelling] at leads
        apply leads r reference q reference' j inside
  · intro i o e isDone found isEnv
    rcases walk.nextEnv i o e isDone found isEnv with before | step
    · exact .inl before
    · apply due e step

theorem skip (isDone : done i)
    (walk : MergeWalk useOr first second heap rest done (.edge i :: work)) :
  MergeWalk useOr first second heap rest done work
  := by
  apply walk.replace
  · intro j step
    apply walk.edges j (mem_cons_of_mem _ step)
  · intro j k v step
    apply mem_cons_of_mem _ step
  · intro j step
    rcases mem_cons.1 step with same | step
    · cases same
      exact .inl isDone
    · exact .inr step
  · intro j k b o _ _ step
    left
    apply (mem_cons.1 step).resolve_left nofun

theorem follow {k : Key} {v : Option Value} (joinableB : second.Joinable)
    (walk : MergeWalk useOr first second heap rest done (.property i k v :: work)) :
  ∃ ids, mergeProperty heap i k v = .ok ids ∧ ids.length ≤ 2 ∧
    MergeWalk useOr first second heap rest done (ids.map .edge ++ work)
  := by
  obtain ⟨isDone, b, other, rfl⟩ := walk.properties i k v mem_cons_self
  obtain ⟨o, found⟩ := walk.kept i (.inr isDone)
  have blend := walk.blend isDone other found
  have regularB := joinableB.regular i b other
  have regular := blend.regular
  -- it is enough to go on to what the references under the key name
  have enough : ∀ ids : List Nat, (∀ j ∈ ids, second.Has j) →
      (∀ r ∈ (o.member k).refs, ∀ q ∈ (b.member k).refs, ∀ j ∈ q.ids, j ∈ ids) →
      MergeWalk useOr first second heap rest done (ids.map .edge ++ work) := by
    intro ids present all
    apply walk.replace
    · intro j step
      rcases mem_append.1 step with new | old
      · obtain ⟨j', inside, ⟨⟩⟩ := mem_map.1 new
        apply present j inside
      · apply walk.edges j (mem_cons_of_mem _ old)
    · intro j l w step
      rcases mem_append.1 step with impossible | old
      · obtain ⟨j', -, ⟨⟩⟩ := mem_map.1 impossible
      · apply mem_cons_of_mem _ old
    · intro j step
      right
      apply mem_append_right
      apply (mem_cons.1 step).resolve_left nofun
    · intro j l c p partner found' step
      rcases mem_cons.1 step with same | step
      · right
        obtain ⟨rfl, rfl, -⟩ := Merging.property.inj same
        cases found.symm.trans found'
        cases other.symm.trans partner
        intro r reference q reference' e inside
        apply mem_append_left
        apply mem_map_of_mem (all r reference q reference' e inside)
      · left
        apply mem_append_right _ step
  by_cases both : ∃ r q, r ∈ (o.member k).refs ∧ q ∈ (b.member k).refs
  · obtain ⟨r, q, mine, theirs⟩ := both
    have equals := blend.refs_equal regularB mine theirs
    use r.ids
    refine ⟨?_, r.length_ids_le, enough r.ids ?_ ?_⟩
    · rw [mergeProperty, found, Option.bind_some, Obj.get?_of_mem_refs mine,
        Obj.get?_of_mem_refs theirs, Option.bind_some, Option.bind_some,
        Value.ref?_eq (regular.member k).single mine, Value.ref?_eq (regularB.member k).single theirs]
      exact if_pos equals
    · intro j inside
      rw [Ref.ids_eq_of_equal equals] at inside
      apply joinableB.closed i b other j (Obj.targets_of_member theirs inside)
    · intro r' mine' q' theirs' j inside
      have same := Value.ref?_eq (regular.member k).single mine
      cases same.symm.trans (Value.ref?_eq (regular.member k).single mine')
      rw [Ref.ids_eq_of_equal (blend.refs_equal regularB mine theirs')]
      apply inside
  · use []
    refine ⟨?_, Nat.zero_le 2, enough [] nofun ?_⟩
    · unfold mergeProperty
      split
      · rename_i r q mine theirs
        rw [found, Option.bind_some] at mine
        obtain ⟨v, listed, isRef⟩ := Option.bind_eq_some_iff.1 mine
        obtain ⟨w, listed', isRef'⟩ := Option.bind_eq_some_iff.1 theirs
        apply (both _).elim
        use r, q
        rw [regular.member_of_some listed, regularB.member_of_some listed']
        use Value.ref?_mem isRef, Value.ref?_mem isRef'
      · rfl
    · intro r mine q theirs
      apply (both ⟨r, q, mine, theirs⟩).elim

end MergeWalk

theorem get?_ensure (heap : Heap) (i j : Nat) (b : Obj) :
  (ensure heap i b).get? j = if i = j then some ((heap.get? i).getD b.copy) else heap.get? j
  := by
  unfold ensure
  split
  · rename_i present
    obtain ⟨o, found⟩ := (heap.contains_iff i).1 present
    split
    · rename_i same
      rw [← same, found]
      rfl
    · rfl
  · rename_i missing
    rw [Heap.contains_iff, ← Heap.get?_eq_none_iff] at missing
    rw [Heap.lookup_insert, missing]
    rfl

theorem ensure_eq (present : heap.Has i) : ensure heap i b = heap
  := by rw [ensure, if_pos ((heap.contains_iff i).2 present)]

theorem mergeHeaps_walk (joinableA : first.Joinable) (joinableB : second.Joinable)
    (heap rest : Heap) (work : List Merging) :
  ∀ done, MergeWalk useOr first second heap rest done work →
    ∃ heap' rest' done', mergeHeaps useOr second heap rest work = .ok (heap', rest') ∧
      (∀ i, done i → done' i) ∧ MergeWalk useOr first second heap' rest' done' []
  := by
  have ensured : ∀ (heap : Heap) (i : Nat) (b : Obj),
      (ensure heap i b).get? i = some ((heap.get? i).getD b.copy) := by
    intro heap i b
    rw [get?_ensure, if_pos rfl]
  fun_induction mergeHeaps useOr second heap rest work with
  | case1 heap rest =>
    intro done walk
    exact ⟨heap, rest, done, rfl, fun _ isDone => isDone, walk⟩
  | case2 heap rest i work b present heap1 steps merged ih =>
    intro done walk
    rw [mergeObj_eq (ensured heap i b)] at merged
    cases merged
    obtain ⟨heap', rest', done', result, more, walk'⟩ := ih _
      (walk.visit joinableA joinableB (walk.unvisited i b present) rfl
        (by
          intro j
          rw [Heap.lookup_insert]
          split
          · rfl
          · rename_i differs
            rw [get?_ensure, if_neg differs])
        (fun _ _ => Heap.get?_of_erase)
        (by
          intro j gone
          rw [Heap.lookup_erase] at gone
          split at gone
          · rename_i same
            exact .inl same.symm
          · exact .inr gone)
        (fun w step => mem_cons_of_mem _ step)
        (fun w step => mem_cons.1 step))
    exact ⟨heap', rest', done', result, fun j isDone => more j (.inl isDone), walk'⟩
  | case3 heap rest i work b present e failed =>
    intro done walk
    rw [mergeObj_eq (ensured heap i b)] at failed
    cases failed
  | case4 heap rest i work gone b known ih =>
    intro done walk
    have isDone := walk.visited i ⟨b, known⟩ gone
    rw [ensure_eq (walk.kept i (.inr isDone))] at ih ⊢
    apply ih done (walk.skip isDone)
  | case5 heap rest i work gone unknown =>
    intro done walk
    obtain ⟨b, found⟩ := walk.edges i mem_cons_self
    rw [unknown] at found
    cases found
  | case6 heap rest i key other work none ih =>
    intro done walk
    obtain ⟨ids, result, -, walk'⟩ := walk.follow joinableB
    cases none.symm.trans result
    apply ih done walk'
  | case7 heap rest i key other work j one ih =>
    intro done walk
    obtain ⟨ids, result, -, walk'⟩ := walk.follow joinableB
    cases one.symm.trans result
    apply ih done walk'
  | case8 heap rest i key other work j j' ids several ih =>
    intro done walk
    obtain ⟨ids', result, few, walk'⟩ := walk.follow joinableB
    cases several.symm.trans result
    obtain rfl : ids = [] := by
      apply length_eq_zero_iff.1
      simp only [length_cons] at few
      omega
    apply ih done walk'
  | case9 heap rest i key other work e failed =>
    intro done walk
    obtain ⟨ids, result, -⟩ := walk.follow joinableB
    rw [failed] at result
    cases result

theorem mergeFrom_walk (useOr : Bool) (joinableA : first.Joinable) (joinableB : second.Joinable)
    (roots : List Nat) :
  ∀ heap rest done, MergeWalk useOr first second heap rest done [] →
    (∀ i ∈ roots, first.Has i ∧ second.Has i) →
    ∃ heap' rest' done',
      mergeFrom useOr second heap rest (roots.map fun i => (some i, some i)) = .ok heap' ∧
      (∀ i, done i ∨ i ∈ roots → done' i) ∧ MergeWalk useOr first second heap' rest' done' []
  := by
  induction roots with
  | nil =>
    intro heap rest done walk _
    refine ⟨heap, rest, done, rfl, ?_, walk⟩
    rintro i (isDone | impossible)
    · apply isDone
    · cases impossible
  | cons i roots ih =>
    intro heap rest done walk present
    obtain ⟨⟨hasA, b, other⟩, present⟩ := forall_mem_cons.1 present
    obtain ⟨a, found⟩ := walk.kept i (.inl hasA)
    obtain ⟨heap1, rest1, done1, walked, more, walk1⟩ := mergeHeaps_walk joinableA joinableB _ rest _ _
      (walk.visit (a := a) joinableA joinableB other
        (by
          rw [found]
          rfl)
        (fun j => Heap.lookup_insert heap i j _) (fun _ _ same => same) (fun _ gone => .inr gone)
        (fun _ step => step) (fun _ step => .inr step))
    rw [append_nil] at walked
    obtain ⟨heap', rest', done', result, more', walk'⟩ := ih heap1 rest1 done1 walk1 present
    refine ⟨heap', rest', done', ?_, ?_, walk'⟩
    · rw [map_cons, mergeFrom]
      apply except_bind_eq_ok.2
      use i, rfl
      apply except_bind_eq_ok.2
      use i, rfl
      rw [(heap.contains_iff i).2 ⟨a, found⟩, other]
      apply except_bind_eq_ok.2
      refine ⟨_, mergeObj_eq found, ?_⟩
      apply except_bind_eq_ok.2
      exact ⟨_, walked, result⟩
    · rintro j (isDone | root)
      · apply more' j (.inl (more j (.inl isDone)))
      · rcases mem_cons.1 root with rfl | root
        · apply more' j (.inl (more j (.inr rfl)))
        · apply more' j (.inr root)

/-! ### What is read after the walk -/

namespace MergeWalk

variable {v w : Value} {path : List PathStep}

theorem regular (joinableA : first.Joinable)
    (walk : MergeWalk useOr first second heap rest done work) :
  ∀ i o, heap.get? i = some o → o.Regular
  := by
  intro i o found
  rcases walk.objects i o found with ⟨-, before⟩ | ⟨-, b, -, blend⟩
  · apply joinableA.regular i o before
  · apply blend.regular

theorem closed (joinableA : first.Joinable)
    (walk : MergeWalk useOr first second heap rest done []) : heap.Closed
  := by
  intro i o found j target
  rcases walk.objects i o found with ⟨-, before⟩ | ⟨isDone, b, other, blend⟩
  · apply walk.kept j (.inl (joinableA.closed i o before j target))
  · have regular := walk.regular joinableA i o found
    rcases mem_append.1 target with property | env
    · obtain ⟨⟨k, v⟩, listed, inside⟩ := mem_flatMap.1 property
      obtain ⟨r, reference, inside⟩ := mem_flatMap.1 inside
      rw [← regular.member_of_some (regular.distinct.get?_eq listed)] at reference
      rcases blend.origin k r reference with present | theirs
      · apply walk.kept j (.inl (present j inside))
      · rcases walk.next i b o isDone other found k r reference r theirs with
          followed | ⟨l, -, impossible⟩
        · apply walk.kept j (.inr ((followed j inside).resolve_right nofun))
        · cases impossible
    · obtain isEnv := Option.mem_toList.1 env
      apply walk.kept j (.inr ((walk.nextEnv i o j isDone found isEnv).resolve_right nofun))

theorem covers_first (joinableA : first.Joinable)
    (walk : MergeWalk useOr first second heap rest done [])
    (reads : first.Reads (first.SameEnv second) v path w) {u : Value} (above : u.Above v) :
  ∃ w', heap.Reads (fun _ => True) u path w' ∧ w'.Above w
  := by
  apply reads.covered (p := fun _ => True) _ above (fun _ _ _ _ => trivial)
  intro i o _ found
  obtain ⟨o', found'⟩ := walk.kept i (.inl ⟨o, found⟩)
  use o', found'
  rcases walk.objects i o' found' with ⟨-, before⟩ | ⟨-, b, other, blend⟩
  · cases found.symm.trans before
    exact ⟨(joinableA.regular i o found).above_refl, fun _ e isEnv => ⟨isEnv, trivial⟩,
      fun _ _ _ _ _ => trivial⟩
  · refine ⟨blend.above o found, fun same e isEnv => ⟨?_, trivial⟩, fun _ _ _ _ _ => trivial⟩
    rw [blend.env fun a before => same a b before other, ← same o b found other, isEnv]

theorem covers_second (joinableB : second.Joinable)
    (walk : MergeWalk useOr first second heap rest done [])
    (reads : second.Reads (first.SameEnv second) v path w) {u : Value} (above : u.Above v)
    (joined : ∀ r ∈ u.refs, ∀ q ∈ v.refs, done q.target) :
  ∃ w', heap.Reads (fun _ => True) u path w' ∧ w'.Above w
  := by
  apply reads.covered (p := done) _ above joined
  intro i b isDone other
  obtain ⟨o, found⟩ := walk.kept i (.inr isDone)
  have blend := walk.blend isDone other found
  refine ⟨o, found, blend.above_second (joinableB.regular i b other), ?_, ?_⟩
  · intro same e isEnv
    have isEnv' : o.env = some e := by
      rw [blend.env fun a before => same a b before other, isEnv]
    use isEnv'
    apply (walk.nextEnv i o e isDone found isEnv').resolve_right nofun
  · intro k r mine q theirs
    rcases walk.next i b o isDone other found k r mine q theirs with followed | ⟨l, -, impossible⟩
    · apply (followed _ q.target_mem_ids).resolve_right nofun
    · cases impossible

end MergeWalk

end State

end ScriptLens
