import ScriptLens.Proofs.Heap.Renewal

/-!
# Unification as a renaming

`State.unify` renames the objects of a state after those of another.  It gives the same state up to
an injective choice of numbers exactly if the recorded renaming merges nothing that is reached,
leaves the scopes and the objects in use alone, moves no object onto one that is still to be moved,
and no reference is bound to a primitive value, since that receiver is lost.
-/

namespace ScriptLens

open Choices State Atom Renaming List

def Ref.rename (r : Nat → Nat) (a : Ref) : Ref :=
  ⟨r a.target, match a.this with
    | .object i => .object (r i)
    | this => this⟩

def Atom.rename (r : Nat → Nat) : Atom → Atom
  | .ref a => .ref (a.rename r)
  | a => a

/-- The second value is the first one with the objects it names renamed, where a choice is the set
of its members. -/
def Value.Renames (r : Nat → Nat) : Value → Value → Prop
  | .absent, w => w = .absent
  | .atom a, w => w = .atom (a.rename r)
  | .or s, w => ∃ t, w = .or t ∧
      (∀ a ∈ s, a.rename r ∈ t ∨ mem (a.rename r) t = true) ∧
      ∀ b ∈ t, ∃ a ∈ s, b = a.rename r

/-- The second object is the first one with the objects it names renamed. -/
structure Obj.Renames (r : Nat → Nat) (o o' : Obj) : Prop where
  others : o' = { o with props := o'.props, env := o.env.map r }
  props : Forall₂ (fun p q => p.1 = q.1 ∧ p.2.Renames r q.2) o.props o'.props

/-- The second state is the first one with objects renamed, as far as they are reached: the scopes
and the objects that computations in progress refer to stay where they are. -/
structure State.Renames (r : Nat → Nat) (s s' : State) : Prop where
  others : s' = { s with objs := s'.objs, value := s'.value }
  fixed : ∀ i ∈ s.anchors, r i = i
  objs : ∀ i o, s.Reach i → s.objs.get? i = some o →
    ∃ o', s'.objs.get? (r i) = some o' ∧ o.Renames r o'
  value : s.value.Renames r s'.value

def Value.NoPrimReceiver (v : Value) : Prop := ∀ r ∈ v.refs, ∀ p, r.this ≠ .prim p

instance (a : Receiver) : Decidable (∀ p, a ≠ .prim p) := by
  cases a with
  | prim p => exact .isFalse fun other => other p rfl
  | _ => exact .isTrue fun _ => Receiver.noConfusion

instance (v : Value) : Decidable v.NoPrimReceiver
  := inferInstanceAs (Decidable (∀ r ∈ v.refs, ∀ p, r.this ≠ .prim p))

/-- What a renaming must meet for the objects of a state to be renamed along it and nothing to be
lost. -/
structure Renaming.Faithful (m : Renaming) (s : State) : Prop where
  injective : ∀ i j, s.Reach i → s.Reach j → m.apply i = m.apply j → i = j
  fixed : ∀ i ∈ s.anchors, m.apply i = i
  orderly : m.Orderly
  props : ∀ i o, s.Reach i → s.objs.get? i = some o → ∀ p ∈ o.props, p.2.NoPrimReceiver
  value : s.value.NoPrimReceiver

/-! ### Values -/

namespace Choices

variable {a : Atom}

theorem of_mem_union (t : List Atom) : ∀ s, a ∈ union s t → a ∈ s ∨ a ∈ t := by
  induction t with
  | nil =>
    intro s inside
    left
    apply inside
  | cons b t ih =>
    intro s inside
    rcases ih (insert s b) inside with old | later
    · unfold insert at old
      split at old
      · left
        apply old
      · rcases mem_append.1 old with old | new
        · left
          apply old
        · right
          rw [mem_singleton.1 new]
          apply mem_cons_self
    · right
      apply mem_cons_of_mem _ later

theorem mem_union_left (t : List Atom) : ∀ s, a ∈ s → a ∈ union s t := by
  induction t with
  | nil =>
    intro s inside
    apply inside
  | cons b t ih =>
    intro s inside
    apply ih
    unfold insert
    split
    · apply inside
    · apply mem_append_left _ inside

theorem mem_union_right {t : List Atom} (given : a ∈ t) :
  ∀ s, a ∈ union s t ∨ mem a (union s t) = true
  := by
  induction t with
  | nil => cases given
  | cons b t ih =>
    intro s
    rcases mem_cons.1 given with rfl | later
    · by_cases old : mem a s = true
      · right
        obtain ⟨b, inside, same⟩ := any_eq_true.1 old
        apply any_eq_true.2
        use b, mem_union_left (a :: t) s inside
      · left
        apply mem_union_left t
        rw [insert, if_neg old]
        apply mem_append_right
        apply mem_singleton_self
    · apply ih later

end Choices

theorem Ref.rename_eq_iff (m : Renaming) (a : Ref) :
  renameRef m a = a.rename m.apply ↔ ∀ p, a.this ≠ .prim p
  := by
  obtain ⟨target, this⟩ := a
  cases this <;> simp [renameRef, rename]

variable {a : Atom} {m : Renaming} {r : Ref}

theorem Atom.rename_eq (free : ∀ r, a.ref? = some r → ∀ p, r.this ≠ .prim p) :
  renameAtom m a = a.rename m.apply
  := by
  cases a with
  | ref r => rw [renameAtom, rename, (Ref.rename_eq_iff m r).2 (free r rfl)]
  | _ => rfl

theorem State.renameRef_this (m : Renaming) (a : Ref) (p : Prim) : (renameRef m a).this ≠ .prim p
  := by
  obtain ⟨target, this⟩ := a
  cases this <;> simp [renameRef]

theorem State.receiver_of_mem_renamed {s : List Atom} {q : Ref}
    (inside : .ref q ∈ ofList (s.map (renameAtom m))) (p : Prim) : q.this ≠ .prim p
  := by
  rcases of_mem_union _ _ inside with impossible | inside
  · cases impossible
  · obtain ⟨a, -, is⟩ := mem_map.1 inside
    cases a with
    | ref a =>
      obtain rfl := ref.inj is
      apply renameRef_this
    | _ => cases is

theorem Atom.eq_ref (is : a.ref? = some r) : a = .ref r := by
  cases a with
  | ref q =>
    cases is
    rfl
  | _ => cases is

theorem Atom.same_prim_receiver {b : Atom} {p : Prim} (bound : r.this = .prim p)
    (same : (ref r).same b = true) : ∃ q, b = .ref q ∧ ∃ p', q.this = .prim p'
  := by
  cases b with
  | ref q =>
    use q, rfl
    obtain ⟨target, this⟩ := q
    cases this with
    | prim p' => use p'
    | _ => simp [Atom.same, Ref.same, bound, Receiver.same, Receiver.equal] at same
  | _ => simp [Atom.same, Atom.equal] at same

theorem Ref.rename_congr {r r' : Nat → Nat} {a : Ref} (same : ∀ i ∈ a.ids, r i = r' i) :
  a.rename r = a.rename r'
  := by
  have target := same _ a.target_mem_ids
  obtain ⟨t, this⟩ := a
  cases this with
  | object i => simp only [rename, target, same i (this_mem_ids rfl)]
  | _ => simp only [rename, target]

namespace Value

theorem mem_refs {v : Value} {r : Ref} : r ∈ v.refs ↔ ∃ a ∈ v.choices, a.ref? = some r := by
  rw [refs, mem_filterMap]

theorem renames_renameValue_iff (m : Renaming) (v : Value) :
  v.Renames m.apply (State.renameValue m v) ↔ v.NoPrimReceiver
  := by
  cases v with
  | absent => simp [Renames, State.renameValue, NoPrimReceiver, refs, choices]
  | atom a =>
    cases a with
    | ref r =>
      simp [Renames, State.renameValue, State.renameAtom, Atom.rename, NoPrimReceiver, refs,
        choices, Atom.ref?, Ref.rename_eq_iff]
    | _ =>
      simp [Renames, State.renameValue, State.renameAtom, Atom.rename, NoPrimReceiver, refs,
        choices, Atom.ref?]
  | or s =>
    constructor
    · rintro ⟨t, same, all, -⟩ r reference p bound
      obtain rfl := Value.or.inj same
      obtain ⟨a, inside, is⟩ := mem_refs.1 reference
      obtain rfl := Atom.eq_ref is
      rcases all _ inside with here | held
      · apply State.receiver_of_mem_renamed here p
        simp [Ref.rename, bound]
      · obtain ⟨b, here, same⟩ := any_eq_true.1 held
        obtain ⟨q, rfl, q', is⟩ := Atom.same_prim_receiver (p := p) (by simp [Ref.rename, bound]) same
        apply State.receiver_of_mem_renamed here q' is
    · intro free
      have renamed : s.map (State.renameAtom m) = s.map (Atom.rename m.apply) := by
        apply map_congr_left
        intro a inside
        apply Atom.rename_eq
        intro r is
        apply free r (mem_refs.2 ⟨a, inside, is⟩)
      rw [State.renameValue, renamed]
      use Choices.ofList (s.map (Atom.rename m.apply)), rfl
      constructor
      · intro a inside
        apply Choices.mem_union_right (mem_map_of_mem inside)
      · intro b inside
        rcases Choices.of_mem_union _ _ inside with impossible | inside
        · cases impossible
        · obtain ⟨a, given, rfl⟩ := mem_map.1 inside
          use a, given

theorem Renames.congr {r r' : Nat → Nat} {v w : Value} (renames : v.Renames r w)
    (same : ∀ i ∈ refIds v, r i = r' i) : v.Renames r' w
  := by
  have atoms : ∀ a ∈ v.choices, a.rename r = a.rename r' := by
    intro a inside
    cases a with
    | ref q =>
      have ids : ∀ i ∈ q.ids, r i = r' i := by
        intro i named
        apply same
        apply mem_flatMap.2
        use q, mem_refs.2 ⟨_, inside, rfl⟩
      rw [rename, rename, Ref.rename_congr ids]
    | _ => rfl
  cases v with
  | absent => apply renames
  | atom a =>
    rw [Renames, ← atoms a (mem_singleton_self a)]
    apply renames
  | or s =>
    obtain ⟨t, rfl, all, only⟩ := renames
    use t, rfl
    constructor
    · intro a inside
      rw [← atoms a inside]
      apply all a inside
    · intro b inside
      obtain ⟨a, given, rfl⟩ := only b inside
      use a, given, atoms a given

end Value

namespace Obj

theorem renames_renewed_iff (m : Renaming) (o : Obj) :
  o.Renames m.apply (o.renewed m) ↔ ∀ p ∈ o.props, p.2.NoPrimReceiver
  := by
  have each : Forall₂ (fun p q => p.1 = q.1 ∧ Value.Renames m.apply p.2 q.2) o.props
      (o.renewed m).props ↔ ∀ p ∈ o.props, p.2.NoPrimReceiver := by
    show Forall₂ _ o.props (o.props.map _) ↔ _
    rw [forall₂_map_right_iff, forall₂_same]
    simp only [Value.renames_renameValue_iff, true_and]
  constructor
  · intro renames
    apply each.1 renames.props
  · intro free
    constructor
    · rfl
    · apply each.2 free

theorem Renames.congr {r r' : Nat → Nat} {o o' : Obj} (renames : o.Renames r o')
    (same : ∀ i ∈ o.targets, r i = r' i) : o.Renames r' o'
  := by
  constructor
  · have env : o.env.map r = o.env.map r' := by
      apply Option.map_congr
      intro e is
      apply same e (Obj.env_mem_targets is)
    rw [← env]
    apply renames.others
  · have named : ∀ p ∈ o.props, ∀ i ∈ refIds p.2, r i = r' i := by
      intro p property i member
      apply same
      apply Obj.mem_targets.2
      left
      apply mem_flatMap.2 ⟨p, property, member⟩
    apply Forall₂.imp _ (forall₂_and_left _ _ |>.2 ⟨named, renames.props⟩)
    rintro p q ⟨named, key, value⟩
    use key, value.congr named

end Obj

namespace State

variable {s : State} {m : Renaming} {start next : Nat}

theorem entry_unique (recorded : m.Recorded s.objs s.Reach start next)
    (injective : ∀ i j, s.Reach i → s.Reach j → m.apply i = m.apply j → i = j)
    {a b : Nat × Nat} (inside : a ∈ m) (inside' : b ∈ m) (same : a.2 = b.2) : a = b
  := by
  rcases recorded.origin a inside with reached | fresh
  · rcases recorded.origin b inside' with reached' | fresh
    · have atA := apply_of_mem recorded.functional inside
      have atB := apply_of_mem recorded.functional inside'
      have keys := injective a.1 b.1 reached reached' (by rw [atA, atB, same])
      apply Prod.ext keys same
    · rw [← same] at fresh
      apply recorded.distinct a inside b inside' same fresh
  · apply recorded.distinct a inside b inside' same fresh

variable {h h' : Heap} {t : State} {c : Setting} {n n' : Nat} {r : Nat → Nat}

theorem moveObjects_reached (below : s.objs.Below start)
    (recorded : m.Recorded s.objs s.Reach start next)
    (injective : ∀ i j, s.Reach i → s.Reach j → m.apply i = m.apply j → i = j)
    (orderly : m.Orderly) (moved : moveObjects h m = .ok h') {i : Nat}
    (reached : s.Reach i) (inUse : s.objs.Has i) : h'.get? (m.apply i) = h.get? i
  := by
  rcases mem_or_apply_eq recorded.functional i with entry | ⟨noEntry, same⟩
  · apply moveObjects_arrives h h' moved recorded.functional orderly entry
    intro k entry'
    apply congrArg Prod.fst (entry_unique recorded injective entry' entry rfl)
  · rw [same]
    apply moveObjects_other h h' moved
    rintro ⟨k, l⟩ inside
    constructor
    · rintro rfl
      apply noEntry l inside
    · rintro rfl
      -- An entry that leads to a number in use is about something that is reached.
      rcases recorded.origin _ inside with reached' | fresh
      · have arrives := apply_of_mem recorded.functional inside
        obtain rfl := injective k l reached' reached (by rw [arrives, same])
        apply noEntry k inside
      · apply Nat.not_le.2 (below _ inUse) fresh

theorem orderly_of_reached (below : s.objs.Below start)
    (recorded : m.Recorded s.objs s.Reach start next)
    (injective : ∀ i j, s.Reach i → s.Reach j → m.apply i = m.apply j → i = j)
    (moved : moveObjects h m = .ok h')
    (arrived : ∀ i, s.Reach i → h'.Has (m.apply i)) : m.Orderly
  := by
  apply moveObjects_orderly h h' moved recorded.functional
  intro a inside b inside' meets
  constructor
  · rw [← apply_of_mem recorded.functional inside]
    apply arrived
    rcases recorded.origin a inside with reached | fresh
    · apply reached
    · rw [meets] at fresh
      apply (Nat.not_le.2 (below _ (recorded.inUse b inside')) fresh).elim
  · intro c inside'' same
    apply entry_unique recorded injective inside'' inside same

theorem exists_injective (closed : s.Closed) (below : s.objs.Below start) (le : start ≤ next)
    (recorded : m.Recorded s.objs s.Reach start next)
    (injective : ∀ i j, s.Reach i → s.Reach j → m.apply i = m.apply j → i = j) :
  ∃ r : Nat → Nat, Function.Injective r ∧ ∀ i, s.Reach i → r i = m.apply i
  := by
  classical
  have bounded : ∀ i, s.Reach i → m.apply i < next := by
    intro i reached
    rcases mem_or_apply_eq recorded.functional i with entry | ⟨-, same⟩
    · apply recorded.issued _ entry
    · rw [same]
      apply Nat.lt_of_lt_of_le (below i (closed.has_of_reach reached)) le
  use fun i => if s.Reach i then m.apply i else next + i
  constructor
  · intro i j same
    by_cases reachedI : s.Reach i
    · have lt := bounded i reachedI
      by_cases reachedJ : s.Reach j
      · simp only [reachedI, reachedJ, if_true] at same
        apply injective i j reachedI reachedJ same
      · simp only [reachedI, reachedJ, if_true, if_false] at same
        omega
    · by_cases reachedJ : s.Reach j
      · have lt := bounded j reachedJ
        simp only [reachedI, reachedJ, if_true, if_false] at same
        omega
      · simp only [reachedI, reachedJ, if_false] at same
        omega
  · intro i reached
    apply if_pos reached

def recordedFor (s t : State) : Domain Renaming :=
  matchFrom s t s.objs []
    ((s.lref, t.lref) :: (s.gref, t.gref) :: s.frames.map fun i => (some i, some i))

theorem recordedFor_ok (closedS : s.Closed)
    (closedT : t.Closed) (sameFrames : s.frames = t.frames) (below : t.objs.Below n) :
  ∃ m n', (s.recordedFor t).eval c n = .ok (m, n') ∧ m.Recorded s.objs s.Reach n n' ∧ n ≤ n'
  := by
  apply matchFrom_recorded closedS closedT.heap below _ _ _ _ (fun _ _ => id) .nil (Nat.le_refl n)
  have anchored : ∀ i ∈ s.anchors, s.Reach i := fun i anchor =>
    .root (mem_append_left _ anchor)
  have present : ∀ i ∈ t.anchors, t.objs.Has i := fun i anchor =>
    closedT.roots i (mem_append_left _ anchor)
  obtain ⟨l, isLocal⟩ := closedS.hasLocal
  obtain ⟨g, isGlobal⟩ := closedS.hasGlobal
  obtain ⟨l', isLocal'⟩ := closedT.hasLocal
  obtain ⟨g', isGlobal'⟩ := closedT.hasGlobal
  intro p root
  rcases mem_cons.1 root with rfl | root
  · use l, l', by rw [isLocal, isLocal'], anchored l (by simp [anchors, isLocal])
    apply present l' (by simp [anchors, isLocal'])
  · rcases mem_cons.1 root with rfl | root
    · use g, g', by rw [isGlobal, isGlobal'], anchored g (by simp [anchors, isGlobal])
      apply present g' (by simp [anchors, isGlobal'])
    · obtain ⟨i, frame, rfl⟩ := mem_map.1 root
      use i, i, rfl, anchored i (by simp [anchors, frame])
      apply present i (by simp [anchors, ← sameFrames, frame])

theorem unify_eval {u : State} (sameLocal : s.lref = t.lref) (sameFrames : s.frames = t.frames)
    (on : c.options.useUnify = true) (found : (s.recordedFor t).eval c n = .ok (m, n'))
    (renamed : s.renameRefs m = .ok u) (moved : moveObjects u.objs m = .ok h) :
  (s.unify t).eval c n = .ok ({ u with objs := h }, n')
  := by
  rw [unify, Domain.eval_bind_ok (Domain.eval_options c n), on]
  have same : (s.lref != t.lref || s.frames != t.frames) = false := by
    rw [sameLocal, sameFrames]
    simp
  rw [same]
  show (s.recordedFor t >>= _).eval c n = _
  rw [Domain.eval_bind_ok found, Domain.eval_lift_bind_ok renamed, Domain.eval_lift_bind_ok moved]
  rfl

theorem unify_ok (closed : s.Closed)
    (sameLocal : s.lref = t.lref) (sameFrames : s.frames = t.frames)
    (on : c.options.useUnify = true) (found : (s.recordedFor t).eval c n = .ok (m, n'))
    (recorded : m.Recorded s.objs s.Reach n n') (keep : s.EnvsKept m) :
  ∃ h h', (∀ i o, s.Reach i → s.objs.get? i = some o → h.get? i = some (o.renewed m)) ∧
    moveObjects h m = .ok h' ∧
    (s.unify t).eval c n = .ok ({ s with objs := h', value := renameValue m s.value }, n')
  := by
  obtain ⟨h, renamed, has, renewed⟩ := renameRefs_spec closed keep
  obtain ⟨h', moved⟩ := moveObjects_ok recorded.functional h
    (fun a inside => (has a.1).2 (recorded.inUse a inside))
  exact ⟨h, h', renewed, moved, unify_eval sameLocal sameFrames on found renamed moved⟩

theorem faithful_of_renames {s' : State}
    (closed : s.Closed) (below : s.objs.Below n) (recorded : m.Recorded s.objs s.Reach n n')
    (renewed : ∀ i o, s.Reach i → s.objs.get? i = some o → h.get? i = some (o.renewed m))
    (moved : moveObjects h m = .ok s'.objs) (value : s'.value = renameValue m s.value)
    (injective : Function.Injective r) (agrees : ∀ i, s.Reach i → r i = m.apply i)
    (renames : s.Renames r s') : m.Faithful s
  := by
  have injOn : ∀ i j, s.Reach i → s.Reach j → m.apply i = m.apply j → i = j := by
    intro i j reachedI reachedJ same
    apply injective
    rw [agrees i reachedI, agrees j reachedJ, same]
  have orderly : m.Orderly := by
    apply orderly_of_reached below recorded injOn moved
    intro i reached
    obtain ⟨o, inUse⟩ := closed.has_of_reach reached
    obtain ⟨o', arrived, -⟩ := renames.objs i o reached inUse
    rw [← agrees i reached]
    use o'
  constructor
  · apply injOn
  · intro i anchor
    rw [← agrees i (.root (mem_append_left _ anchor))]
    apply renames.fixed i anchor
  · apply orderly
  · intro i o reached inUse
    obtain ⟨o', arrived, renamesO⟩ := renames.objs i o reached inUse
    have arrives := moveObjects_reached below recorded injOn orderly moved reached ⟨o, inUse⟩
    rw [← agrees i reached, renewed i o reached inUse] at arrives
    cases arrived.symm.trans arrives
    apply (Obj.renames_renewed_iff m o).1
    apply renamesO.congr
    intro j target
    apply agrees j (reached.target inUse target)
  · apply (Value.renames_renameValue_iff m s.value).1
    rw [← value]
    apply renames.value.congr
    intro i named
    apply agrees i (.root (mem_append_right _ named))

theorem renames_of_faithful (below : s.objs.Below n) (recorded : m.Recorded s.objs s.Reach n n')
    (renewed : ∀ i o, s.Reach i → s.objs.get? i = some o → h.get? i = some (o.renewed m))
    (moved : moveObjects h m = .ok h') (agrees : ∀ i, s.Reach i → r i = m.apply i)
    (faithful : m.Faithful s) : s.Renames r { s with objs := h', value := renameValue m s.value }
  := by
  constructor
  · rfl
  · intro i anchor
    rw [agrees i (.root (mem_append_left _ anchor))]
    apply faithful.fixed i anchor
  · intro i o reached inUse
    use o.renewed m
    constructor
    · rw [agrees i reached]
      show h'.get? _ = _
      rw [moveObjects_reached below recorded faithful.injective faithful.orderly moved reached
        ⟨o, inUse⟩, renewed i o reached inUse]
    · apply ((Obj.renames_renewed_iff m o).2 (faithful.props i o reached inUse)).congr
      intro j target
      rw [agrees j (reached.target inUse target)]
  · apply ((Value.renames_renameValue_iff m s.value).2 faithful.value).congr
    intro i named
    rw [agrees i (.root (mem_append_right _ named))]

/-- Unification gives the state renamed along the recorded numbers exactly if the recorded renaming
is faithful. -/
theorem unify_renames_iff {s t : State} {c : Setting} {n : Nat} (closedS : s.Closed)
    (closedT : t.Closed) (sameLocal : s.lref = t.lref) (sameFrames : s.frames = t.frames)
    (on : c.options.useUnify = true) (belowS : s.objs.Below n) (belowT : t.objs.Below n) :
  ∃ m n', (s.recordedFor t).eval c n = .ok (m, n') ∧ (s.EnvsKept m →
    ((∃ s' r, (s.unify t).eval c n = .ok (s', n') ∧ Function.Injective r ∧
      (∀ i, s.Reach i → r i = m.apply i) ∧ s.Renames r s') ↔ m.Faithful s))
  := by
  obtain ⟨m, n', found, recorded, le⟩ := recordedFor_ok closedS closedT sameFrames belowT
  use m, n', found
  intro keep
  obtain ⟨h, h', renewed, moved, unified⟩ :=
    unify_ok closedS sameLocal sameFrames on found recorded keep
  constructor
  · rintro ⟨s', r, unified', injective, agrees, renames⟩
    cases unified.symm.trans unified'
    apply faithful_of_renames closedS belowS recorded renewed moved rfl injective agrees renames
  · intro faithful
    obtain ⟨r, injective, agrees⟩ :=
      exists_injective closedS belowS le recorded faithful.injective
    use { s with objs := h', value := renameValue m s.value }, r, unified, injective, agrees
    apply renames_of_faithful belowS recorded renewed moved agrees faithful

/-! ### Sample states -/

/-- A state in the global scope `0`, which keeps a value under one name, with further
objects. -/
def sample (v : Value) (others : List (Nat × Obj)) : State :=
  { objs := others.foldl (fun h p => h.insert p.1 p.2)
      (({} : Heap).insert 0 { unknownObj with props := [("g", v)] })
    gref := some 0, lref := some 0, isBottom := false, value := .top }

theorem scope_sample {v : Value} {others : List (Nat × Obj)} (free : 0 ∉ others.map Prod.fst) :
  (sample v others).objs.get? 0 = some { unknownObj with props := [("g", v)] }
  := by
  have kept (h : Heap) : (others.foldl (fun h p => h.insert p.1 p.2) h).get? 0 = h.get? 0 := by
    induction others generalizing h with
    | nil => rfl
    | cons p others ih =>
      rw [map_cons, mem_cons, not_or] at free
      rw [foldl_cons, ih free.2, Heap.lookup_insert, if_neg (Ne.symm free.1)]
  exact (kept _).trans (by rw [Heap.lookup_insert, if_pos rfl])

/-- Two states that call the same object by different numbers are unified. -/
theorem unify_renames_sample :
  ∃ s' r, ((sample (.ref ⟨1, .unbound⟩) [(1, {})]).unify
      (sample (.ref ⟨3, .unbound⟩) [(3, {})])).eval {} 4 = .ok (s', 4) ∧
    Function.Injective r ∧ (sample (.ref ⟨1, .unbound⟩) [(1, {})]).Renames r s'
  := by
  obtain ⟨m, n', found, renames⟩ := unify_renames_iff (c := {}) (n := 4)
    (s := sample (.ref ⟨1, .unbound⟩) [(1, {})]) (t := sample (.ref ⟨3, .unbound⟩) [(3, {})])
    ⟨rfl, ⟨0, rfl⟩, ⟨0, rfl⟩, by decide +kernel, by decide +kernel⟩
    ⟨rfl, ⟨0, rfl⟩, ⟨0, rfl⟩, by decide +kernel, by decide +kernel⟩ rfl rfl rfl
    (by decide +kernel) (by decide +kernel)
  have evaluated : ((sample (.ref ⟨1, .unbound⟩) [(1, {})]).recordedFor
      (sample (.ref ⟨3, .unbound⟩) [(3, {})])).eval {} 4 = .ok ([(1, 3)], 4) := by
    decide +kernel
  cases found.symm.trans evaluated
  have targets : ∀ i o, (sample (.ref ⟨1, .unbound⟩) [(1, {})]).objs.get? i = some o →
      ∀ j ∈ o.targets, j ∈ [0, 1] := Heap.forall_objs_iff.2 (by decide +kernel)
  have inside {i : Nat} (reached : (sample (.ref ⟨1, .unbound⟩) [(1, {})]).Reach i) :
      i = 0 ∨ i = 1 :=
    mem_pair.1 (reached.mem_of_closed (by decide) fun i o _ => targets i o)
  have faithful : Faithful [(1, 3)] (sample (.ref ⟨1, .unbound⟩) [(1, {})]) := by
    constructor
    · intro i j reachedI reachedJ
      rcases inside reachedI with rfl | rfl <;> rcases inside reachedJ with rfl | rfl <;>
        simp [apply]
    · decide
    · apply pairwise_singleton
    · have checked : ∀ i o, (sample (.ref ⟨1, .unbound⟩) [(1, {})]).objs.get? i = some o →
          ∀ p ∈ o.props, p.2.NoPrimReceiver := Heap.forall_objs_iff.2 (by decide +kernel)
      exact fun i o _ => checked i o
    · decide
  obtain ⟨s', r, unified, injective, -, renamed⟩ :=
    (renames (by unfold EnvsKept; decide +kernel)).2 faithful
  use s', r

/-- A reference that is bound to a primitive value is unbound afterwards, even if the two states
are alike. -/
theorem unify_unbinds :
  let s := sample (.ref ⟨1, .prim (.text "x")⟩) [(1, {})]
  let t := sample (.ref ⟨1, .prim (.text "x")⟩) [(2, unknownObj), (3, unknownObj), (1, {})]
  s.Closed ∧ t.Closed ∧ s.lref = t.lref ∧ s.frames = t.frames ∧
    s.objs.Below 4 ∧ t.objs.Below 4 ∧
    ∃ s', (s.unify t).eval {} 4 = .ok (s', 4) ∧ ¬ ∃ r, s.Renames r s'
  := by
  intro s t
  have closedS : s.Closed := ⟨rfl, ⟨0, rfl⟩, ⟨0, rfl⟩, by decide +kernel, by decide +kernel⟩
  have closedT : t.Closed := ⟨rfl, ⟨0, rfl⟩, ⟨0, rfl⟩, by decide +kernel, by decide +kernel⟩
  have belowT : t.objs.Below 4 := by decide +kernel
  use closedS, closedT, rfl, rfl, by decide +kernel, belowT
  obtain ⟨m, n', found, recorded, -⟩ := recordedFor_ok (c := {}) closedS closedT rfl belowT
  have evaluated : (s.recordedFor t).eval {} 4 = .ok ([], 4) := by decide +kernel
  cases found.symm.trans evaluated
  obtain ⟨h, h', renewed, moved, unified⟩ :=
    unify_ok (t := t) closedS rfl rfl rfl found recorded (by unfold EnvsKept; decide +kernel)
  cases moved
  use { s with objs := h, value := renameValue [] s.value }, unified
  rintro ⟨r, renames⟩
  have anchor : 0 ∈ s.anchors := mem_cons_self
  have scope : s.objs.get? 0 = some _ := scope_sample (by decide)
  have reached : s.Reach 0 := .root (mem_append_left _ anchor)
  obtain ⟨o', arrived, renamed⟩ := renames.objs 0 _ reached scope
  rw [renames.fixed 0 anchor] at arrived
  cases arrived.symm.trans (renewed 0 _ reached scope)
  obtain ⟨⟨-, value⟩, -⟩ := forall₂_cons.1 renamed.props
  have receiver := congrArg Ref.this (ref.inj (Value.atom.inj value))
  cases receiver

end State

end ScriptLens
