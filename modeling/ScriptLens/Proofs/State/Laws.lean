import ScriptLens.Proofs.State.Compare
import ScriptLens.Proofs.State.Join

/-!
# Laws of joins

A copy of a state is equal to it, a state joined into bottom is what it was, and so is a state that is
joined with bottom or with its own copy.  Copies, comparisons, renamings and joins walk over a heap each
in its own way; that they come to the same objects is what the laws rest on.
-/

open List

namespace ScriptLens

/-! ### Values and objects -/

namespace Choices

variable {s t : List Atom}

theorem union_eq_append (separate : Separate (s ++ t)) : union s t = s ++ t := by
  induction t generalizing s with
  | nil => exact (append_nil s).symm
  | cons a t ih =>
    have apart : mem a s = false := by
      refine Bool.eq_false_iff.2 fun inside => ?_
      obtain ⟨b, member, alike⟩ := any_eq_true.1 inside
      have differs := (pairwise_append.1 separate).2.2 b member a mem_cons_self
      exact Bool.eq_false_iff.1 differs (Atom.same_symm alike)
    have next : insert s a = s ++ [a] := by
      rw [insert, apart]
      rfl
    rw [append_cons] at separate ⊢
    rw [← ih separate, ← next]
    rfl

theorem ofList_eq_self (separate : Separate s) : ofList s = s
  := union_eq_append (s := []) separate

end Choices

namespace Value

variable {v : Value}

theorem equal_self (proper : ∀ a ∈ v.choices, a.equal a = true) : v.equal v = true := by
  cases v with
  | absent => rfl
  | atom a => exact proper a (mem_singleton_self a)
  | or s =>
    have all : (s.all fun a => Choices.mem a s) = true := all_eq_true.2 fun a inside =>
      any_eq_true.2 ⟨a, inside, Atom.same_of_equal (proper a inside)⟩
    exact Bool.and_eq_true_iff.2 ⟨all, all⟩

theorem same_self (proper : ∀ a ∈ v.choices, a.equal a = true) : v.same v = true := by
  cases v with
  | atom a => exact Atom.same_of_equal (proper a (mem_singleton_self a))
  | _ => exact equal_self proper

/-- A value without receivers that are primitive is not changed by a renaming that renames nothing. -/
theorem Regular.renameValue_nil (regular : v.Regular) (free : v.NoPrimReceiver) :
  State.renameValue [] v = v
  := by
  have atom (a : Atom) (inside : a ∈ v.choices) : State.renameAtom [] a = a := by
    cases a with
    | ref r =>
      obtain ⟨target, this⟩ := r
      cases this with
      | prim p => exact absurd rfl (free _ (mem_refs.2 ⟨_, inside, rfl⟩) p)
      | _ => rfl
    | _ => rfl
  cases v with
  | absent => rfl
  | atom a => rw [State.renameValue, atom a (mem_singleton_self a)]
  | or s =>
    have same : s.map (State.renameAtom []) = s := (map_congr_left atom).trans (map_id s)
    rw [State.renameValue, same, Choices.ofList_eq_self]
    exact (Choices.distinct_iff_separate regular.proper).1 regular.distinct

end Value

namespace Obj

variable {o a : Obj}

theorem sameBody_self (body : Option Tree) : sameBody body body = true := by
  cases body with
  | none => rfl
  | some t => exact beq_self_eq_true _

theorem Regular.equal_self (regular : o.Regular) : o.equal o = true := by
  have props : o.props.equal o.props = true := by
    rw [Props.equal, beq_self_eq_true, Bool.true_and, all_eq_true]
    intro p listed
    rw [regular.distinct.get?_eq (k := p.1) (v := p.2) listed]
    exact Value.same_self (regular.values p listed).proper
  rw [equal, props, sameBody_self, sameParams]
  simp only [beq_self_eq_true, Bool.and_self]

theorem Regular.equal_of_copy (regular : a.Regular) (alike : o.copy = a.copy) : o.equal a = true := by
  have same : o.equal a = a.copy.equal a := by
    rw [← alike]
    rfl
  exact same.trans regular.equal_self

theorem edges_of_copy (alike : o.copy = a.copy) : o.edges = a.edges := by
  change o.copy.edges = a.copy.edges
  rw [alike]

section

variable {ps : Props} {useOr : Bool}
  (values : ∀ p ∈ ps, ps.get? p.1 = some p.2 ∧ joinValues useOr p.2 p.2 = p.2)

include values

theorem joinKnown_self : joinKnown useOr ps ps = ps := by
  rw [joinKnown]
  refine (filterMap_congr fun p listed => ?_).trans filterMap_some
  rw [(values p listed).1, Option.map_some, (values p listed).2]

theorem joinAll_self : joinAll useOr ps ps = ps := by
  rw [joinAll]
  refine (congrArg₂ HAppend.hAppend (?_ : _ = ps) (?_ : _ = [])).trans (append_nil ps)
  · refine (map_congr_left fun p listed => ?_).trans (map_id ps)
    rw [(values p listed).1]
    exact Prod.ext rfl (values p listed).2
  · refine filterMap_eq_nil_iff.2 fun q listed => if_pos ?_
    rw [Props.contains, (values q listed).1]
    rfl

end

/-- A join with a copy changes nothing. -/
theorem Regular.join_copy (regular : o.Regular) (useOr : Bool) : o.join useOr o.copy = o := by
  have values (p : Key × Value) (listed : p ∈ o.props) : o.props.get? p.1 = some p.2 ∧
      joinValues useOr p.2 p.2 = p.2 := by
    refine ⟨regular.distinct.get?_eq listed, if_pos ?_⟩
    exact Value.equal_self (regular.values p listed).proper
  have known := joinKnown_self values
  have all := joinAll_self values
  have body : sameBody o.body o.body = true := sameBody_self o.body
  obtain ⟨ps, body, params, env, native, missing, isExpr, isPure, length, span⟩ := o
  dsimp only at known all body
  cases missing <;> simp [Obj.join, copy, body, known, all]

end Obj

/-! ### States that are equal -/

theorem Heap.Leads.mono {h : Heap} {roots roots' : List Nat} {i : Nat} (more : roots ⊆ roots')
    (leads : h.Leads roots i) : h.Leads roots' i
  := leads.mem_of_closed (fun _ root => .root (more root)) fun _ _ inside found _ edge =>
    .step inside found edge

namespace State

open Domain

/-- A state that is not bottom, in which nothing that is mentioned is missing, and which holds no NaN, no
reference that is bound to a primitive value and no choice between references.  The objects before the
program are there. -/
structure Lawful (s : State) (roots : List Nat) : Prop where
  closed : s.Closed
  objs : ∀ i o, s.objs.get? i = some o → o.Regular ∧ ∀ p ∈ o.props, p.2.NoPrimReceiver
  value : s.value.Regular ∧ s.value.NoPrimReceiver
  numbered : ∀ i < roots.length, s.objs.Has i

variable {s t u : State} {c : Setting} {n : Nat} {i : Nat}

namespace Lawful

variable {roots : List Nat} (lawful : s.Lawful roots)

include lawful

theorem joinable : s.Joinable where
  notBottom := lawful.closed.notBottom
  hasLocal := lawful.closed.hasLocal
  hasGlobal := lawful.closed.hasGlobal
  heap := ⟨lawful.closed.heap, fun i o found => (lawful.objs i o found).1⟩
  anchors i anchor := lawful.closed.roots i (mem_append_left _ anchor)

theorem plain : s.objs.Plain := by
  intro i o found
  obtain ⟨regular, -⟩ := lawful.objs i o found
  exact ⟨regular.isProper, fun p listed => (regular.values p listed).single⟩

theorem has_of_leads (leads : s.objs.Leads s.anchors i) : s.objs.Has i
  := leads_present lawful.closed.heap lawful.joinable.anchors leads

/-- A state that differs only in objects that a copy does not come to is equal. -/
theorem equal_of_agree {h : Heap} (agree : ∀ i, s.objs.Leads s.anchors i → h.AgreeAt s.objs i) :
  equal { s with objs := h } s = .ok true
  := by
  have kept {i : Nat} (leads : s.objs.Leads s.anchors i) : ∃ o a, h.get? i = some o ∧
      s.objs.get? i = some a ∧ o.copy = a.copy := by
    obtain ⟨a, found⟩ := lawful.has_of_leads leads
    have same := agree i leads
    rw [Heap.AgreeAt, found, Option.map_some] at same
    obtain ⟨o, found', alike⟩ := Option.map_eq_some_iff.1 same
    exact ⟨o, a, found', found, alike⟩
  have leads {i : Nat} (onward : h.Leads s.anchors i) : s.objs.Leads s.anchors i := by
    refine onward.mem_of_closed (fun i anchor => .root anchor) fun i o leads found j edge => ?_
    obtain ⟨o', a, found', there, alike⟩ := kept leads
    cases found.symm.trans found'
    rw [Obj.edges_of_copy alike] at edge
    exact .step leads there edge
  refine equal_of_matched lawful.closed.notBottom lawful.closed.notBottom lawful.closed.hasLocal
    lawful.closed.hasGlobal ⟨rfl, rfl, rfl, Value.equal_self lawful.value.1.proper, rfl⟩
    (fun i o onward found => ?_) fun i onward => ?_
  · obtain ⟨o', a, found', there, alike⟩ := kept (leads onward)
    cases found.symm.trans found'
    have proper : a.copy.Proper := (lawful.objs i a there).1.isProper
    rw [← alike] at proper
    exact proper
  · obtain ⟨o, a, found, there, alike⟩ := kept (leads onward)
    exact ⟨o, found, a, there, (lawful.objs i a there).1.equal_of_copy alike⟩

end Lawful

/-! ### Copies -/

theorem copied_of_leads (leads : s.objs.Leads s.anchors i) : t.Copied s c.roots i
  := .inl (leads.mono (subset_append_left _ _))

/-- Whatever a state was before, it is equal to the one that it is made like. -/
theorem Lawful.assign_equal (lawful : s.Lawful c.roots) (t : State) :
  ∃ h, (t.assign s).eval c n = .ok ({ s with objs := h }, n) ∧ equal { s with objs := h } s = .ok true ∧
    (∀ i, t.Copied s c.roots i → h.get? i = (s.objs.get? i).map Obj.copy) ∧
    ∀ i, ¬ t.Copied s c.roots i → h.get? i = t.objs.get? i
  := by
  obtain ⟨u, made, others, copied, kept⟩ :=
    assign_copies (s := t) (n := n) lawful.closed lawful.value.1.present lawful.numbered
  refine ⟨u.objs, others ▸ made, lawful.equal_of_agree fun i leads => ?_, copied, kept⟩
  rw [Heap.AgreeAt, copied i (copied_of_leads leads), Option.map_map]
  rfl

theorem Copied.edge {o : Obj} {roots : List Nat} {j : Nat} (copied : t.Copied s roots i)
    (found : s.objs.get? i = some o) (edge : j ∈ o.edges) : t.Copied s roots j
  := by
  rcases copied with leads | ⟨r, isRef, missing, apart, leads⟩
  · exact .inl (.step leads found edge)
  · exact .inr ⟨r, isRef, missing, apart, .step leads found edge⟩

theorem Lawful.has_of_copied (lawful : s.Lawful c.roots) (copied : t.Copied s c.roots i) : s.objs.Has i := by
  rcases copied with leads | ⟨r, isRef, -, -, leads⟩
  · refine leads_present lawful.closed.heap (fun j root => ?_) leads
    rcases mem_append.1 root with anchor | number
    · exact lawful.joinable.anchors j anchor
    · exact lawful.numbered j (mem_range.1 number)
  · refine leads_present lawful.closed.heap (fun j name => ?_) leads
    exact lawful.closed.roots j (mem_append_right _ (mem_flatMap.2 ⟨r, Value.ref?_mem isRef, name⟩))

/-- The state that a copy starts from has two scopes with nothing in them. -/
theorem fresh_eval (c : Setting) (n : Nat) :
  ∃ t, (fresh false).eval c n = .ok (t, n + 2) ∧ ∀ i o, t.objs.get? i = some o → o = unknownObj
  := by
  refine ⟨_, rfl, fun i o found => ?_⟩
  rw [Heap.lookup_insert, Heap.lookup_insert] at found
  split at found
  · exact (Option.some.inj found).symm
  split at found
  · exact (Option.some.inj found).symm
  · cases found

/-- A copy, with two objects left over from the state that it starts from, is as joins expect it. -/
theorem Lawful.clone_joinable (lawful : s.Lawful c.roots) (n : Nat) :
  ∃ h, s.clone.eval c n = .ok ({ s with objs := h }, n + 2) ∧ equal { s with objs := h } s = .ok true ∧
    Joinable { s with objs := h } ∧
    ∀ i, s.objs.Leads s.anchors i → h.get? i = (s.objs.get? i).map Obj.copy
  := by
  obtain ⟨start, started, unknown⟩ := fresh_eval c n
  obtain ⟨h, made, equals, copied, kept⟩ := lawful.assign_equal (n := n + 2) start
  refine ⟨h, by rw [clone, eval_bind_ok started, made], equals, ?_,
    fun i leads => copied i (copied_of_leads leads)⟩
  have has {i : Nat} (isCopied : start.Copied s c.roots i) : h.Has i := by
    obtain ⟨a, found⟩ := lawful.has_of_copied isCopied
    exact ⟨a.copy, by rw [copied i isCopied, found]; rfl⟩
  -- an object of the copy is a copy, or has nothing in it
  have origin {i : Nat} {o : Obj} (found : h.get? i = some o) :
      (∃ a, start.Copied s c.roots i ∧ s.objs.get? i = some a ∧ o = a.copy) ∨ o = unknownObj := by
    by_cases isCopied : start.Copied s c.roots i
    · obtain ⟨a, there⟩ := lawful.has_of_copied isCopied
      rw [copied i isCopied, there] at found
      exact .inl ⟨a, isCopied, there, (Option.some.inj found).symm⟩
    · rw [kept i isCopied] at found
      exact .inr (unknown i o found)
  refine ⟨lawful.closed.notBottom, lawful.closed.hasLocal, lawful.closed.hasGlobal,
    ⟨fun i o found j target => ?_, fun i o found => ?_⟩, fun i anchor => has (copied_of_leads (.root anchor))⟩
  · rcases origin found with ⟨a, isCopied, there, rfl⟩ | rfl
    · exact has (isCopied.edge there (lawful.plain.edge_of_target there target))
    · cases target
  · rcases origin found with ⟨a, -, there, rfl⟩ | rfl
    · obtain ⟨regular, -⟩ := lawful.objs i a there
      exact ⟨regular.distinct, regular.values⟩
    · exact ⟨.nil, nofun⟩

/-! ### The join with a copy -/

theorem IdSet.inter_self (ids : IdSet) : ids.inter ids = ids := by
  rw [IdSet.inter]
  congr
  exact filter_eq_self.2 fun i inside => contains_iff_mem.2 inside

section

variable {h : Heap} (lawful : s.Lawful c.roots)
  (copied : ∀ i, s.objs.Leads s.anchors i → h.get? i = (s.objs.get? i).map Obj.copy)

include lawful copied

/-- Where a state is renamed to agree with a copy of itself, nothing is renamed. -/
theorem Lawful.unify_copy (n : Nat) :
  ∃ h', (s.unify { s with objs := h }).eval c n = .ok ({ s with objs := h' }, n) ∧
    ∀ i, h'.get? i = s.objs.get? i
  := by
  cases on : c.options.useUnify with
  | false =>
    refine ⟨s.objs, ?_, fun _ => rfl⟩
    rw [unify, eval_bind_ok (eval_options c n), on]
    rfl
  | true =>
    obtain ⟨l, isLocal⟩ := lawful.closed.hasLocal
    obtain ⟨g, isGlobal⟩ := lawful.closed.hasGlobal
    have even (i : Nat) (a b : Obj) (leads : s.objs.Leads s.anchors i) (found : s.objs.get? i = some a)
        (other : h.get? i = some b) (w : Matching) (member : w ∈ a.matching b) :
        w.first = w.second ∧ s.objs.Leads s.anchors w.first := by
      rw [copied i leads, found] at other
      obtain rfl := Option.some.inj other
      refine ⟨Obj.even_matching rfl (fun p listed r q isRef isRef' => ?_) member, ?_⟩
      · have here : a.get? p.1 = some p.2 := (lawful.objs i a found).1.distinct.get?_eq listed
        rw [here, Option.bind_some, isRef] at isRef'
        exact Option.some.inj isRef'
      · exact .step leads found (lawful.plain.edge_of_target found (Obj.mem_matching member).1)
    have matched : (s.recordedFor { s with objs := h }).eval c n = .ok ([], n) := by
      have starts : ∀ i ∈ l :: g :: s.frames, s.objs.Leads s.anchors i := by
        intro i start
        refine .root (mem_anchors.2 ?_)
        rcases mem_cons.1 start with rfl | start
        · exact .inl isLocal
        rcases mem_cons.1 start with rfl | frame
        · exact .inr (.inl isGlobal)
        · exact .inr (.inr (.inr frame))
      have roots : (s.lref, s.lref) :: (s.gref, s.gref) :: s.frames.map (fun i => (some i, some i)) =
          (l :: g :: s.frames).map fun i => (some i, some i) := by
        rw [isLocal, isGlobal]
        rfl
      rcases matchFrom_even (c := c) (m := []) (n := n) (t := { s with objs := h }) even (l :: g :: s.frames)
        s.objs (fun _ _ => id) starts with walked | ⟨-, i, leads, missing⟩
      · exact (congrArg (fun l => (matchFrom s _ s.objs [] l).eval c n) roots).trans walked
      · obtain ⟨a, found⟩ := lawful.has_of_leads leads
        refine absurd ⟨⟨a, found⟩, a.copy, ?_⟩ missing
        rw [copied i leads, found]
        rfl
    obtain ⟨h1, renamed, -⟩ := renameRefs_spec (m := []) lawful.closed fun i _ => by
      cases s.objs.envOf i <;> rfl
    have still (i : Nat) (o : Obj) (found : s.objs.get? i = some o) :
        o.mapProps (renameValue []) = o := by
      obtain ⟨regular, free⟩ := lawful.objs i o found
      have props : ∀ p ∈ o.props, (p.1, renameValue [] p.2) = p := fun p listed =>
        Prod.ext rfl ((regular.values p listed).renameValue_nil (free p listed))
      rw [Obj.mapProps, map_congr_left props, map_id']
    obtain ⟨h', same, kept⟩ := renameRefs_nil still renamed
    refine ⟨h', ?_, kept⟩
    rw [unify_eval (s := s) (t := { s with objs := h }) rfl rfl on matched renamed rfl,
      lawful.value.1.renameValue_nil lawful.value.2, (State.mk.inj same).1]

/-- A state that is joined with its own copy keeps all objects that a copy comes to. -/
theorem Lawful.join_copy (joinable : Joinable { s with objs := h }) (n : Nat) :
  ∃ u, (s.join { s with objs := h }).eval c n = .ok (u, n) ∧ u.equal s = .ok true
  := by
  have pending : s.pending.inter s.pending = s.pending := IdSet.inter_self _
  obtain ⟨h', unified, same⟩ := lawful.unify_copy copied n
  obtain ⟨heap, rest, done, v, joined, valued, walk, -⟩ := join_walk (c := c) (n := n) lawful.joinable joinable
    rfl rfl rfl (fun _ => lawful.value.1.present) (by rw [pending]; exact unified) same
  rw [pending, valued rfl (Value.equal_self lawful.value.1.proper)] at joined
  refine ⟨_, joined, lawful.equal_of_agree fun i leads => ?_⟩
  obtain ⟨a, found⟩ := lawful.has_of_leads leads
  have first : h'.get? i = some a := (same i).trans found
  obtain ⟨o, there⟩ := walk.kept i (.inl ⟨a, first⟩)
  have unchanged : o = a := by
    rcases walk.objects i o there with ⟨-, before⟩ | ⟨-, b, other, blend⟩
    · exact Option.some.inj (before.symm.trans first)
    · rw [copied i leads, found] at other
      obtain rfl := Option.some.inj other
      exact blend.kept a first ((lawful.objs i a found).1.join_copy _)
  rw [Heap.AgreeAt, found, there, unchanged]

end

/-- The copy of a state is equal to the state.  So is any bottom state after the state has been joined into
it, and the state itself after a join with its copy; a join with bottom changes nothing. -/
theorem join_laws (lawful : s.Lawful c.roots) (n : Nat) :
  ∃ t, s.clone.eval c n = .ok (t, n + 2) ∧ t.equal s = .ok true ∧
    (∃ u, (s.join t).eval c (n + 2) = .ok (u, n + 2) ∧ u.equal s = .ok true) ∧
    ∀ b : State, b.isBottom = true →
      (s.join b).eval c n = .ok (s, n) ∧ ∃ u, (b.join s).eval c n = .ok (u, n) ∧ u.equal s = .ok true
  := by
  obtain ⟨h, cloned, equals, joinable, copied⟩ := lawful.clone_joinable n
  refine ⟨_, cloned, equals, lawful.join_copy copied joinable (n + 2), fun b bottom => ⟨?_, ?_⟩⟩
  · rw [join, bottom]
    rfl
  · obtain ⟨h, made, equals, -⟩ := lawful.assign_equal (n := n) b
    have assigned : b.join s = b.assign s := by
      rw [join, lawful.closed.notBottom, bottom]
      rfl
    exact ⟨_, assigned ▸ made, equals⟩

theorem join_laws_tangled :
  ∃ t, tangled.clone.eval { roots := [3] } 5 = .ok (t, 7) ∧ t.equal tangled = .ok true ∧
    ∃ u, (tangled.join t).eval { roots := [3] } 7 = .ok (u, 7) ∧ u.equal tangled = .ok true
  := by
  have regular : tangled.Lawful [3] := by
    refine ⟨tangled_closed, ?_, by decide, ?_⟩
    · exact Heap.forall_objs_iff (P := fun _ o => o.Regular ∧ ∀ p ∈ o.props, p.2.NoPrimReceiver).2
        (by decide +kernel)
    · intro i number
      obtain rfl : i = 0 := by simpa using number
      decide +kernel
  obtain ⟨t, cloned, equals, joined, -⟩ := join_laws (c := { roots := [3] }) regular 5
  exact ⟨t, cloned, equals, joined⟩

/-- The value of the last statement counts as well: where it is NaN, the copy is not equal, and where it is
a reference bound to a primitive value, a join with the copy changes it. -/
theorem laws_fail_of_value :
  let s (v : Value) : State := { sample .top [] with value := v }
  (∀ v ∈ [.prim (.nan 0), .ref ⟨0, .prim (.bool true)⟩], (s v).Closed ∧ v.refs.length ≤ 1 ∧
    ∀ i o, (s v).objs.get? i = some o → o.Regular ∧ ∀ p ∈ o.props, p.2.NoPrimReceiver) ∧
  (do let t ← (s (.prim (.nan 0))).clone
      return t.equal (s (.prim (.nan 0))) : Domain _).eval {} 1 = .ok (.ok false, 3) ∧
  (do let t ← (s (.ref ⟨0, .prim (.bool true)⟩)).clone
      let u ← (s (.ref ⟨0, .prim (.bool true)⟩)).join t
      return u.equal (s (.ref ⟨0, .prim (.bool true)⟩)) : Domain _).eval {} 1 = .ok (.ok false, 3)
  := by
  have regular : ∀ i o, (sample .top []).objs.get? i = some o →
      o.Regular ∧ ∀ p ∈ o.props, p.2.NoPrimReceiver
    := Heap.forall_objs_iff (P := fun _ o => o.Regular ∧ ∀ p ∈ o.props, p.2.NoPrimReceiver).2
      (by decide +kernel)
  have closed : (sample .top []).objs.Closed := by decide +kernel
  refine ⟨fun v listed => ⟨⟨rfl, ⟨0, rfl⟩, ⟨0, rfl⟩, closed, ?_⟩, ?_, regular⟩, by decide +kernel,
    by decide +kernel⟩
  · revert v
    decide +kernel
  · revert v
    decide +kernel

end State

end ScriptLens
