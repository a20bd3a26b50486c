import ScriptLens.Proofs.Heap.Join

/-!
# Joins of states

A join of two states in the same scopes is above both of them along every path from a scope or from
an object that computations in progress refer to.
-/

namespace ScriptLens

namespace State

open Domain List

/-- A state that is not bottom, as joins expect it. -/
structure Joinable (s : State) : Prop where
  notBottom : s.isBottom = false
  hasLocal : ∃ i, s.lref = some i
  hasGlobal : ∃ i, s.gref = some i
  heap : s.objs.Joinable
  anchors : ∀ i ∈ s.anchors, s.objs.Has i

def CoversPaths (u : State) (h : Heap) (via : Nat → Prop) : Prop :=
  ∀ i ∈ u.anchors, ∀ path w, h.Reads via (.ref ⟨i, .unbound⟩) path w →
    ∃ w', u.objs.Reads (fun _ => True) (.ref ⟨i, .unbound⟩) path w' ∧ w'.Above w

variable {s t : State} {c : Setting} {n : Nat}

theorem mem_anchors {i : Nat} :
  i ∈ s.anchors ↔ s.lref = some i ∨ s.gref = some i ∨ i ∈ s.pending.ids ∨ i ∈ s.frames
  := by
  simp only [anchors, mem_append, Option.mem_toList, or_assoc]

/-- Two states in the same scopes, of which the first one is not changed when its objects are renamed, are
joined by joining their heaps from the common anchors on. -/
theorem join_walk {h : Heap} (joinableS : s.Joinable) (joinableT : t.Joinable)
    (globals : s.gref = t.gref) (locals : s.lref = t.lref) (frames : s.frames = t.frames)
    (value : s.value = .bot → t.value ≠ .absent)
    (unified : (unify { s with pending := s.pending.inter t.pending } t).eval c n =
      .ok ({ s with pending := s.pending.inter t.pending, objs := h }, n))
    (same : ∀ i, h.get? i = s.objs.get? i) :
  ∃ heap rest done v,
    (s.join t).eval c n = .ok ({ s with objs := heap, pending := s.pending.inter t.pending, value := v }, n) ∧
    (s.value = t.value → s.value.equal s.value = true → v = s.value) ∧
    MergeWalk c.options.useOr h t.objs heap rest done [] ∧
    ∀ i, s.lref = some i ∨ s.gref = some i ∨ i ∈ (s.pending.inter t.pending).ids ∨ i ∈ s.frames → done i
  := by
  obtain ⟨l, isLocal⟩ := joinableS.hasLocal
  obtain ⟨g, isGlobal⟩ := joinableS.hasGlobal
  have roots : (s.lref, t.lref) :: (s.gref, t.gref) ::
      (((s.pending.inter t.pending).ids ++ s.frames).map fun i => (some i, some i)) =
      (l :: g :: ((s.pending.inter t.pending).ids ++ s.frames)).map fun i => (some i, some i) := by
    rw [← locals, ← globals, isLocal, isGlobal]
    rfl
  have common : ∀ i ∈ l :: g :: ((s.pending.inter t.pending).ids ++ s.frames),
      i ∈ s.anchors ∧ i ∈ t.anchors := by
    intro i root
    rw [mem_anchors, mem_anchors, ← locals, ← globals, ← frames, isLocal, isGlobal]
    simp only [mem_cons, mem_append, IdSet.inter, mem_filter] at root
    rcases root with rfl | rfl | ⟨pendingS, pendingT⟩ | frame
    · exact ⟨.inl rfl, .inl rfl⟩
    · exact ⟨.inr (.inl rfl), .inr (.inl rfl)⟩
    · exact ⟨.inr (.inr (.inl pendingS)), .inr (.inr (.inl (contains_iff_mem.1 pendingT)))⟩
    · exact ⟨.inr (.inr (.inr frame)), .inr (.inr (.inr frame))⟩
  have joinable : h.Joinable := by
    refine ⟨fun i o found j target => ?_, fun i o found => joinableS.heap.regular i o (same i ▸ found)⟩
    rw [Heap.Has, same]
    exact joinableS.heap.closed i o (same i ▸ found) j target
  obtain ⟨heap, rest, done, merged, isDone, walk⟩ := mergeFrom_walk c.options.useOr joinable
    joinableT.heap (l :: g :: ((s.pending.inter t.pending).ids ++ s.frames)) _ _ _ (.start _ _)
    (fun i root => ⟨by
      rw [Heap.Has, same]
      exact joinableS.anchors i (common i root).1, joinableT.anchors i (common i root).2⟩)
  rw [← roots] at merged
  have joined : ∃ v, (s.join t).eval c n =
      .ok ({ s with objs := heap, pending := s.pending.inter t.pending, value := v }, n) ∧
      (s.value = t.value → s.value.equal s.value = true → v = s.value) := by
    have sameGlobal : (s.gref != t.gref) = false := by
      rw [globals]
      exact bne_self_eq_false _
    have sameLocal : (s.lref != t.lref || s.frames != t.frames) = false := by
      rw [locals, frames, bne_self_eq_false, bne_self_eq_false, Bool.false_or]
    unfold join
    rw [joinableT.notBottom, joinableS.notBottom, sameGlobal, sameLocal]
    simp only [Bool.false_eq_true, if_false]
    rw [eval_bind_ok (eval_options c n), eval_bind_ok (eval_pure s c n),
      eval_bind_ok unified]
    dsimp only
    rw [eval_lift_bind_ok merged]
    split
    · rename_i isBot
      have present : (t.value == .absent) = false := beq_eq_false_iff_ne.2 (value isBot)
      refine ⟨t.value, ?_, fun same _ => same.symm⟩
      rw [present, joinableS.notBottom]
      rfl
    · rw [joinableS.notBottom]
      split
      · exact ⟨s.value, rfl, fun _ _ => rfl⟩
      · rename_i differs
        exact ⟨.top, rfl, fun same equals => (differs (same ▸ equals)).elim⟩
  obtain ⟨v, joined, valued⟩ := joined
  refine ⟨heap, rest, done, v, joined, valued, walk, fun i anchor => isDone i (.inr ?_)⟩
  simp only [isLocal, isGlobal, Option.some.injEq] at anchor
  simp only [mem_cons, mem_append]
  rcases anchor with rfl | rfl | pending | frame
  · exact .inl rfl
  · exact .inr (.inl rfl)
  · exact .inr (.inr (.inl pending))
  · exact .inr (.inr (.inr frame))

/-- A join of states in the same scopes, without renaming, comes to an end in a state above both along
all paths, but for those that enter the environment of an object that has different environments. -/
theorem join_covers (off : c.options.useUnify = false) (joinableS : s.Joinable)
    (joinableT : t.Joinable) (globals : s.gref = t.gref) (locals : s.lref = t.lref)
    (frames : s.frames = t.frames) (value : s.value = .bot → t.value ≠ .absent) :
  ∃ u, (s.join t).eval c n = .ok (u, n) ∧ u.Joinable ∧
    u.gref = s.gref ∧ u.lref = s.lref ∧ u.frames = s.frames ∧
    u.pending = s.pending.inter t.pending ∧
    u.CoversPaths s.objs (s.objs.SameEnv t.objs) ∧ u.CoversPaths t.objs (s.objs.SameEnv t.objs)
  := by
  have unified : (unify { s with pending := s.pending.inter t.pending } t).eval c n =
      .ok ({ s with pending := s.pending.inter t.pending }, n) := by
    rw [unify, eval_bind_ok (eval_options c n), off]
    rfl
  obtain ⟨heap, rest, done, v, joined, -, walk, isDone⟩ := join_walk joinableS joinableT globals locals
    frames value unified fun _ => rfl
  have anchored : ∀ i ∈ anchors
      { s with objs := heap, pending := s.pending.inter t.pending, value := v }, done i :=
    fun i anchor => isDone i (mem_anchors.1 anchor)
  refine ⟨_, joined, ?_, rfl, rfl, rfl, rfl, ?_, ?_⟩
  · refine ⟨joinableS.notBottom, joinableS.hasLocal, joinableS.hasGlobal, ⟨?_, ?_⟩, ?_⟩
    · apply walk.closed joinableS.heap
    · apply walk.regular joinableS.heap
    · intro i anchor
      apply walk.kept i (.inr (anchored i anchor))
  · intro i _ path w reads
    apply walk.covers_first joinableS.heap reads (Value.above_unbound i)
  · intro i anchor path w reads
    apply walk.covers_second joinableT.heap reads (Value.above_unbound i)
    intro _ _ q only
    rw [mem_singleton.1 only]
    apply anchored i anchor

instance (h : Heap) : Decidable h.Joinable
  := decidable_of_iff (h.Closed ∧ ∀ c ∈ h.cells.toList, c.2.2.Regular) <| by
    rw [← Heap.forall_objs_iff (P := fun _ o => o.Regular)]
    exact ⟨fun all => ⟨all.1, all.2⟩, fun all => ⟨all.1, all.2⟩⟩

/-- A function that refers to itself, made in the given scope. -/
def selfish (scope : Nat) : Obj :=
  { body := some (.node 7 .blockStatement []), env := some scope,
    props := [("self", .ref ⟨1, .unbound⟩)] }

/-- A function keeps its scope through a join; there it has the variable of either state, and the
object that only the second state knows. -/
theorem join_covers_selfish :
  let s := sample (.ref ⟨1, .unbound⟩) [(1, selfish 2), (2, { props := [("x", .prim (.text "a"))] })]
  let t := sample (.ref ⟨1, .unbound⟩)
    [(1, selfish 2), (2, { props := [("y", .ref ⟨3, .unbound⟩)] }), (3, {})]
  let path := [.key "g", .key "self", .env]
  ∃ u, (s.join t).eval { options := { useUnify := false } } 4 = .ok (u, 4) ∧ u.Joinable ∧
    (∃ v, u.objs.Reads (fun _ => True) (.ref ⟨0, .unbound⟩) (path ++ [.key "x"]) v ∧
      v.Above (.prim (.text "a"))) ∧
    ∃ w, u.objs.Reads (fun _ => True) (.ref ⟨0, .unbound⟩) (path ++ [.key "y"]) w ∧
      w.Above (.ref ⟨3, .unbound⟩)
  := by
  intro s t path
  have joinableS : s.Joinable := ⟨rfl, ⟨0, rfl⟩, ⟨0, rfl⟩, by decide +kernel, by decide +kernel⟩
  have joinableT : t.Joinable := ⟨rfl, ⟨0, rfl⟩, ⟨0, rfl⟩, by decide +kernel, by decide +kernel⟩
  have functionS : s.objs.get? 1 = some (selfish 2) := by simp [s, sample, Heap.lookup_insert]
  have functionT : t.objs.get? 1 = some (selfish 2) := by simp [t, sample, Heap.lookup_insert]
  have same : s.objs.SameEnv t.objs 1 := by
    intro a b foundA foundB
    cases functionS.symm.trans foundA
    cases functionT.symm.trans foundB
    rfl
  obtain ⟨u, joined, joinable, global, -, -, -, coversS, coversT⟩ :=
    join_covers (c := { options := { useUnify := false } }) (n := 4) rfl joinableS joinableT rfl rfl rfl
      (fun impossible => by cases impossible)
  have anchor : 0 ∈ u.anchors := mem_anchors.2 (.inr (.inl global))
  have here : ∀ i : Nat, ⟨i, .unbound⟩ ∈ (Value.ref ⟨i, .unbound⟩).refs := fun _ =>
    mem_singleton_self _
  refine ⟨u, joined, joinable, coversS 0 anchor _ _ ?_, coversT 0 anchor _ _ ?_⟩
  · have scope : s.objs.get? 2 = some { props := [("x", .prim (.text "a"))] } := by
      simp [s, sample, Heap.lookup_insert]
    exact .key (here 0) (scope_sample (by decide)) (.key (here 1) functionS
      (.env (here 1) functionS rfl same (.key (here 2) scope .here)))
  · have scope : t.objs.get? 2 = some { props := [("y", .ref ⟨3, .unbound⟩)] } := by
      simp [t, sample, Heap.lookup_insert]
    exact .key (here 0) (scope_sample (by decide)) (.key (here 1) functionT
      (.env (here 1) functionT rfl same (.key (here 2) scope .here)))

/-- A function that was made in one of two scopes has no scope after a join, so that nothing is read
there, although it is not unknown. -/
theorem join_loses_scope :
  let scopes : List (Nat × Obj) :=
    [(2, { props := [("x", .prim (.text "a"))] }), (3, { props := [("x", .prim (.text "b"))] })]
  let s := sample (.ref ⟨1, .unbound⟩) ((1, selfish 2) :: scopes)
  let t := sample (.ref ⟨1, .unbound⟩) ((1, selfish 3) :: scopes)
  let path := [.key "g", .env, .key "x"]
  s.Joinable ∧ t.Joinable ∧ s.gref = t.gref ∧ s.lref = t.lref ∧ s.frames = t.frames ∧
    s.objs.Reads (fun _ => True) (.ref ⟨0, .unbound⟩) path (.prim (.text "a")) ∧
    ∃ u, (s.join t).eval { options := { useUnify := false } } 4 = .ok (u, 4) ∧
      (u.objs.get? 1).map Obj.isCallable = some true ∧
      ∀ w, ¬ u.objs.Reads (fun _ => True) (.ref ⟨0, .unbound⟩) path w
  := by
  intro scopes s t path
  have joinableS : s.Joinable := ⟨rfl, ⟨0, rfl⟩, ⟨0, rfl⟩, by decide +kernel, by decide +kernel⟩
  have joinableT : t.Joinable := ⟨rfl, ⟨0, rfl⟩, ⟨0, rfl⟩, by decide +kernel, by decide +kernel⟩
  have here : ∀ i : Nat, ⟨i, .unbound⟩ ∈ (Value.ref ⟨i, .unbound⟩).refs := fun _ =>
    mem_singleton_self _
  refine ⟨joinableS, joinableT, rfl, rfl, rfl, ?_, ?_⟩
  · have function : s.objs.get? 1 = some (selfish 2) := by simp [s, scopes, sample, Heap.lookup_insert]
    have scope : s.objs.get? 2 = some { props := [("x", .prim (.text "a"))] } := by
      simp [s, scopes, sample, Heap.lookup_insert]
    exact .key (here 0) (scope_sample (by decide))
      (.env (here 1) function rfl trivial (.key (here 2) scope .here))
  · have evaluated : ((s.join t).eval { options := { useUnify := false } } 4).toOption.any
        (fun r => (r.1.objs.get? 0).map (·.member "g") = some (.ref ⟨1, .unbound⟩) ∧
          (r.1.objs.get? 1).map (fun o => (o.isCallable, o.env)) = some (true, none) ∧ r.2 = 4) := by
      decide +kernel
    obtain ⟨⟨u, n⟩, joined, observed⟩ := except_any_eq_true evaluated
    obtain ⟨listed, known, rfl⟩ := of_decide_eq_true observed
    obtain ⟨function, there, observed⟩ := Option.map_eq_some_iff.1 known
    obtain ⟨callable, noScope⟩ := Prod.mk.inj observed
    refine ⟨u, joined, ?_, ?_⟩
    · rw [there, Option.map_some, callable]
    · intro w (reads : u.objs.Reads _ _ [.key "g", .env, .key "x"] w)
      cases reads with
      | any top => cases mem_singleton.1 top
      | @key _ _ _ o _ _ reference found reads =>
        rw [mem_singleton.1 reference] at found
        rw [found] at listed
        have member : o.member "g" = .ref ⟨1, .unbound⟩ := Option.some.inj listed
        rw [member] at reads
        cases reads with
        | any top => cases mem_singleton.1 top
        | env reference found isEnv =>
          rw [mem_singleton.1 reference, there] at found
          cases found
          rw [noScope] at isEnv
          cases isEnv

end State

end ScriptLens
