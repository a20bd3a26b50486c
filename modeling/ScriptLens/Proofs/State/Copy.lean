import ScriptLens.Domain.Join
import ScriptLens.Proofs.State.Collect

/-!
# Copies

A state that is made like another one takes over its scopes, the objects in use and its value, and
the objects that the copy goes to.
-/

namespace ScriptLens

namespace Heap

/-- The numbers that a copy goes to from given ones. -/
inductive Leads (h : Heap) (roots : List Nat) : Nat → Prop where
  | root {i : Nat} : i ∈ roots → h.Leads roots i
  | step {i j : Nat} {o : Obj} :
      h.Leads roots i → h.get? i = some o → j ∈ o.edges → h.Leads roots j

theorem Leads.mem_of_closed {h : Heap} {roots : List Nat} {p : Nat → Prop} {i : Nat}
    (start : ∀ i ∈ roots, p i) (next : ∀ i o, p i → h.get? i = some o → ∀ j ∈ o.edges, p j)
    (leads : h.Leads roots i) : p i
  := by
  induction leads with
  | root member => apply start _ member
  | step _ found edge inside => apply next _ _ inside found _ edge

def AgreeAt (h k : Heap) (i : Nat) : Prop := (h.get? i).map Obj.copy = (k.get? i).map Obj.copy

end Heap

theorem Obj.edges_subset (o : Obj) : o.edges ⊆ o.targets := by
  intro i edge
  rw [edges, List.mem_append, List.mem_flatMap] at edge
  rw [targets, List.mem_append, List.mem_flatMap]
  rcases edge with env | ⟨p, property, named⟩
  · exact .inr env
  · left
    refine ⟨p, property, ?_⟩
    cases isRef : p.2.ref? with
    | none =>
      rw [isRef] at named
      cases named
    | some r =>
      rw [isRef] at named
      exact List.mem_flatMap.2 ⟨r, Value.ref?_mem isRef, named⟩

namespace State

/-! ### The walk -/

variable {source rest : Heap} {roots : List Nat}

theorem copyReachable_writes (target rest : Heap) (work : List Nat) :
  ∀ target' rest', copyReachable source target rest work = .ok (target', rest') → ∀ i,
    (rest'.get? i = rest.get? i ∧ target'.get? i = target.get? i) ∨
      ∃ o, rest.get? i = some o ∧ rest'.get? i = none ∧ target'.get? i = some o.copy
  := by
  fun_induction copyReachable source target rest work with
  | case1 target rest =>
    intro target' rest' result i
    cases result
    exact .inl ⟨rfl, rfl⟩
  | case2 target rest i work o found ih =>
    intro target' rest' result j
    have step := ih target' rest' result j
    rw [Heap.lookup_insert, Heap.lookup_erase] at step
    by_cases same : i = j
    · subst same
      rw [if_pos rfl, if_pos rfl] at step
      rcases step with ⟨gone, written⟩ | ⟨_, impossible, -⟩
      · exact .inr ⟨o, found, gone, written⟩
      · cases impossible
    · rw [if_neg same, if_neg same] at step
      exact step
  | case3 target rest i work visited present ih =>
    intro target' rest' result j
    exact ih target' rest' result j
  | case4 target rest i work visited missing =>
    intro target' rest' result
    cases result

theorem copyReachable_walked (target rest : Heap) (work : List Nat) :
  ∀ target' rest', copyReachable source target rest work = .ok (target', rest') →
    source.Walk id Obj.edges rest work → source.Walked id Obj.edges rest work rest'
  := by
  fun_induction copyReachable source target rest work with
  | case1 target rest =>
    intro target' rest' result walk
    cases result
    exact walk.done
  | case2 target rest i work o found ih =>
    intro target' rest' result walk
    obtain ⟨walk, known⟩ := walk.visit found
    exact (ih target' rest' result walk).before known
  | case3 target rest i work visited present ih =>
    intro target' rest' result walk
    obtain ⟨walk, known⟩ := walk.skip ((source.contains_iff i).1 present) visited
    exact (ih target' rest' result walk).before known
  | case4 target rest i work visited missing =>
    intro target' rest' result
    cases result

theorem copyReachable_ok
    (present : ∀ i, source.Leads roots i → source.Has i) (target rest : Heap) (work : List Nat) :
  (∀ i o, rest.get? i = some o → source.get? i = some o) →
  (∀ i ∈ work, source.Leads roots i) →
  ∃ target' rest', copyReachable source target rest work = .ok (target', rest') ∧
    ∀ i, rest'.get? i = rest.get? i ∨ source.Leads roots i
  := by
  fun_induction copyReachable source target rest work with
  | case1 target rest =>
    intro _ _
    exact ⟨target, rest, rfl, fun _ => .inl rfl⟩
  | case2 target rest i work o found ih =>
    intro part starts
    have leads := starts i List.mem_cons_self
    obtain ⟨target', rest', result, left⟩ := ih
      (fun j a kept => part j a (Heap.get?_of_erase kept))
      (by
        intro j place
        rcases List.mem_append.1 place with edge | later
        · exact .step leads (part i o found) edge
        · exact starts j (List.mem_cons_of_mem _ later))
    refine ⟨target', rest', result, fun j => ?_⟩
    rcases left j with same | leadsJ
    · rw [Heap.lookup_erase] at same
      split at same
      · rename_i here
        exact .inr (here ▸ leads)
      · exact .inl same
    · exact .inr leadsJ
  | case3 target rest i work visited there ih =>
    intro part starts
    exact ih part fun j later => starts j (List.mem_cons_of_mem _ later)
  | case4 target rest i work visited missing =>
    intro _ starts
    exact (missing ((source.contains_iff i).2 (present i (starts i List.mem_cons_self)))).elim

/-- What a copy does that begins after some objects have been visited, as `done` says. -/
theorem copyReachable_spec (target : Heap) (done : Nat → Prop)
    (gone : ∀ i, done i → source.Has i ∧ rest.get? i = none)
    (left : ∀ i, ¬ done i → rest.get? i = source.get? i)
    (closed : ∀ i o, done i → source.get? i = some o → ∀ j ∈ o.edges, done j)
    (present : ∀ i, source.Leads roots i → source.Has i) :
  ∃ target' rest', copyReachable source target rest roots = .ok (target', rest') ∧
    (∀ i, done i ∨ source.Leads roots i → rest'.get? i = none) ∧
    (∀ i, ¬ (done i ∨ source.Leads roots i) → rest'.get? i = source.get? i) ∧
    (∀ i, ¬ done i → source.Leads roots i → target'.get? i = (source.get? i).map Obj.copy) ∧
    ∀ i, done i ∨ ¬ source.Leads roots i → target'.get? i = target.get? i
  := by
  have part : ∀ i o, rest.get? i = some o → source.get? i = some o := by
    intro i o kept
    rw [← left i]
    · exact kept
    · intro visited
      rw [(gone i visited).2] at kept
      cases kept
  have walk : source.Walk id Obj.edges rest roots := by
    refine ⟨part, fun i o there visited j edge => .inl ⟨j, rfl, ?_⟩⟩
    apply gone
    refine closed i o ?_ there j edge
    by_contra waiting
    rw [left i waiting, there] at visited
    cases visited
  obtain ⟨target', rest', result, few⟩ := copyReachable_ok present target rest roots part
    fun i root => .root root
  obtain ⟨all, onwards⟩ := copyReachable_walked target rest roots target' rest' result walk
  have visits : ∀ i, source.Leads roots i → rest'.get? i = none := by
    intro i leads
    have visited : Heap.Visited id source rest' i := by
      apply leads.mem_of_closed
      · intro j root
        exact all j (.inr root)
      · rintro j o ⟨_, rfl, -, isGone⟩ there k edge
        exact onwards _ o there isGone k edge
    obtain ⟨_, rfl, -, isGone⟩ := visited
    exact isGone
  have writes := copyReachable_writes target rest roots target' rest' result
  refine ⟨target', rest', result, ?_, ?_, ?_, ?_⟩
  · rintro i (visited | leads)
    · obtain ⟨_, rfl, -, isGone⟩ := all i (.inl ⟨i, rfl, gone i visited⟩)
      exact isGone
    · exact visits i leads
  · intro i apart
    obtain ⟨waiting, elsewhere⟩ := not_or.1 apart
    rw [← left i waiting]
    exact (few i).resolve_right elsewhere
  · intro i waiting leads
    obtain ⟨o, there⟩ := present i leads
    rcases writes i with ⟨same, -⟩ | ⟨o', kept, -, written⟩
    · rw [visits i leads, left i waiting, there] at same
      cases same
    · rw [written, part i o' kept]
      rfl
  · intro i apart
    rcases writes i with ⟨-, same⟩ | ⟨o, kept, isGone, -⟩
    · exact same
    · rcases apart with visited | elsewhere
      · rw [(gone i visited).2] at kept
        cases kept
      · rw [← (few i).resolve_right elsewhere, isGone] at kept
        cases kept

/-! ### States -/

/-- The objects that are copied when a state is made like another one. -/
def Copied (s t : State) (roots : List Nat) (i : Nat) : Prop :=
  t.objs.Leads (t.anchors ++ List.range roots.length) i ∨
    ∃ r, t.value.ref? = some r ∧ ¬ s.objs.Has r.target ∧
      ¬ t.objs.Leads (t.anchors ++ List.range roots.length) r.target ∧ t.objs.Leads r.ids i

variable {s t : State} {c : Setting} {n : Nat}

theorem copyRoots_eq (closed : t.Closed) :
  t.copyRoots c.roots = .ok (t.anchors ++ List.range c.roots.length)
  := by
  obtain ⟨l, isLocal⟩ := closed.hasLocal
  obtain ⟨g, isGlobal⟩ := closed.hasGlobal
  rw [copyRoots, anchors, isLocal, isGlobal]
  rfl

theorem assign_eq_ok (closed : t.Closed) {u : State} {m : Nat}
    (result : (s.assign t).eval c n = .ok (u, m)) :
  t.value ≠ .absent ∧ ∀ i < c.roots.length, t.objs.Has i
  := by
  unfold assign at result
  simp only [closed.notBottom, Bool.false_eq_true, if_false] at result
  by_cases absent : t.value = .absent
  · rw [absent] at result
    cases result
  · have notAbsent : (t.value == .absent) = false := beq_eq_false_iff_ne.2 absent
    simp only [notAbsent, Bool.false_eq_true, if_false] at result
    rw [Domain.eval_bind_ok (Domain.eval_read c n), Domain.eval_lift_bind_ok (copyRoots_eq closed)]
      at result
    obtain ⟨⟨objs, rest⟩, first, -⟩ := Domain.eval_lift_bind_eq_ok.1 result
    refine ⟨absent, fun i number => ?_⟩
    have start : i ∈ t.anchors ++ List.range c.roots.length :=
      List.mem_append_right _ (List.mem_range.2 number)
    obtain ⟨_, rfl, there, -⟩ := (copyReachable_walked _ _ _ _ _ first .start).all i (.inr start)
    exact there

theorem assign_eval (closed : t.Closed) (value : t.value ≠ .absent) {objs : Heap}
    (first : copyReachable t.objs s.objs t.objs (t.anchors ++ List.range c.roots.length) =
      .ok (objs, rest)) :
  (s.assign t).eval c n = match t.value.ref? with
    | some r =>
      if objs.contains r.target then .ok ({ t with objs }, n)
      else (copyReachable t.objs objs rest r.ids).map fun p => ({ t with objs := p.1 }, n)
    | none => .ok ({ t with objs }, n)
  := by
  have notAbsent : (t.value == .absent) = false := beq_eq_false_iff_ne.2 value
  unfold assign
  simp only [closed.notBottom, notAbsent, Bool.false_eq_true, if_false]
  rw [Domain.eval_bind_ok (Domain.eval_read c n), Domain.eval_lift_bind_ok (copyRoots_eq closed),
    Domain.eval_lift_bind_ok first]
  cases t.value.ref? with
  | none => rfl
  | some r =>
    dsimp only
    split
    · rfl
    · cases copyReachable t.objs objs rest r.ids <;> rfl

theorem leads_present {i : Nat} (closed : t.objs.Closed)
    (present : ∀ i ∈ roots, t.objs.Has i) (leads : t.objs.Leads roots i) : t.objs.Has i
  := by
  apply leads.mem_of_closed present
  intro j o _ there k edge
  exact closed j o there k (o.edges_subset edge)

theorem assign_copies (closed : t.Closed) (value : t.value ≠ .absent)
    (numbered : ∀ i < c.roots.length, t.objs.Has i) :
  ∃ u, (s.assign t).eval c n = .ok (u, n) ∧ u = { t with objs := u.objs } ∧
    (∀ i, s.Copied t c.roots i → u.objs.get? i = (t.objs.get? i).map Obj.copy) ∧
    ∀ i, ¬ s.Copied t c.roots i → u.objs.get? i = s.objs.get? i
  := by
  have starts : ∀ i ∈ t.anchors ++ List.range c.roots.length, t.objs.Has i := by
    intro i start
    rcases List.mem_append.1 start with anchor | number
    · exact closed.roots i (List.mem_append_left _ anchor)
    · exact numbered i (List.mem_range.1 number)
  obtain ⟨objs, rest, first, gone, left, written, kept⟩ := copyReachable_spec s.objs
    (fun _ => False) (fun _ => False.elim) (fun _ _ => rfl) (fun _ _ => False.elim)
    fun i => leads_present closed.heap starts
  simp only [false_or, not_false_eq_true, true_implies] at gone left written kept
  rw [assign_eval closed value first]
  cases isRef : t.value.ref? with
  | none =>
    have copied : ∀ i, s.Copied t c.roots i ↔ t.objs.Leads (t.anchors ++ List.range c.roots.length) i := by
      simp [Copied, isRef]
    refine ⟨_, rfl, rfl, fun i => ?_, fun i => ?_⟩
    · rw [copied]
      exact written i
    · rw [copied]
      exact kept i
  | some r =>
    have named : ∀ i ∈ r.ids, t.objs.Has i := fun i name =>
      closed.roots i (List.mem_append_right _ (List.mem_flatMap.2 ⟨r, Value.ref?_mem isRef, name⟩))
    have found : objs.contains r.target = true ↔ s.objs.Has r.target ∨
        t.objs.Leads (t.anchors ++ List.range c.roots.length) r.target := by
      rw [Heap.contains_iff, Heap.Has]
      by_cases leads : t.objs.Leads (t.anchors ++ List.range c.roots.length) r.target
      · obtain ⟨o, there⟩ := named r.target List.mem_cons_self
        simp [written _ leads, there, leads]
      · simp [kept _ leads, leads, Heap.Has]
    dsimp only
    split
    · rename_i present
      have copied : ∀ i, s.Copied t c.roots i ↔
          t.objs.Leads (t.anchors ++ List.range c.roots.length) i := by
        intro i
        simp only [Copied, isRef, Option.some.injEq]
        refine ⟨?_, .inl⟩
        rintro (leads | ⟨_, rfl, missing, apart, -⟩)
        · exact leads
        · exact ((found.1 present).elim missing apart).elim
      refine ⟨_, rfl, rfl, fun i => ?_, fun i => ?_⟩
      · rw [copied]
        exact written i
      · rw [copied]
        exact kept i
    · rename_i absent
      obtain ⟨missing, apart⟩ := not_or.1 fun present => absent (found.2 present)
      obtain ⟨objs', rest', second, -, -, written', kept'⟩ := copyReachable_spec objs
        (t.objs.Leads (t.anchors ++ List.range c.roots.length))
        (fun i leads => ⟨leads_present closed.heap starts leads, gone i leads⟩) left
        (fun i o leads there j edge => .step leads there edge)
        (fun i => leads_present closed.heap named)
      have copied : ∀ i, s.Copied t c.roots i ↔
          t.objs.Leads (t.anchors ++ List.range c.roots.length) i ∨ t.objs.Leads r.ids i := by
        intro i
        simp only [Copied, isRef, Option.some.injEq]
        constructor
        · rintro (leads | ⟨_, rfl, -, -, leads⟩)
          · exact .inl leads
          · exact .inr leads
        · rintro (leads | leads)
          · exact .inl leads
          · exact .inr ⟨r, rfl, missing, apart, leads⟩
      rw [second]
      refine ⟨_, rfl, rfl, fun i isCopied => ?_, fun i isKept => ?_⟩
      · by_cases before : t.objs.Leads (t.anchors ++ List.range c.roots.length) i
        · rw [← written i before]
          exact kept' i (.inl before)
        · exact written' i before (((copied i).1 isCopied).resolve_left before)
      · obtain ⟨before, after⟩ := not_or.1 fun leads => isKept ((copied i).2 leads)
        rw [← kept i before]
        exact kept' i (.inr after)

/-- The second state was made like the first one: it has its scopes, objects in use and value, and
everything that is reached there from these and from the objects before the program is the same. -/
structure Replica (t u : State) (roots : List Nat) : Prop where
  others : u = { t with objs := u.objs }
  objs : ∀ i, t.objs.Reach (t.anchors ++ roots ++ refIds t.value) i → u.objs.AgreeAt t.objs i

/-- Making a state like a closed one gives a faithful copy exactly if there is a value to copy, the numbers
exist that stand for the objects before the program, and every object that is reached is copied or was
there before. -/
theorem assign_replica_iff (closed : t.Closed) :
  (∃ u, (s.assign t).eval c n = .ok (u, n) ∧ t.Replica u c.roots) ↔
    t.value ≠ .absent ∧ (∀ i < c.roots.length, t.objs.Has i) ∧
    ∀ i, t.objs.Reach (t.anchors ++ c.roots ++ refIds t.value) i →
      s.Copied t c.roots i ∨ s.objs.AgreeAt t.objs i
  := by
  constructor
  · rintro ⟨u, result, replica⟩
    obtain ⟨value, numbered⟩ := assign_eq_ok closed result
    refine ⟨value, numbered, fun i reached => ?_⟩
    obtain ⟨u', again, -, -, kept⟩ := assign_copies (s := s) (c := c) (n := n) closed value numbered
    cases result.symm.trans again
    rw [or_iff_not_imp_left]
    intro isKept
    rw [Heap.AgreeAt, ← kept i isKept]
    exact replica.objs i reached
  · rintro ⟨value, numbered, held⟩
    obtain ⟨u, result, others, copied, kept⟩ := assign_copies (s := s) (c := c) (n := n) closed value numbered
    refine ⟨u, result, others, fun i reached => ?_⟩
    by_cases isCopied : s.Copied t c.roots i
    · rw [Heap.AgreeAt, copied i isCopied, Option.map_map]
      rfl
    · rw [Heap.AgreeAt, kept i isCopied]
      exact (held i reached).resolve_left isCopied

/-- A state that has nothing in common with the one that it is made like. -/
theorem assign_replica_tangled :
  tangled.Closed ∧
    ∃ u, ((sample .top [(2, {}), (5, {})]).assign tangled).eval { roots := [3] } 6 = .ok (u, 6) ∧
      tangled.Replica u [3]
  := by
  refine ⟨tangled_closed, (assign_replica_iff (c := { roots := [3] }) tangled_closed).2 ⟨nofun, ?_, ?_⟩⟩
  · intro i number
    obtain rfl : i = 0 := by simpa using number
    decide +kernel
  · have scope : tangled.objs.get? 0 = some _ := scope_sample (by decide)
    have leads : ∀ i ∈ [0, 1, 2, 3], tangled.objs.Leads (tangled.anchors ++ List.range 1) i := by
      have first : tangled.objs.Leads (tangled.anchors ++ List.range 1) 0 := .root (by decide)
      intro i inside
      simp only [List.mem_cons, List.not_mem_nil, or_false] at inside
      rcases inside with rfl | rfl | rfl | rfl
      · exact first
      · exact .step first scope (by decide)
      · exact .step first scope (by decide)
      · exact .root (by decide)
    intro i reached
    refine .inl (.inl (leads i ?_))
    apply reached.mem_of_closed
    · decide
    · exact fun j o _ => Heap.forall_objs_iff (P := fun _ o => ∀ k ∈ o.targets, k ∈ [0, 1, 2, 3]).2
        (by decide +kernel) j o

/-- An object that is left over under the number of the object that the value refers to stays, although it
is another one. -/
theorem assign_keeps_leftover :
  let t : State := { sample .top [(1, { props := [("p", .prim (.bool true))] })] with
    value := .ref ⟨1, .unbound⟩ }
  t.Closed ∧ ∃ u, ((sample .top [(1, {})]).assign t).eval {} 2 = .ok (u, 2) ∧
    ∃ a b, u.objs.get? 1 = some a ∧ t.objs.get? 1 = some b ∧ a.equal b = false
  := by
  intro t
  have closed : t.Closed := ⟨rfl, ⟨0, rfl⟩, ⟨0, rfl⟩, by decide +kernel, by decide +kernel⟩
  have scope : t.objs.get? 0 = some _ := scope_sample (by decide)
  -- the scope is all that is copied without the value
  have only : ∀ i, t.objs.Leads (t.anchors ++ List.range 0) i → i = 0 := by
    intro i leads
    apply leads.mem_of_closed
    · decide
    · rintro j o rfl there k edge
      cases scope.symm.trans there
      cases (edge : k ∈ [])
  obtain ⟨u, result, -, -, kept⟩ := assign_copies (s := sample .top [(1, {})]) (c := {}) (n := 2) closed
    nofun nofun
  have isKept : ¬ (sample .top [(1, {})]).Copied t [] 1 := by
    rintro (leads | ⟨r, isRef, missing, -, -⟩)
    · exact absurd (only 1 leads) (by decide)
    · obtain rfl : (⟨1, .unbound⟩ : Ref) = r := Option.some.inj isRef
      exact missing (by decide +kernel)
  refine ⟨closed, u, result, {}, { props := [("p", .prim (.bool true))] }, ?_, ?_, rfl⟩
  · rw [kept 1 isKept]
    simp [sample, Heap.lookup_insert]
  · simp [t, sample, Heap.lookup_insert]

end State

end ScriptLens
