import Mathlib.Logic.Function.Iterate
import ScriptLens.Proofs.Heap.Matching

/-!
# The walk that renames references

`State.renameRefs` visits the objects of a state and renames what they mention.
-/

namespace ScriptLens

open List hiding beq_eq_decide

def Obj.withoutEnv (o : Obj) : Obj := { o with env := none }

def Obj.propTargets (o : Obj) : List Nat := o.props.flatMap fun p => State.refIds p.2

theorem Obj.mem_targets {o : Obj} {i : Nat} : i ∈ o.targets ↔ i ∈ o.propTargets ∨ o.env = some i
  := by
  rw [targets, mem_append, Option.mem_toList]
  rfl

theorem Obj.propTargets_of_withoutEnv {a b : Obj} (same : a.withoutEnv = b.withoutEnv) :
  a.propTargets = b.propTargets
  := by
  have props : a.withoutEnv.props = b.withoutEnv.props := by rw [same]
  rw [propTargets, propTargets]
  apply congrArg _ props

namespace Heap

def Agrees (h k : Heap) : Prop :=
  ∀ i, (h.get? i).map Obj.withoutEnv = (k.get? i).map Obj.withoutEnv

theorem Agrees.refl (h : Heap) : h.Agrees h
  := fun _ => rfl

variable {h k : Heap} {i : Nat}

theorem Agrees.get? {o : Obj} (agree : h.Agrees k) (found : h.get? i = some o) :
  ∃ o', k.get? i = some o' ∧ o'.withoutEnv = o.withoutEnv
  := by
  have same := agree i
  rw [found] at same
  obtain ⟨o', found', same⟩ := Option.map_eq_some_iff.1 same.symm
  use o', found', same

theorem Agrees.has (agree : h.Agrees k) : h.Has i ↔ k.Has i := by
  constructor
  · rintro ⟨o, found⟩
    obtain ⟨o', found', -⟩ := agree.get? found
    use o', found'
  · rintro ⟨o, found⟩
    have same := agree i
    rw [found] at same
    obtain ⟨o', found', -⟩ := Option.map_eq_some_iff.1 same
    use o', found'

theorem Agrees.update (agree : h.Agrees k) (i : Nat) (f : Obj → Option Nat) :
  h.Agrees (k.update i fun o => { o with env := f o })
  := by
  intro j
  rw [agree j, lookup_update]
  split
  · rw [Option.map_map]
    rfl
  · rfl

end Heap

def Heap.envOf (h : Heap) (i : Nat) : Option Nat := (h.get? i).bind Obj.env

theorem Heap.envOf_update (h : Heap) (i j : Nat) (f : Option Nat → Option Nat) (none : f none = none) :
  (h.update i fun o => { o with env := f o.env }).envOf j =
    if i = j then f (h.envOf j) else h.envOf j
  := by
  rw [envOf, envOf, lookup_update]
  split
  · cases h.get? j with
    | none => apply none.symm
    | some o => rfl
  · rfl

def Obj.mapProps (f : Value → Value) (o : Obj) : Obj :=
  { o with props := o.props.map fun p => (p.1, f p.2) }

namespace Heap

theorem get?_foldl_update {f : Obj → Obj} {ids : List Nat} (i : Nat) :
  ∀ h : Heap, ids.Nodup → (ids.foldl (fun h i => h.update i f) h).get? i =
    if i ∈ ids then (h.get? i).map f else h.get? i
  := by
  induction ids with
  | nil =>
    intro h _
    rfl
  | cons j ids ih =>
    intro h distinct
    obtain ⟨new, distinct⟩ := nodup_cons.1 distinct
    rw [foldl_cons, ih _ distinct, lookup_update]
    by_cases same : j = i
    · subst same
      rw [if_neg new, if_pos rfl, if_pos mem_cons_self]
    · rw [if_neg same]
      simp only [mem_cons, Ne.symm same, false_or]

theorem nodup_eraseDups (l : List Nat) : l.eraseDups.Nodup := by
  induction size : l.length using Nat.strongRecOn generalizing l with
  | ind n ih =>
    cases l with
    | nil => apply nodup_nil
    | cons i l =>
      rw [eraseDups_cons]
      apply nodup_cons.2
      constructor
      · simp
      · apply ih _ _ _ rfl
        rw [← size]
        apply Nat.lt_succ_of_le (length_filter_le _ l)

end Heap

namespace State

def Due (visited : List Nat) (work : List Renewal) (i : Nat) : Prop :=
  i ∈ visited ∨ .edge i ∈ work

variable {visited : List Nat} {work : List Renewal} {i j : Nat} {m : Renaming}

theorem Due.visit (steps : List Renewal) (due : Due visited (.edge i :: work) j) :
  Due (i :: visited) (steps ++ work) j
  := by
  rcases due with seen | edge
  · left
    apply mem_cons_of_mem _ seen
  · rcases mem_cons.1 edge with same | edge
    · left
      obtain rfl := Renewal.edge.inj same
      apply mem_cons_self
    · right
      apply mem_append_right _ edge

theorem Due.skip (old : i ∈ visited) (due : Due visited (.edge i :: work) j) : Due visited work j
  := by
  rcases due with seen | edge
  · left
    apply seen
  · rcases mem_cons.1 edge with same | edge
    · left
      obtain rfl := Renewal.edge.inj same
      apply old
    · right
      apply edge

theorem Due.replace {r : Renewal}
    (due : Due visited (r :: work) j) (steps : List Renewal) (noVisit : ∀ i, r ≠ .edge i) :
  Due visited (steps ++ work) j
  := by
  rcases due with seen | edge
  · left
    apply seen
  · right
    rcases mem_cons.1 edge with same | edge
    · cases noVisit j same.symm
    · apply mem_append_right _ edge

/-- How many steps about the environment of an object are to come. -/
def envSteps (i : Nat) (work : List Renewal) : Nat :=
  work.countP fun
    | .edge _ => false
    | .env j => j == i
    | .setEnv j => j == i

section

variable (i j : Nat) (work : List Renewal)

@[simp] theorem envSteps_edge :
  envSteps i (.edge j :: work) = envSteps i work
  := rfl

@[simp] theorem envSteps_env :
  envSteps i (.env j :: work) = envSteps i work + if j = i then 1 else 0
  := by
  simp [envSteps, countP_cons]

@[simp] theorem envSteps_setEnv :
  envSteps i (.setEnv j :: work) = envSteps i work + if j = i then 1 else 0
  := by
  simp [envSteps, countP_cons]

theorem renewal_eq (o : Obj) : renewal i o = o.propTargets.map Renewal.edge ++ [.env i]
  := by
  rw [renewal, Obj.propTargets, map_flatMap]
  rfl

end

@[simp] theorem envSteps_edges (i : Nat) (ids : List Nat) (work : List Renewal) :
  envSteps i (ids.map Renewal.edge ++ work) = envSteps i work
  := by
  induction ids with
  | nil => rfl
  | cons j ids ih => apply ih

@[simp] theorem envSteps_renewal (i j : Nat) (o : Obj) (work : List Renewal) :
  envSteps i (renewal j o ++ work) = envSteps i work + if j = i then 1 else 0
  := by
  rw [renewal_eq, append_assoc, envSteps_edges]
  apply envSteps_env

/-- As often as an object has been visited, apart from the visits after which steps about its environment
are still to come, its environment has been renamed. -/
def EnvStage (m : Renaming) (base heap : Heap) (visited : List Nat) (work : List Renewal) (i : Nat) :
    Prop :=
  ∃ k, k + envSteps i work = visited.count i ∧ heap.envOf i = (Option.map m.apply)^[k] (base.envOf i)

/-- What holds during a walk over the objects of the heap `base` that starts from the numbers
`anchors`: `heap` is the heap as far as it has been renamed, and `rest` the part of it that has not
been visited. -/
structure Walking (m : Renaming) (base : Heap) (anchors : List Nat) (heap rest : Heap)
    (visited : List Nat) (work : List Renewal) : Prop where
  agree : base.Agrees heap
  left : ∀ i, base.Has i → ¬ rest.Has i → i ∈ visited
  due : ∀ i ∈ visited, ∀ o, base.get? i = some o → ∀ j ∈ o.targets,
    Due visited work j ∨ (o.env = some j ∧ .env i ∈ work)
  /-- Only objects that are there are to be visited. -/
  present : ∀ i, .edge i ∈ work → base.Has i
  stage : ∀ i, EnvStage m base heap visited work i
  once : ∀ i ∉ anchors, visited.count i ≤ 1 ∧ (rest.Has i → i ∉ visited)

section Steps

variable {m : Renaming} {base heap rest rest' : Heap} {anchors visited : List Nat}
  {work : List Renewal} {i e : Nat}

/-- Visiting an object puts the steps for what it mentions before the others. -/
theorem Walking.visit {o : Obj} (closed : base.Closed)
    (walking : Walking m base anchors heap rest visited (.edge i :: work))
    (found : heap.get? i = some o)
    (others : ∀ j, i ≠ j → (rest'.Has j ↔ rest.Has j))
    (own : (rest.Has i ∧ ¬ rest'.Has i) ∨ i ∈ anchors) :
  Walking m base anchors heap rest' (i :: visited) (renewal i o ++ work)
  := by
  constructor
  · apply walking.agree
  · intro j inBase gone
    by_cases same : i = j
    · rw [same]
      apply mem_cons_self
    · rw [others j same] at gone
      apply mem_cons_of_mem _ (walking.left j inBase gone)
  · intro k member a inBase j target
    rcases mem_cons.1 member with rfl | member
    · rcases Obj.mem_targets.1 target with target | env
      · left
        right
        obtain ⟨a', found', same⟩ := walking.agree.get? inBase
        cases found.symm.trans found'
        rw [renewal_eq, Obj.propTargets_of_withoutEnv same]
        apply mem_append_left
        apply mem_append_left
        apply mem_map_of_mem target
      · right
        use env
        simp [renewal_eq]
    · rcases walking.due k member a inBase j target with old | ⟨env, pending⟩
      · left
        apply old.visit _
      · right
        use env
        apply mem_append_right
        simpa using pending
  · intro j edge
    rcases mem_append.1 edge with new | later
    · obtain ⟨a, inBase⟩ := walking.present i mem_cons_self
      obtain ⟨a', found', same⟩ := walking.agree.get? inBase
      cases found.symm.trans found'
      apply closed i a inBase j
      apply Obj.mem_targets.2
      left
      rw [← Obj.propTargets_of_withoutEnv same]
      simpa [renewal_eq] using new
    · apply walking.present j (mem_cons_of_mem _ later)
  · intro j
    obtain ⟨k, count, env⟩ := walking.stage j
    refine ⟨k, ?_, env⟩
    rw [envSteps_edge] at count
    rw [envSteps_renewal, count_cons, ← count, beq_eq_decide, Nat.add_assoc]
    simp only [decide_eq_true_eq]
  · intro j free
    obtain ⟨atMost, fresh⟩ := walking.once j free
    by_cases same : i = j
    · subst same
      obtain ⟨here, gone⟩ := own.resolve_right free
      rw [count_cons_self, count_eq_zero.2 (fresh here)]
      exact ⟨Nat.le_refl 1, fun back => (gone back).elim⟩
    · rw [count_cons_of_ne same, others j same, mem_cons, not_or]
      exact ⟨atMost, fun here => ⟨Ne.symm same, fresh here⟩⟩

theorem Walking.next {heap' : Heap} {work' : List Renewal}
    (walking : Walking m base anchors heap rest visited work) (agree : base.Agrees heap')
    (due : ∀ j, Due visited work j → Due visited work' j)
    (envs : ∀ j o e, base.get? j = some o → o.env = some e → .env j ∈ work →
      Due visited work' e ∨ .env j ∈ work')
    (present : ∀ j, .edge j ∈ work' → base.Has j)
    (stage : ∀ j, EnvStage m base heap visited work j → EnvStage m base heap' visited work' j) :
  Walking m base anchors heap' rest visited work'
  := by
  constructor
  · apply agree
  · apply walking.left
  · intro k member a inBase j target
    rcases walking.due k member a inBase j target with seen | ⟨env, pending⟩
    · left
      apply due j seen
    · rcases envs k a j inBase env pending with seen | later
      · left
        apply seen
      · right
        use env
  · apply present
  · intro j
    apply stage j (walking.stage j)
  · apply walking.once

theorem Walking.skip (walking : Walking m base anchors heap rest visited (.edge i :: work))
    (gone : ¬ rest.Has i) : Walking m base anchors heap rest visited work
  := by
  have old : i ∈ visited := walking.left i (walking.present i mem_cons_self) gone
  apply walking.next walking.agree (fun j due => due.skip old)
  · intro j o e _ _ pending
    right
    simpa using pending
  · intro j edge
    apply walking.present j (mem_cons_of_mem _ edge)
  · exact fun _ stage => stage

theorem EnvStage.finish {heap' : Heap} {r : Renewal} {j : Nat}
    (steps : envSteps j (r :: work) = envSteps j work + if i = j then 1 else 0)
    (renamed : heap'.envOf j = if i = j then (heap.envOf j).map m.apply else heap.envOf j)
    (stage : EnvStage m base heap visited (r :: work) j) : EnvStage m base heap' visited work j
  := by
  obtain ⟨k, count, env⟩ := stage
  rw [steps] at count
  rw [env] at renamed
  split at count
  · rename_i same
    refine ⟨k + 1, by omega, ?_⟩
    rw [renamed, if_pos same, Function.iterate_succ_apply']
  · rename_i differs
    exact ⟨k, count, by rw [renamed, if_neg differs]⟩

theorem Walking.setEnv
    (walking : Walking m base anchors heap rest visited (.setEnv i :: work)) :
  Walking m base anchors (heap.update i fun o => { o with env := o.env.map m.apply }) rest visited
    work
  := by
  apply walking.next (walking.agree.update i fun o => o.env.map m.apply)
    (fun j due => due.replace [] (fun _ => Renewal.noConfusion))
  · intro j o e _ _ pending
    right
    simpa using pending
  · intro j edge
    apply walking.present j (mem_cons_of_mem _ edge)
  · exact fun j stage => stage.finish (envSteps_setEnv j i work)
      (heap.envOf_update i j (Option.map m.apply) rfl)

theorem Walking.resume (walking : Walking m base anchors heap rest visited []) {ids : List Nat}
    (present : ∀ i ∈ ids, base.Has i) :
  Walking m base anchors heap rest visited (ids.map Renewal.edge)
  := by
  apply walking.next walking.agree
  · rintro j (seen | edge)
    · left
      apply seen
    · cases edge
  · intro j o e _ _ pending
    cases pending
  · intro j edge
    apply present
    simpa using edge
  · intro j stage
    rw [EnvStage, ← append_nil (ids.map Renewal.edge), envSteps_edges]
    exact stage

theorem Walking.mentioned (walking : Walking m base anchors heap rest visited []) :
  ∀ i o, i ∈ visited → base.get? i = some o → ∀ j ∈ o.targets, j ∈ visited
  := by
  intro i o seen inBase j target
  rcases walking.due i seen o inBase j target with (seen | edge) | ⟨-, pending⟩
  · apply seen
  · cases edge
  · cases pending

section

variable (keep : ∀ j ∈ anchors, (base.envOf j).map m.apply = base.envOf j)

include keep

theorem Walking.envOf_eq (walking : Walking m base anchors heap rest visited work) :
  heap.envOf i = if 0 < visited.count i ∧ envSteps i work = 0 then (base.envOf i).map m.apply
    else base.envOf i
  := by
  obtain ⟨k, count, env⟩ := walking.stage i
  rw [env]
  by_cases anchor : i ∈ anchors
  · rw [Function.iterate_fixed (keep i anchor), keep i anchor, ite_self]
  · have once := (walking.once i anchor).1
    split
    · obtain rfl : k = 1 := by omega
      rfl
    · obtain rfl : k = 0 := by omega
      rfl

theorem Walking.enterEnv (closed : base.Closed)
    (walking : Walking m base anchors heap rest visited (.env i :: work))
    (found : heap.envOf i = some e) :
  Walking m base anchors heap rest visited (.edge e :: .setEnv i :: work)
  := by
  have old : base.envOf i = some e := by
    rw [walking.envOf_eq keep, if_neg (by simp)] at found
    exact found
  obtain ⟨a, inBase, isEnv⟩ := Option.bind_eq_some_iff.1 old
  apply walking.next walking.agree
    (fun j due => due.replace [.edge e, .setEnv i] (fun _ => Renewal.noConfusion))
  · intro k o d inBase' env pending
    rcases mem_cons.1 pending with same | pending
    · left
      right
      obtain rfl := Renewal.env.inj same
      cases inBase.symm.trans inBase'
      cases isEnv.symm.trans env
      apply mem_cons_self
    · right
      apply mem_cons_of_mem
      apply mem_cons_of_mem _ pending
  · intro j edge
    rcases mem_cons.1 edge with same | edge
    · obtain rfl := Renewal.edge.inj same
      apply closed i a inBase _ (Obj.env_mem_targets isEnv)
    · apply walking.present
      simpa using edge
  · intro j stage
    simpa [EnvStage] using stage

theorem Walking.noEnv (walking : Walking m base anchors heap rest visited (.env i :: work))
    (none : heap.envOf i = none) : Walking m base anchors heap rest visited work
  := by
  apply walking.next walking.agree (fun j due => due.replace [] (fun _ => Renewal.noConfusion))
  · intro k o e inBase env pending
    rcases mem_cons.1 pending with same | pending
    · obtain rfl := Renewal.env.inj same
      rw [walking.envOf_eq keep, if_neg (by simp), Heap.envOf, inBase] at none
      cases env.symm.trans none
    · right
      apply pending
  · intro j edge
    apply walking.present j (mem_cons_of_mem _ edge)
  · intro j stage
    apply stage.finish (envSteps_env j i work)
    split
    · rename_i same
      rw [← same, none]
      rfl
    · rfl

theorem renewHeap_walking (closed : base.Closed)
    (heap rest : Heap) (visited : List Nat) (work : List Renewal) :
  Walking m base anchors heap rest visited work →
  ∃ heap' rest' visited', renewHeap m heap rest visited work = .ok (heap', rest', visited') ∧
    Walking m base anchors heap' rest' visited' [] ∧ ∀ i, Due visited work i → i ∈ visited'
  := by
  -- What is due stays due at each step, so that the objects visited at the end include it.
  have onward : ∀ {r : Except Failure (Heap × Heap × List Nat)} {v v' : List Nat}
      {w w' : List Renewal}, (∀ i, Due v w i → Due v' w' i) →
      (∃ heap' rest' visited', r = .ok (heap', rest', visited') ∧
        Walking m base anchors heap' rest' visited' [] ∧ ∀ i, Due v' w' i → i ∈ visited') →
      ∃ heap' rest' visited', r = .ok (heap', rest', visited') ∧
        Walking m base anchors heap' rest' visited' [] ∧ ∀ i, Due v w i → i ∈ visited' := by
    rintro r v v' w w' kept ⟨heap', rest', visited', ends, done, all⟩
    use heap', rest', visited', ends, done, fun i due => all i (kept i due)
  fun_induction renewHeap m heap rest visited work with
  | case1 heap rest visited =>
    intro walking
    use heap, rest, visited, rfl, walking
    rintro i (seen | edge)
    · apply seen
    · cases edge
  | case2 heap rest visited i work a present o found ih =>
    intro walking
    have others : ∀ j, i ≠ j → ((rest.erase i).Has j ↔ rest.Has j) := by
      intro j different
      rw [Heap.Has, Heap.lookup_erase, if_neg different]
      rfl
    have own : ¬ (rest.erase i).Has i := by
      rw [← Heap.get?_eq_none_iff, Heap.lookup_erase, if_pos rfl]
    apply onward fun j due => due.visit _
    apply ih (walking.visit closed found others (.inl ⟨⟨a, present⟩, own⟩))
  | case3 heap rest visited i work a present missing =>
    intro walking
    obtain ⟨o, found⟩ := walking.agree.has.1 (walking.present i mem_cons_self)
    cases found.symm.trans missing
  | case4 heap rest visited i work gone present ih =>
    intro walking
    have away := (Heap.get?_eq_none_iff rest i).1 gone
    apply onward fun j due => due.skip (walking.left i (walking.present i mem_cons_self) away)
    apply ih (walking.skip away)
  | case5 heap rest visited i work gone missing =>
    intro walking
    have there := walking.agree.has.1 (walking.present i mem_cons_self)
    apply (missing ((heap.contains_iff i).2 there)).elim
  | case6 heap rest visited i work e found ih =>
    intro walking
    apply onward fun j due => due.replace [.edge e, .setEnv i] (fun _ => Renewal.noConfusion)
    apply ih (walking.enterEnv keep closed found)
  | case7 heap rest visited i work none ih =>
    intro walking
    apply onward fun j due => due.replace [] (fun _ => Renewal.noConfusion)
    apply ih (walking.noEnv keep none)
  | case8 heap rest visited i work ih =>
    intro walking
    apply onward fun j due => due.replace [] (fun _ => Renewal.noConfusion)
    apply ih walking.setEnv

theorem renewFrom_walking (closed : base.Closed) {roots : List Nat} :
  ∀ {heap rest : Heap} {visited : List Nat}, (∀ i ∈ roots, i ∈ anchors ∧ base.Has i) →
    Walking m base anchors heap rest visited [] →
    ∃ heap' rest' visited', renewFrom m heap rest visited roots = .ok (heap', rest', visited') ∧
      Walking m base anchors heap' rest' visited' [] ∧ ∀ i, i ∈ visited ∨ i ∈ roots → i ∈ visited'
  := by
  induction roots with
  | nil =>
    intro heap rest visited _ walking
    use heap, rest, visited, rfl, walking
    rintro i (seen | root)
    · apply seen
    · cases root
  | cons i roots ih =>
    intro heap rest visited valid walking
    obtain ⟨anchor, inBase⟩ := valid i mem_cons_self
    obtain ⟨o, found⟩ := walking.agree.has.1 inBase
    have visit : Walking m base anchors heap rest (i :: visited) (renewal i o ++ []) := by
      have here : ∀ j ∈ [i], base.Has j := by
        intro j member
        rw [mem_singleton.1 member]
        apply inBase
      apply (walking.resume here).visit closed found (fun _ _ => Iff.rfl) (.inr anchor)
    rw [append_nil] at visit
    obtain ⟨heap1, rest1, visited1, ends1, walking1, all1⟩ :=
      renewHeap_walking keep closed _ _ _ _ visit
    obtain ⟨heap', rest', visited', ends', walking', all'⟩ :=
      ih (fun j member => valid j (mem_cons_of_mem _ member)) walking1
    use heap', rest', visited'
    constructor
    · simp only [renewFrom, found, ends1]
      apply ends'
    · use walking'
      intro j here
      apply all'
      rcases here with seen | root
      · left
        apply all1
        left
        apply mem_cons_of_mem _ seen
      · rcases mem_cons.1 root with rfl | root
        · left
          apply all1
          left
          apply mem_cons_self
        · right
          apply root

end

end Steps

def EnvsKept (s : State) (m : Renaming) : Prop :=
  ∀ i ∈ s.anchors, (s.objs.envOf i).map m.apply = s.objs.envOf i

theorem Walking.start (m : Renaming) (h : Heap) (anchors : List Nat) : Walking m h anchors h h [] []
  := by
  constructor
  · apply Heap.Agrees.refl
  · intro i here gone
    apply (gone here).elim
  · nofun
  · nofun
  · exact fun i => ⟨0, rfl, rfl⟩
  · exact fun i _ => ⟨Nat.zero_le 1, fun _ => not_mem_nil⟩

end State

def Obj.renewed (m : Renaming) (o : Obj) : Obj :=
  { o.mapProps (State.renameValue m) with env := o.env.map m.apply }

namespace State

theorem renameRefs_spec {s : State} {m : Renaming} (closed : s.Closed) (keep : s.EnvsKept m) :
  ∃ h, s.renameRefs m = .ok { s with objs := h, value := renameValue m s.value } ∧
    (∀ i, h.Has i ↔ s.objs.Has i) ∧
    ∀ i o, s.Reach i → s.objs.get? i = some o → h.get? i = some (o.renewed m)
  := by
  obtain ⟨l, isLocal⟩ := closed.hasLocal
  obtain ⟨g, isGlobal⟩ := closed.hasGlobal
  have anchored : s.anchors = l :: g :: s.pending.ids ++ s.frames := by
    rw [anchors, isLocal, isGlobal]
    rfl
  obtain ⟨heap1, rest1, visited1, ends1, walking1, all1⟩ :=
    renewFrom_walking keep closed.heap
      (fun i anchor => ⟨anchor, closed.roots i (mem_append_left _ anchor)⟩)
      (Walking.start m s.objs s.anchors)
  obtain ⟨heap, rest, visited, ends, walking, all⟩ :=
    renewHeap_walking keep closed.heap _ _ _ _
      (walking1.resume fun i mentioned => closed.roots i (mem_append_right _ mentioned))
  have reached : ∀ i, s.Reach i → i ∈ visited := by
    intro i reached
    apply Heap.Reach.mem_of_closed _ walking.mentioned reached
    intro j root
    apply all
    rcases mem_append.1 root with anchor | mentioned
    · left
      apply all1
      right
      apply anchor
    · right
      apply mem_map_of_mem mentioned
  use visited.eraseDups.foldl (fun h i => h.update i (Obj.mapProps (renameValue m))) heap
  constructor
  · rw [anchored] at ends1
    rw [renameRefs, isLocal, isGlobal]
    apply except_bind_eq_ok.2 ⟨l, rfl, _⟩
    apply except_bind_eq_ok.2 ⟨g, rfl, _⟩
    apply except_bind_eq_ok.2 ⟨_, ends1, _⟩
    apply except_bind_eq_ok.2 ⟨_, ends, _⟩
    rfl
  constructor
  · intro i
    rw [walking.agree.has, Heap.Has, Heap.Has, Heap.get?_foldl_update i _ (Heap.nodup_eraseDups _)]
    split
    · simp
    · rfl
  · intro i o here found
    have seen := reached i here
    obtain ⟨o', inHeap, same⟩ := walking.agree.get? found
    have env : heap.envOf i = (s.objs.envOf i).map m.apply := by
      rw [walking.envOf_eq keep, if_pos ⟨count_pos_iff.2 seen, rfl⟩]
    rw [Heap.get?_foldl_update i _ (Heap.nodup_eraseDups _),
      if_pos (mem_eraseDups.2 seen), inHeap, Option.map_some]
    rw [Heap.envOf, Heap.envOf, inHeap, found] at env
    change o'.env = o.env.map m.apply at env
    have kept : o' = { o with env := o.env.map m.apply } := by
      calc o' = { o'.withoutEnv with env := o'.env } := rfl
        _ = { o.withoutEnv with env := o.env.map m.apply } := by rw [same, env]
    rw [kept]
    rfl

/-! ### Nothing to rename -/

theorem renewHeap_nil (heap rest : Heap) (visited : List Nat) (work : List Renewal) :
  ∀ r, renewHeap [] heap rest visited work = .ok r → ∀ i, r.1.get? i = heap.get? i
  := by
  fun_induction renewHeap [] heap rest visited work with
  | case1 heap rest visited =>
    intro r result i
    cases result
    rfl
  | case2 heap rest visited i work a present o found ih => exact ih
  | case3 | case5 =>
    intro r result
    cases result
  | case4 heap rest visited i work gone present ih => exact ih
  | case6 heap rest visited i work e found ih => exact ih
  | case7 heap rest visited i work none ih => exact ih
  | case8 heap rest visited i work ih =>
    intro r result j
    have same : Renaming.apply [] = id := funext fun _ => rfl
    rw [ih r result j, Heap.lookup_update, same]
    simp only [Option.map_id, id_eq, Option.map_id', ite_self]

theorem renewFrom_nil {roots : List Nat} :
  ∀ {heap rest visited r}, renewFrom [] heap rest visited roots = .ok r → ∀ i, r.1.get? i = heap.get? i
  := by
  induction roots with
  | nil =>
    intro heap rest visited r result i
    cases result
    rfl
  | cons j roots ih =>
    intro heap rest visited r result i
    rw [renewFrom] at result
    split at result
    · cases result
    · obtain ⟨r1, walk, after⟩ := except_bind_eq_ok.1 result
      rw [ih after, renewHeap_nil _ _ _ _ _ walk]

theorem renameRefs_nil {s u : State}
    (still : ∀ i o, s.objs.get? i = some o → o.mapProps (renameValue []) = o)
    (result : s.renameRefs [] = .ok u) :
  ∃ h, u = { s with objs := h, value := renameValue [] s.value } ∧ ∀ i, h.get? i = s.objs.get? i
  := by
  obtain ⟨l, -, result⟩ := except_bind_eq_ok.1 result
  obtain ⟨g, -, result⟩ := except_bind_eq_ok.1 result
  obtain ⟨⟨heap, rest, visited⟩, walk, result⟩ := except_bind_eq_ok.1 result
  obtain ⟨⟨heap', rest', visited'⟩, walk', result⟩ := except_bind_eq_ok.1 result
  cases result
  refine ⟨_, rfl, fun i => ?_⟩
  have same : heap'.get? i = s.objs.get? i := by
    rw [renewHeap_nil _ _ _ _ _ walk', renewFrom_nil walk]
  refine (Heap.get?_foldl_update (f := Obj.mapProps (renameValue [])) i heap'
    (Heap.nodup_eraseDups visited')).trans ?_
  rw [same]
  cases found : s.objs.get? i with
  | none => exact ite_self _
  | some o => rw [Option.map_some, still i o found, ite_self]

end State

end ScriptLens
