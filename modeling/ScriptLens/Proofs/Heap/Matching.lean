import ScriptLens.Proofs.Heap.Renaming

/-!
# The renaming that a parallel walk records

`State.matchFrom` walks two heaps in parallel and records which number is to stand for which.
-/

open ScriptLens.Domain List

namespace ScriptLens.Heap

variable {α : Type} {object : Nat → α} {next : Obj → List α} {source rest : Heap} {work : List α}
  {x : α} {i : Nat} {o : Obj}

theorem get?_of_erase {h : Heap} {j : Nat} (found : (h.erase i).get? j = some o) : h.get? j = some o
  := by
  rw [lookup_erase] at found
  split at found
  · cases found
  · exact found

def Visited (object : Nat → α) (source rest : Heap) (x : α) : Prop :=
  ∃ i, x = object i ∧ source.Has i ∧ rest.get? i = none

/-- What a walk that goes from objects to the places in `next` keeps true: `rest` holds objects that are
not visited, and the places that visited objects lead to are visited or still in `work`. -/
structure Walk (object : Nat → α) (next : Obj → List α) (source rest : Heap) (work : List α) :
    Prop where
  part : ∀ i o, rest.get? i = some o → source.get? i = some o
  due : ∀ i o, source.get? i = some o → rest.get? i = none → ∀ x ∈ next o,
    Visited object source rest x ∨ x ∈ work

theorem Walk.start : Walk object next source source work := by
  refine ⟨fun _ _ there => there, fun i o there missing => ?_⟩
  rw [there] at missing
  cases missing

theorem Walk.visit (walk : Walk object next source rest (object i :: work))
    (found : rest.get? i = some o) :
  Walk object next source (rest.erase i) (next o ++ work) ∧
    ∀ x, Visited object source rest x ∨ x ∈ object i :: work →
      Visited object source (rest.erase i) x ∨ x ∈ next o ++ work
  := by
  have known : ∀ x, Visited object source rest x ∨ x ∈ object i :: work →
      Visited object source (rest.erase i) x ∨ x ∈ next o ++ work := by
    rintro x (⟨j, rfl, there, gone⟩ | place)
    · refine .inl ⟨j, rfl, there, ?_⟩
      rw [lookup_erase, gone, ite_self]
    · rcases mem_cons.1 place with rfl | later
      · refine .inl ⟨i, rfl, ⟨o, walk.part i o found⟩, ?_⟩
        rw [lookup_erase, if_pos rfl]
      · exact .inr (mem_append_right _ later)
  refine ⟨⟨fun j a kept => walk.part j a (get?_of_erase kept), ?_⟩, known⟩
  intro j a there gone x leads
  by_cases same : i = j
  · subst same
    cases (walk.part i o found).symm.trans there
    exact .inr (mem_append_left _ leads)
  · rw [lookup_erase, if_neg same] at gone
    exact known x (walk.due j a there gone x leads)

theorem Walk.skip (walk : Walk object next source rest (object i :: work)) (there : source.Has i)
    (gone : rest.get? i = none) :
  Walk object next source rest work ∧
    ∀ x, Visited object source rest x ∨ x ∈ object i :: work → Visited object source rest x ∨ x ∈ work
  := by
  have known : ∀ x, Visited object source rest x ∨ x ∈ object i :: work →
      Visited object source rest x ∨ x ∈ work := by
    rintro x (visited | place)
    · exact .inl visited
    · rcases mem_cons.1 place with rfl | later
      · exact .inl ⟨i, rfl, there, gone⟩
      · exact .inr later
  exact ⟨⟨walk.part, fun j a found visited x leads => known x (walk.due j a found visited x leads)⟩, known⟩

/-- What holds at the end of a walk: all that it started with is visited, and all that the visited objects
lead to. -/
structure Walked (object : Nat → α) (next : Obj → List α) (source rest : Heap) (work : List α)
    (rest' : Heap) : Prop where
  all : ∀ x, Visited object source rest x ∨ x ∈ work → Visited object source rest' x
  closed : ∀ i o, source.get? i = some o → rest'.get? i = none → ∀ x ∈ next o,
    Visited object source rest' x

theorem Walk.done (walk : Walk object next source rest []) : Walked object next source rest [] rest
  := by
  have known : ∀ x, Visited object source rest x ∨ x ∈ [] → Visited object source rest x := by
    rintro x (visited | impossible)
    · exact visited
    · cases impossible
  exact ⟨known, fun i o there gone x leads => known x (walk.due i o there gone x leads)⟩

theorem Walked.before {rest1 rest' : Heap} {work1 : List α}
    (walked : Walked object next source rest1 work1 rest')
    (known : ∀ x, Visited object source rest x ∨ x ∈ work → Visited object source rest1 x ∨ x ∈ work1) :
  Walked object next source rest work rest'
  := ⟨fun x before => walked.all x (known x before), walked.closed⟩

end ScriptLens.Heap

namespace ScriptLens

namespace Matching

def first : Matching → Nat
  | edge i _ => i
  | link i _ _ => i

def second : Matching → Nat
  | edge _ j => j
  | link _ j _ => j

end Matching

variable {v : Value} {r : Ref} {k : Key} {o : Obj} {i : Nat}

theorem Value.ref?_mem (found : v.ref? = some r) : r ∈ v.refs := by
  unfold ref? at found
  split at found
  · rename_i q only
    cases found
    rw [only]
    apply mem_singleton_self
  · cases found

theorem Props.mem_of_get? {ps : Props} (found : ps.get? k = some v) : ∃ l, l.same k = true ∧ (l, v) ∈ ps
  := by
  induction ps with
  | nil => cases found
  | cons p ps ih =>
    rw [get?] at found
    split at found
    · rename_i same
      cases found
      use p.1, same, mem_cons_self
    · obtain ⟨l, same, inside⟩ := ih found
      use l, same, mem_cons_of_mem _ inside

theorem Obj.env_mem_targets {e : Nat} (found : o.env = some e) : e ∈ o.targets := by
  rw [Obj.targets, found]
  apply mem_append_right
  apply mem_singleton_self

theorem Obj.ref_mem_targets
    (property : (k, v) ∈ o.props) (reference : r ∈ v.refs) (named : i ∈ r.ids) : i ∈ o.targets
  := by
  apply mem_append_left
  apply mem_flatMap.2
  use (k, v), property
  apply mem_flatMap.2
  use r, reference

theorem Ref.target_mem_ids (r : Ref) : r.target ∈ r.ids
  := mem_cons_self

theorem Ref.this_mem_ids (bound : r.this = .object i) : i ∈ r.ids := by
  rw [ids, bound]
  apply mem_cons_of_mem
  apply mem_singleton_self

theorem Obj.mem_matching {a b : Obj} {w : Matching} (member : w ∈ a.matching b) :
  w.first ∈ a.targets ∧ w.second ∈ b.targets
  := by
  rcases mem_append.1 member with env | property
  · split at env
    · rename_i i j inFirst inSecond
      rcases mem_cons.1 env with rfl | env
      · use env_mem_targets inFirst, env_mem_targets inSecond
      · obtain rfl := mem_singleton.1 env
        use env_mem_targets inFirst, env_mem_targets inSecond
    · cases env
  · obtain ⟨⟨k, v⟩, inFirst, step⟩ := mem_flatMap.1 property
    split at step
    · rename_i r q left right
      obtain ⟨v', found, right⟩ := Option.bind_eq_some_iff.1 right
      obtain ⟨k', -, inSecond⟩ := Props.mem_of_get? found
      have inR := Value.ref?_mem left
      have inQ := Value.ref?_mem right
      have target := And.intro (ref_mem_targets inFirst inR r.target_mem_ids)
        (ref_mem_targets inSecond inQ q.target_mem_ids)
      rcases mem_cons.1 step with rfl | step
      · apply target
      · rcases mem_cons.1 step with rfl | step
        · apply target
        · split at step
          · rename_i i j thisR thisQ
            have this := And.intro (ref_mem_targets inFirst inR (Ref.this_mem_ids thisR))
              (ref_mem_targets inSecond inQ (Ref.this_mem_ids thisQ))
            rcases mem_cons.1 step with rfl | step
            · apply this
            · obtain rfl := mem_singleton.1 step
              apply this
          · cases step
    · cases step

theorem Obj.even_matching {a b : Obj} {w : Matching} (env : a.env = b.env)
    (refs : ∀ p ∈ a.props, ∀ r q, p.2.ref? = some r → (b.get? p.1).bind Value.ref? = some q → r = q)
    (member : w ∈ a.matching b) : w.first = w.second
  := by
  rcases mem_append.1 member with step | property
  · rw [env] at step
    cases found : b.env with
    | none =>
      rw [found] at step
      cases step
    | some i =>
      rw [found] at step
      simp only [mem_cons, not_mem_nil, or_false] at step
      rcases step with rfl | rfl <;> rfl
  · obtain ⟨p, inside, step⟩ := mem_flatMap.1 property
    split at step
    · rename_i r q isRef other
      obtain rfl := refs p inside r q isRef other
      simp only [mem_cons] at step
      rcases step with rfl | rfl | this
      · rfl
      · rfl
      · split at this
        · rename_i i j isThis isThis'
          cases isThis.symm.trans isThis'
          simp only [mem_cons, not_mem_nil, or_false] at this
          rcases this with rfl | rfl <;> rfl
        · cases this
    · cases step

namespace Renaming

/-- What is known of a renaming that a walk from the fresh number `start` on has recorded, where
`next` is the next fresh number. -/
structure Recorded (m : Renaming) (h : Heap) (reach : Nat → Prop) (start next : Nat) : Prop where
  functional : m.Functional
  inUse : ∀ a ∈ m, h.Has a.1
  /-- What is renamed was reached, or makes room. -/
  origin : ∀ a ∈ m, reach a.1 ∨ start ≤ a.2
  issued : ∀ a ∈ m, a.2 < next
  distinct : ∀ a ∈ m, ∀ b ∈ m, a.2 = b.2 → start ≤ a.2 → a = b

variable {m : Renaming} {h : Heap} {reach : Nat → Prop} {start next : Nat}

theorem Recorded.nil : Recorded [] h reach start next := by
  constructor
  · apply nodup_nil
  all_goals
    intro a member
    cases member

section

variable {i j next' : Nat} (recorded : m.Recorded h reach start next) (inUse : h.Has i)

include recorded inUse

theorem Recorded.set
    (origin : reach i ∨ start ≤ j) (le : next ≤ next') (issued : j < next')
    (distinct : ∀ a ∈ m, a.2 = j → j < start) : (m.set i j).Recorded h reach start next'
  := by
  have mem := mem_set recorded.functional i j
  constructor
  · apply recorded.functional.set
  · intro a member
    rcases (mem a).1 member with rfl | ⟨member, -⟩
    · apply inUse
    · apply recorded.inUse a member
  · intro a member
    rcases (mem a).1 member with rfl | ⟨member, -⟩
    · apply origin
    · apply recorded.origin a member
  · intro a member
    rcases (mem a).1 member with rfl | ⟨member, -⟩
    · apply issued
    · apply Nat.lt_of_lt_of_le (recorded.issued a member) le
  · intro a member b member' same fresh
    rcases (mem a).1 member with rfl | ⟨member, -⟩
    · rcases (mem b).1 member' with rfl | ⟨member', -⟩
      · rfl
      · apply (Nat.not_le.2 (distinct b member' same.symm) fresh).elim
    · rcases (mem b).1 member' with rfl | ⟨member', -⟩
      · rw [same] at fresh
        apply (Nat.not_le.2 (distinct a member same) fresh).elim
      · apply recorded.distinct a member b member' same fresh

theorem Recorded.link
    (reached : reach i) (old : j < start) (le : start ≤ next) :
  (m.set i j).Recorded h reach start next
  := recorded.set inUse (.inl reached) (Nat.le_refl next) (Nat.lt_of_lt_of_le old le) fun _ _ _ => old

omit inUse in
theorem Recorded.makeRoom (inUse : h.Has j)
    (le : start ≤ next) : (m.set j next).Recorded h reach start (next + 1)
  := by
  apply recorded.set inUse (.inr le) (Nat.le_succ next) (Nat.lt_succ_self next)
  intro a member same
  apply absurd (recorded.issued a member)
  rw [same]
  apply Nat.lt_irrefl

end

end Renaming

namespace State

variable {first second : Heap} {reach : Nat → Prop} {start : Nat} {c : Setting}

theorem matchHeaps_recorded (inFirst : ∀ i, reach i → first.Has i)
    (follow : ∀ i o, reach i → first.get? i = some o → ∀ j ∈ o.targets, reach j)
    (closed : second.Closed) (below : second.Below start) (rest : Heap) (m : Renaming)
    (work : List Matching) :
  ∀ n, (∀ i o, rest.get? i = some o → first.get? i = some o) →
    m.Recorded first reach start n → start ≤ n →
    (∀ w ∈ work, reach w.first ∧ second.Has w.second) →
    ∃ m' rest' n', (matchHeaps first second rest m work).eval c n = .ok ((m', rest'), n') ∧
      (∀ i o, rest'.get? i = some o → first.get? i = some o) ∧
      m'.Recorded first reach start n' ∧ start ≤ n'
  := by
  fun_induction matchHeaps first second rest m work with
  | case1 rest m =>
    intro n sub recorded le _
    use m, rest, n, rfl, sub, recorded
  | case2 rest m i j makeRoom work known ih | case7 rest m i j work known inside ih =>
    intro n sub recorded le valid
    apply ih n sub recorded le (forall_mem_cons.1 valid).2
  | case3 rest m i j makeRoom work different room ih =>
    intro n sub recorded le valid
    obtain ⟨⟨reached, inSecond⟩, valid⟩ := forall_mem_cons.1 valid
    have taken : first.Has j := (first.contains_iff j).1 (Bool.and_eq_true_iff.1 room).2
    rw [eval_bind_ok (eval_newId c n)]
    apply ih n (n + 1) sub _ (Nat.le_succ_of_le le) valid
    apply (recorded.makeRoom taken le).link (inFirst i reached) reached (below j inSecond)
    apply Nat.le_succ_of_le le
  | case4 rest m i j makeRoom work different noRoom ih =>
    intro n sub recorded le valid
    obtain ⟨⟨reached, inSecond⟩, valid⟩ := forall_mem_cons.1 valid
    apply ih n sub _ le valid
    apply recorded.link (inFirst i reached) reached (below j inSecond) le
  | case5 rest m i j work a found b found' ih =>
    intro n sub recorded le valid
    obtain ⟨⟨reached, -⟩, valid⟩ := forall_mem_cons.1 valid
    apply ih n (fun k o kept => sub k o (Heap.get?_of_erase kept)) recorded le
    intro w member
    rcases mem_append.1 member with new | old
    · obtain ⟨inA, inB⟩ := Obj.mem_matching new
      use follow i a reached (sub i a found) _ inA
      apply closed j b found' _ inB
    · apply valid w old
  | case6 rest m i j work a found missing =>
    intro n _ _ _ valid
    obtain ⟨o, there⟩ := (valid _ mem_cons_self).2
    rw [Matching.second, missing] at there
    cases there
  | case8 rest m i j work visited outside =>
    intro n _ _ _ valid
    apply (outside ((first.contains_iff i).2 (inFirst i (valid _ mem_cons_self).1))).elim

/-- A parallel walk that matches every number with itself records nothing.  If it fails, one of the
heaps lacks a number that it comes to. -/
theorem matchHeaps_even (even : ∀ i a b, reach i → first.get? i = some a → second.get? i = some b →
      ∀ w ∈ a.matching b, w.first = w.second ∧ reach w.first)
    (rest : Heap) (m : Renaming) (work : List Matching) (n : Nat) :
  (∀ i o, rest.get? i = some o → first.get? i = some o) →
    (∀ w ∈ work, w.first = w.second ∧ reach w.first) →
    (∃ rest', (matchHeaps first second rest m work).eval c n = .ok ((m, rest'), n) ∧
      ∀ i o, rest'.get? i = some o → first.get? i = some o) ∨
    ((matchHeaps first second rest m work).eval c n = .error .missingEntry ∧
      ∃ i, reach i ∧ ¬ (first.Has i ∧ second.Has i))
  := by
  fun_induction matchHeaps first second rest m work with
  | case1 rest m =>
    intro sub _
    exact .inl ⟨rest, rfl, sub⟩
  | case2 rest m i j makeRoom work known ih | case7 rest m i j work known present ih =>
    intro sub all
    exact ih sub (forall_mem_cons.1 all).2
  | case3 rest m i j makeRoom work differs | case4 rest m i j makeRoom work differs =>
    intro _ all
    exact (differs (beq_iff_eq.2 (all _ mem_cons_self).1)).elim
  | case5 rest m i j work a found b found' ih =>
    intro sub all
    obtain ⟨⟨same, reached⟩, later⟩ := forall_mem_cons.1 all
    obtain rfl : i = j := same
    apply ih (fun k o kept => sub k o (Heap.get?_of_erase kept))
    intro w member
    rcases mem_append.1 member with new | old
    · exact even i a b reached (sub i a found) found' w new
    · exact later w old
  | case6 rest m i j work a found missing =>
    intro _ all
    obtain ⟨same, reached⟩ := all _ mem_cons_self
    obtain rfl : i = j := same
    exact .inr ⟨rfl, i, reached, fun both => (Heap.get?_eq_none_iff _ _).1 missing both.2⟩
  | case8 rest m i j work visited missing =>
    intro _ all
    exact .inr ⟨rfl, i, (all _ mem_cons_self).2, fun both => missing ((first.contains_iff i).2 both.1)⟩

theorem matchFrom_even {s t : State} (even : ∀ i a b, reach i → s.objs.get? i = some a →
      t.objs.get? i = some b → ∀ w ∈ a.matching b, w.first = w.second ∧ reach w.first)
    {m : Renaming} {n : Nat} (roots : List Nat) :
  ∀ rest, (∀ i o, rest.get? i = some o → s.objs.get? i = some o) → (∀ i ∈ roots, reach i) →
    (matchFrom s t rest m (roots.map fun i => (some i, some i))).eval c n = .ok (m, n) ∨
    ((matchFrom s t rest m (roots.map fun i => (some i, some i))).eval c n = .error .missingEntry ∧
      ∃ i, reach i ∧ ¬ (s.objs.Has i ∧ t.objs.Has i))
  := by
  induction roots with
  | nil =>
    intro rest _ _
    exact .inl rfl
  | cons i roots ih =>
    intro rest sub all
    obtain ⟨reached, all⟩ := forall_mem_cons.1 all
    rw [map_cons, matchFrom, eval_lift_bind_ok (scopeId_some i)]
    cases inS : s.objs.get? i with
    | none =>
      right
      rw [obj, inS]
      exact ⟨rfl, i, reached, fun both => (Heap.get?_eq_none_iff _ _).1 inS both.1⟩
    | some a =>
      rw [eval_lift_bind_ok (obj_ok inS), eval_lift_bind_ok (scopeId_some i)]
      cases inT : t.objs.get? i with
      | none =>
        right
        rw [obj, inT]
        exact ⟨rfl, i, reached, fun both => (Heap.get?_eq_none_iff _ _).1 inT both.2⟩
      | some b =>
        rw [eval_lift_bind_ok (obj_ok inT)]
        rcases matchHeaps_even (c := c) even rest m _ n sub (even i a b reached inS inT) with
          ⟨rest', walked, sub'⟩ | ⟨failed, missing⟩
        · rw [eval_bind_ok walked]
          exact ih rest' sub' all
        · right
          exact ⟨eval_bind_error failed, missing⟩

theorem matchFrom_recorded {s t : State} (closedS : s.Closed) (closedT : t.objs.Closed)
    (below : t.objs.Below start) (roots : List (Option Nat × Option Nat)) :
  ∀ rest m n, (∀ i o, rest.get? i = some o → s.objs.get? i = some o) →
    m.Recorded s.objs s.Reach start n → start ≤ n →
    (∀ p ∈ roots, ∃ i j, p = (some i, some j) ∧ s.Reach i ∧ t.objs.Has j) →
    ∃ m' n', (matchFrom s t rest m roots).eval c n = .ok (m', n') ∧
      m'.Recorded s.objs s.Reach start n' ∧ start ≤ n'
  := by
  induction roots with
  | nil =>
    intro rest m n _ recorded le _
    use m, n, rfl, recorded, le
  | cons p roots ih =>
    intro rest m n sub recorded le valid
    obtain ⟨i, j, rfl, reached, b, inT⟩ := valid _ mem_cons_self
    obtain ⟨a, inS⟩ := closedS.has_of_reach reached
    obtain ⟨m1, rest1, n1, walked, sub1, recorded1, le1⟩ :=
      matchHeaps_recorded (c := c) (fun _ => closedS.has_of_reach)
        (fun _ _ reached found _ target => reached.target found target) closedT below rest m
        (a.matching b) n sub recorded le
        (by
          intro w member
          obtain ⟨inA, inB⟩ := Obj.mem_matching member
          use reached.target inS inA
          apply closedT j b inT _ inB)
    obtain ⟨m', n', finished, recorded', le'⟩ := ih rest1 m1 n1 sub1 recorded1 le1
      (fun q member => valid q (mem_cons_of_mem _ member))
    use m', n'
    constructor
    · have objS : s.obj i = .ok a := by rw [obj, inS]; rfl
      have objT : t.obj j = .ok b := by rw [obj, inT]; rfl
      rw [matchFrom, eval_lift_bind_ok (scopeId_some i), eval_lift_bind_ok objS,
        eval_lift_bind_ok (scopeId_some j), eval_lift_bind_ok objT,
        eval_bind_ok walked]
      apply finished
    · use recorded', le'

end State

end ScriptLens
