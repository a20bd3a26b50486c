import ScriptLens.Domain.Compare
import ScriptLens.Proofs.Object.Join
import ScriptLens.Proofs.State.Copy

/-!
# Equality of states

A comparison of two states walks over both heaps at once and goes where a copy goes.
-/

namespace ScriptLens

namespace Heap

variable {h k : Heap} {roots : List Nat} {i : Nat}

def Matched (h k : Heap) (i : Nat) : Prop := ∃ a ∈ h.get? i, ∃ b ∈ k.get? i, a.equal b = true

instance : Decidable (h.Matched k i) :=
  inferInstanceAs (Decidable (∃ a ∈ h.get? i, ∃ b ∈ k.get? i, a.equal b = true))

def Plain (h : Heap) : Prop :=
  ∀ i o, h.get? i = some o → o.Proper ∧ ∀ p ∈ o.props, p.2.refs.length ≤ 1

instance : Decidable h.Plain :=
  decidable_of_iff' _ (forall_objs_iff (P := fun _ o => o.Proper ∧ ∀ p ∈ o.props, p.2.refs.length ≤ 1))

theorem Plain.edge_of_target (plain : h.Plain) {o : Obj} {j : Nat} (found : h.get? i = some o)
    (target : j ∈ o.targets) : j ∈ o.edges
  := by
  rw [Obj.edges, List.mem_append, List.mem_flatMap]
  rcases Obj.mem_targets.1 target with property | env
  · obtain ⟨p, listed, named⟩ := List.mem_flatMap.1 property
    obtain ⟨r, reference, name⟩ := List.mem_flatMap.1 named
    refine .inr ⟨p, listed, ?_⟩
    rw [Value.ref?_eq ((plain i o found).2 p listed) reference]
    exact name
  · exact .inl (Option.mem_toList.2 env)

theorem Plain.leads_iff (plain : h.Plain) : h.Leads roots i ↔ h.Reach roots i := by
  constructor
  · intro leads
    apply leads.mem_of_closed fun j root => .root root
    intro j o reached found k edge
    exact .step reached found (o.edges_subset edge)
  · intro reached
    apply reached.mem_of_closed fun j root => .root root
    intro j o leads found k target
    exact .step leads found (plain.edge_of_target found target)

end Heap

theorem Value.equal_of_same {v w : Value} (proper : ∀ a ∈ v.choices, a.equal a = true)
    (alike : v.same w = true) : v.equal w = true
  := by
  cases v with
  | atom a =>
    cases w with
    | atom b => exact Atom.equal_of_same (proper a (List.mem_singleton_self a)) alike
    | _ => cases alike
  | _ => cases w <;> exact alike

theorem Value.refIds_of_equal {v w : Value} {i : Nat} (same : v.equal w = true)
    (named : i ∈ State.refIds v) : i ∈ State.refIds w
  := by
  obtain ⟨r, reference, name⟩ := List.mem_flatMap.1 named
  obtain ⟨a, inside, is⟩ := mem_refs.1 reference
  obtain rfl := Atom.eq_ref is
  obtain ⟨b, inside', alike⟩ := covered_of_equal (equal_symm same) inside
  have related := Atom.same_iff.1 (Atom.same_symm alike)
  cases b with
  | ref q =>
    apply List.mem_flatMap.2 ⟨q, mem_refs.2 ⟨_, inside', rfl⟩, ?_⟩
    rw [← related.ids]
    exact name
  | _ => cases related

namespace Obj

variable {a b : Obj} {x : Comparison}

theorem env_of_equal (same : a.equal b = true) : a.env = b.env := by
  simp only [equal, Bool.and_eq_true, beq_iff_eq] at same
  exact same.1.1.1.1.2

def lists (b : Obj) (p : Key × Value) : Bool :=
  match b.get? p.1 with
  | some w => p.2.equal w
  | none => false

theorem lists_iff {p : Key × Value} :
  b.lists p = true ↔ ∃ w, b.get? p.1 = some w ∧ p.2.equal w = true
  := by
  unfold lists
  cases b.get? p.1 <;> simp

theorem Proper.agrees (proper : a.Proper) (same : a.equal b = true) {p : Key × Value}
    (listed : p ∈ a.props) : b.lists p = true
  := by
  simp only [equal, Props.equal, Bool.and_eq_true, List.all_eq_true] at same
  have alike := same.1.1.1.1.1.1.1.2 p listed
  split at alike
  · rename_i w found
    exact lists_iff.2 ⟨w, found, Value.equal_of_same (proper p listed) alike⟩
  · cases alike

/-- The steps that compare the given properties with those of an object. -/
def comparisons (b : Obj) (ps : Props) : List Comparison :=
  ps.flatMap fun p =>
    .check (b.lists p) :: ((p.2.ref?.map Ref.ids).getD []).map fun i => .edge i i

theorem comparison_eq (a b : Obj) :
  a.comparison b = (match a.env, b.env with
    | some i, some j => [.edge i j]
    | _, _ => []) ++ b.comparisons a.props ++ [.check (a.equal b)]
  := rfl

theorem mem_comparison :
  x ∈ a.comparison b ↔ (∃ i j, a.env = some i ∧ b.env = some j ∧ x = .edge i j) ∨
    (∃ p ∈ a.props, x = .check (b.lists p) ∨
      ∃ i ∈ (p.2.ref?.map Ref.ids).getD [], x = .edge i i) ∨
    x = .check (a.equal b)
  := by
  simp only [comparison_eq, comparisons, List.mem_append, List.mem_flatMap, List.mem_cons, List.mem_map,
    List.not_mem_nil, or_false, eq_comm (b := x), or_assoc]
  refine or_congr_left ?_
  cases a.env <;> cases b.env <;> simp

theorem eq_of_edge_mem_comparison {i j : Nat} (envs : a.env = b.env) (place : .edge i j ∈ a.comparison b) :
  i = j
  := by
  rcases mem_comparison.1 place with ⟨_, _, isI, isJ, ⟨⟩⟩ | ⟨_, _, ⟨⟨⟩⟩ | ⟨_, _, ⟨⟩⟩⟩ | ⟨⟨⟩⟩
  · rw [← envs, isI] at isJ
    exact Option.some.inj isJ
  · rfl

end Obj

def Comparison.start? : Comparison → Option Nat
  | check _ => none
  | edge i _ => some i

theorem Obj.starts_comparison {a b : Obj} (envs : a.env = b.env) :
  (a.comparison b).filterMap Comparison.start? = a.edges
  := by
  rw [comparison_eq, comparisons, edges, ← envs]
  cases a.env <;> simp [Comparison.start?, List.filterMap_flatMap, List.filterMap_cons, Function.comp_def]

namespace State

variable {first second rest : Heap} {work : List Comparison} {roots : List Nat} {a b : Obj} {i j : Nat}

/-! ### What a comparison that succeeds has seen -/

/-- All that has been visited is equal in both heaps, and what it leads to has been visited or is
ahead. -/
structure Compared (first second rest : Heap) (ahead : List Nat) : Prop where
  walk : first.Walk id Obj.edges rest ahead
  matched : ∀ i, Heap.Visited id first rest i → first.Matched second i

theorem compareHeaps_compared (rest : Heap) (work : List Comparison) :
  ∀ rest', compareHeaps first second rest work = .ok (some rest') →
    (∀ holds, .check holds ∈ work → holds = true) ∧
    ((∀ i j, .edge i j ∈ work → i = j) →
      Compared first second rest (work.filterMap Comparison.start?) →
      Compared first second rest' [] ∧
        ∀ i, Heap.Visited id first rest i ∨ i ∈ work.filterMap Comparison.start? →
          Heap.Visited id first rest' i)
  := by
  fun_induction compareHeaps first second rest work with
  | case1 rest =>
    intro rest' result
    cases result
    refine ⟨fun holds impossible => (by cases impossible), fun _ compared => ⟨compared, ?_⟩⟩
    exact fun i known => known.resolve_right List.not_mem_nil
  | case2 rest work ih =>
    intro rest' result
    obtain ⟨checks, later⟩ := ih rest' result
    refine ⟨fun holds place => ?_, fun even => later fun i j place => even i j (List.mem_cons_of_mem _ place)⟩
    rcases List.mem_cons.1 place with same | place
    · exact Comparison.check.inj same
    · exact checks holds place
  | case4 rest i j work a found b found' ih =>
    intro rest' result
    obtain ⟨checks, later⟩ := ih rest' result
    refine ⟨fun holds place => checks holds (List.mem_append_right _ ?_), fun even compared => ?_⟩
    · exact (List.mem_cons.1 place).resolve_left Comparison.noConfusion
    · obtain rfl := even i j List.mem_cons_self
      have same := checks _ (List.mem_append_left _ (Obj.mem_comparison.2 (.inr (.inr rfl))))
      have envs := Obj.env_of_equal same
      obtain ⟨walk, known⟩ := compared.walk.visit found
      rw [List.filterMap_append, Obj.starts_comparison envs] at later
      obtain ⟨compared', all⟩ := later (by
        intro k l place
        rcases List.mem_append.1 place with new | old
        · exact Obj.eq_of_edge_mem_comparison envs new
        · exact even k l (List.mem_cons_of_mem _ old)) ⟨walk, (by
        rintro k ⟨_, rfl, there, gone⟩
        rw [Heap.lookup_erase] at gone
        split at gone
        · rename_i here
          subst here
          exact ⟨a, compared.walk.part i a found, b, found', same⟩
        · exact compared.matched k ⟨k, rfl, there, gone⟩)⟩
      exact ⟨compared', fun k before => all k (known k before)⟩
  | case6 rest i j work visited present ih =>
    intro rest' result
    obtain ⟨checks, later⟩ := ih rest' result
    refine ⟨fun holds place => checks holds ?_, fun even compared => ?_⟩
    · exact (List.mem_cons.1 place).resolve_left Comparison.noConfusion
    · obtain ⟨walk, known⟩ := compared.walk.skip ((first.contains_iff i).1 present) visited
      obtain ⟨compared', all⟩ := later (fun k l place => even k l (List.mem_cons_of_mem _ place))
        ⟨walk, compared.matched⟩
      exact ⟨compared', fun k before => all k (known k before)⟩
  | case3 | case5 | case7 =>
    intro rest' result
    cases result

variable {s t : State}

/-- All objects from which a comparison starts are equal, and all that they lead to has been visited. -/
theorem compareFrom_compared {ids : List Nat} :
  ∀ {rest : Heap}, compareFrom s t rest (ids.map fun i => (some i, some i)) = .ok true →
    Compared s.objs t.objs rest [] →
    ∃ rest', Compared s.objs t.objs rest' [] ∧
      (∀ i, Heap.Visited id s.objs rest i → Heap.Visited id s.objs rest' i) ∧
      ∀ i ∈ ids, s.objs.Matched t.objs i ∧
        ∀ o, s.objs.get? i = some o → ∀ j ∈ o.edges, Heap.Visited id s.objs rest' j
  := by
  induction ids with
  | nil =>
    intro rest _ compared
    exact ⟨rest, compared, fun _ visited => visited, fun _ member => (List.not_mem_nil member).elim⟩
  | cons i ids ih =>
    intro rest result compared
    obtain ⟨_, ⟨⟩, result⟩ := except_bind_eq_ok.1 result
    obtain ⟨a, isA, result⟩ := except_bind_eq_ok.1 result
    obtain ⟨_, ⟨⟩, result⟩ := except_bind_eq_ok.1 result
    obtain ⟨b, isB, result⟩ := except_bind_eq_ok.1 result
    have foundA := obj_eq_ok isA
    obtain ⟨outcome, run, result⟩ := except_bind_eq_ok.1 result
    cases outcome with
    | none => cases result
    | some rest1 =>
      obtain ⟨checks, later⟩ := compareHeaps_compared _ _ rest1 run
      have same := checks _ (Obj.mem_comparison.2 (.inr (.inr rfl)))
      have envs := Obj.env_of_equal same
      rw [Obj.starts_comparison envs] at later
      obtain ⟨compared1, visits⟩ := later (fun k l place => Obj.eq_of_edge_mem_comparison envs place)
        ⟨⟨compared.walk.part, fun k o there gone l edge =>
          .inl ((compared.walk.due k o there gone l edge).resolve_right List.not_mem_nil)⟩, compared.matched⟩
      obtain ⟨rest', compared', kept, all⟩ := ih result compared1
      refine ⟨rest', compared', fun j visited => kept j (visits j (.inl visited)), ?_⟩
      intro j member
      rcases List.mem_cons.1 member with rfl | later
      · refine ⟨⟨a, foundA, b, obj_eq_ok isB, same⟩, fun o there k edge => kept k (visits k (.inr ?_))⟩
        cases foundA.symm.trans there
        exact edge
      · exact all j later

theorem compareFrom_matched {ids : List Nat}
    (result : compareFrom s t s.objs (ids.map fun i => (some i, some i)) = .ok true)
    (leads : s.objs.Leads ids i) : s.objs.Matched t.objs i
  := by
  obtain ⟨rest, compared, -, all⟩ := compareFrom_compared result ⟨.start, (by
    rintro i ⟨_, rfl, ⟨o, there⟩, gone⟩
    cases gone.symm.trans there)⟩
  have known : s.objs.Matched t.objs i ∧
      ∀ o, s.objs.get? i = some o → ∀ j ∈ o.edges, Heap.Visited id s.objs rest j := by
    apply leads.mem_of_closed all
    rintro j o ⟨-, edges⟩ there k edge
    refine ⟨compared.matched k (edges o there k edge), fun o' there' l edge' => ?_⟩
    obtain ⟨_, rfl, -, gone⟩ := edges o there k edge
    exact (compared.walk.due _ o' there' gone l edge').resolve_right List.not_mem_nil
  exact known.1

/-! ### Comparisons come to an end -/

/-- A property of the steps ahead that says that the objects to compare are there, and that is kept by
each step.  It is strict if no check fails. -/
structure Sure (first second : Heap) (sure : List Comparison → Prop) : Prop where
  check : ∀ {work}, sure (.check true :: work) → sure work
  edge : ∀ {i j work}, sure (.edge i j :: work) → first.Has i ∧ second.Has j ∧ sure work
  visit : ∀ {i j a b work}, first.get? i = some a → second.get? j = some b →
    sure (.edge i j :: work) → sure (a.comparison b ++ work)

variable {sure : List Comparison → Prop}

theorem compareHeaps_ends (keeps : Sure first second sure) (rest : Heap) (work : List Comparison) :
  (∀ i o, rest.get? i = some o → first.get? i = some o) → sure work →
  ∃ r, compareHeaps first second rest work = .ok r ∧
    (∀ rest', r = some rest' → ∀ i o, rest'.get? i = some o → first.get? i = some o) ∧
    ((∀ work, ¬ sure (.check false :: work)) → r.isSome)
  := by
  fun_induction compareHeaps first second rest work with
  | case1 rest =>
    intro part _
    refine ⟨some rest, rfl, ?_, fun _ => rfl⟩
    rintro _ ⟨⟩
    exact part
  | case2 rest work ih =>
    intro part isSure
    exact ih part (keeps.check isSure)
  | case3 rest holds work differs =>
    intro _ isSure
    rw [Bool.not_eq_true] at differs
    subst differs
    exact ⟨none, rfl, fun _ impossible => (by cases impossible), fun strict => (strict work isSure).elim⟩
  | case4 rest i j work a found b found' ih =>
    intro part isSure
    exact ih (fun k o kept => part k o (Heap.get?_of_erase kept)) (keeps.visit (part i a found) found' isSure)
  | case5 rest i j work a found missing =>
    intro _ isSure
    obtain ⟨-, ⟨b, found'⟩, -⟩ := keeps.edge isSure
    cases missing.symm.trans found'
  | case6 rest i j work visited present ih =>
    intro part isSure
    exact ih part (keeps.edge isSure).2.2
  | case7 rest i j work visited missing =>
    intro _ isSure
    exact (missing ((first.contains_iff i).2 (keeps.edge isSure).1)).elim

theorem compareFrom_ends (keeps : Sure s.objs t.objs sure) (ids : List Nat) :
  ∀ {rest : Heap}, (∀ i o, rest.get? i = some o → s.objs.get? i = some o) →
    (∀ i ∈ ids, sure [.edge i i]) →
    ∃ r, compareFrom s t rest (ids.map fun i => (some i, some i)) = .ok r ∧
      ((∀ work, ¬ sure (.check false :: work)) → r = true)
  := by
  induction ids with
  | nil => exact fun _ _ => ⟨true, rfl, fun _ => rfl⟩
  | cons i ids ih =>
    intro rest part starts
    obtain ⟨start, starts⟩ := List.forall_mem_cons.1 starts
    obtain ⟨⟨a, foundA⟩, ⟨b, foundB⟩, -⟩ := keeps.edge start
    have begun := keeps.visit foundA foundB start
    rw [List.append_nil] at begun
    obtain ⟨r, result, part', strict⟩ := compareHeaps_ends keeps rest _ part begun
    rw [List.map_cons, compareFrom, scope_bind foundA, scope_bind foundB, except_bind_of_ok result]
    cases r with
    | none => exact ⟨false, rfl, fun never => (by cases strict never)⟩
    | some rest' => exact ih (part' rest' rfl) starts

/-- The objects that are to be compared are there, as far as the checks before succeed. -/
def Ready (first second : Heap) : List Comparison → Prop
  | [] => True
  | .check holds :: work => holds = true → Ready first second work
  | .edge i j :: work => first.Has i ∧ second.Has j ∧ Ready first second work

theorem ready_edges {ids : List Nat} (present : ∀ i ∈ ids, first.Has i ∧ second.Has i)
    (ready : Ready first second work) : Ready first second ((ids.map fun i => .edge i i) ++ work)
  := by
  induction ids with
  | nil => exact ready
  | cons i ids ih =>
    obtain ⟨⟨here, there⟩, present⟩ := List.forall_mem_cons.1 present
    exact ⟨here, there, ih present⟩

theorem ready_comparisons (inFirst : ∀ i ∈ a.targets, first.Has i) (inSecond : ∀ i ∈ b.targets, second.Has i)
    (ready : Ready first second work) {ps : Props} (listed : ps ⊆ a.props) :
  Ready first second (b.comparisons ps ++ work)
  := by
  induction ps with
  | nil => exact ready
  | cons p ps ih =>
    obtain ⟨isListed, listed⟩ := List.cons_subset.1 listed
    rw [Obj.comparisons, List.flatMap_cons, List.append_assoc]
    intro agrees
    apply ready_edges _ (ih listed)
    intro i edge
    have named : i ∈ refIds p.2 := by
      cases isRef : p.2.ref? with
      | none =>
        rw [isRef] at edge
        cases edge
      | some r =>
        rw [isRef] at edge
        exact List.mem_flatMap.2 ⟨r, Value.ref?_mem isRef, edge⟩
    obtain ⟨w, found, same⟩ := Obj.lists_iff.1 agrees
    obtain ⟨l, -, listed'⟩ := Props.mem_of_get? found
    refine ⟨inFirst i (Obj.mem_targets.2 (.inl (List.mem_flatMap.2 ⟨p, isListed, named⟩))), ?_⟩
    apply inSecond i (Obj.mem_targets.2 (.inl (List.mem_flatMap.2 ⟨_, listed', ?_⟩)))
    exact Value.refIds_of_equal same named

theorem sure_ready (closed : first.Closed) (closed' : second.Closed) :
  Sure first second (Ready first second)
  := by
  refine ⟨fun ready => ready rfl, fun ready => ready, ?_⟩
  rintro i j a b work found found' ⟨-, -, ready⟩
  have checked : Ready first second (.check (a.equal b) :: work) := fun _ => ready
  have props := ready_comparisons (closed i a found) (closed' j b found') checked (List.Subset.refl a.props)
  rw [Obj.comparison_eq, List.append_assoc, List.append_assoc]
  split
  · rename_i k l isK isL
    exact ⟨closed i a found k (Obj.env_mem_targets isK), closed' j b found' l (Obj.env_mem_targets isL), props⟩
  · exact props

/-- The steps ahead lead from places that a copy comes to, and no check fails. -/
def Fine (first : Heap) (roots : List Nat) (work : List Comparison) : Prop :=
  ∀ x ∈ work, x = .check true ∨ ∃ i, x = .edge i i ∧ first.Leads roots i

theorem sure_fine (proper : ∀ i o, first.Leads roots i → first.get? i = some o → o.Proper)
    (matched : ∀ i, first.Leads roots i → first.Matched second i) : Sure first second (Fine first roots)
  := by
  have edge : ∀ {i j work}, Fine first roots (.edge i j :: work) →
      i = j ∧ first.Leads roots i ∧ Fine first roots work := by
    intro i j work fine
    obtain ⟨impossible | ⟨k, ⟨⟩, leads⟩, rest⟩ := List.forall_mem_cons.1 fine
    · cases impossible
    · exact ⟨rfl, leads, rest⟩
  refine ⟨fun fine => (List.forall_mem_cons.1 fine).2, fun fine => ?_, ?_⟩
  · obtain ⟨rfl, leads, rest⟩ := edge fine
    obtain ⟨a, found, b, found', -⟩ := matched _ leads
    exact ⟨⟨a, found⟩, ⟨b, found'⟩, rest⟩
  · intro i j a b work found found' fine
    obtain ⟨rfl, leads, rest⟩ := edge fine
    obtain ⟨_, again, _, again', same⟩ := matched _ leads
    cases found.symm.trans again
    cases found'.symm.trans again'
    apply List.forall_mem_append.2 ⟨fun x place => ?_, rest⟩
    rcases Obj.mem_comparison.1 place with ⟨k, l, isK, isL, rfl⟩ | ⟨p, listed, rfl | ⟨k, onward, rfl⟩⟩ | rfl
    · rw [← Obj.env_of_equal same, isK] at isL
      cases isL
      exact .inr ⟨k, rfl, .step leads found (List.mem_append_left _ (Option.mem_toList.2 isK))⟩
    · rw [(proper i a leads found).agrees same listed]
      exact .inl rfl
    · refine .inr ⟨k, rfl, .step leads found (List.mem_append_right _ ?_)⟩
      exact List.mem_flatMap.2 ⟨p, listed, onward⟩
    · rw [same]
      exact .inl rfl

/-! ### States -/

/-- Two states agree in everything but their objects. -/
structure Aligned (s t : State) : Prop where
  gref : s.gref = t.gref
  lref : s.lref = t.lref
  pending : s.pending = t.pending
  value : s.value.equal t.value = true
  frames : s.frames = t.frames

theorem equal_eq (notBottom : s.isBottom = false) (notBottom' : t.isBottom = false)
    (hasLocal : ∃ l, s.lref = some l) (hasGlobal : ∃ g, s.gref = some g) (aligned : s.Aligned t) :
  s.equal t = compareFrom s t s.objs (s.anchors.map fun i => (some i, some i))
  := by
  obtain ⟨l, isLocal⟩ := hasLocal
  obtain ⟨g, isGlobal⟩ := hasGlobal
  rw [equal, anchors, ← aligned.gref, ← aligned.lref, ← aligned.pending, ← aligned.frames, notBottom, notBottom',
    aligned.value, isLocal, isGlobal]
  simp

theorem equal_of_matched (notBottom : s.isBottom = false) (notBottom' : t.isBottom = false)
    (hasLocal : ∃ l, s.lref = some l) (hasGlobal : ∃ g, s.gref = some g) (aligned : s.Aligned t)
    (proper : ∀ i o, s.objs.Leads s.anchors i → s.objs.get? i = some o → o.Proper)
    (matched : ∀ i, s.objs.Leads s.anchors i → s.objs.Matched t.objs i) : s.equal t = .ok true
  := by
  obtain ⟨r, result, strict⟩ := compareFrom_ends (sure_fine proper matched) s.anchors
    (fun _ _ there => there) fun i anchor =>
      List.forall_mem_singleton.2 (.inr ⟨i, rfl, .root anchor⟩)
  rw [equal_eq notBottom notBottom' hasLocal hasGlobal aligned, result, strict]
  intro work fine
  obtain impossible | ⟨i, impossible, -⟩ := (List.forall_mem_cons.1 fine).1 <;> cases impossible

/-- Equality of two closed states is decided: it is true exactly if their scopes, objects in use, frames
and values are equal, and every object that is reached in the first state equals the one under its
number in the second one. -/
theorem equal_decides (closedS : s.Closed) (closedT : t.Closed) (plain : s.objs.Plain) :
  ∃ r, s.equal t = .ok r ∧
    (r = true ↔ s.gref = t.gref ∧ s.lref = t.lref ∧ s.pending = t.pending ∧
      s.value.equal t.value = true ∧ s.frames = t.frames ∧
      ∀ i, s.objs.Reach s.anchors i → s.objs.Matched t.objs i)
  := by
  simp only [← plain.leads_iff]
  by_cases aligned : s.Aligned t
  · have anchors : t.anchors = s.anchors := by
      rw [State.anchors, State.anchors, aligned.gref, aligned.lref, aligned.pending, aligned.frames]
    have same := equal_eq closedS.notBottom closedT.notBottom closedS.hasLocal closedS.hasGlobal aligned
    obtain ⟨r, result, -⟩ := compareFrom_ends (sure_ready closedS.heap closedT.heap) s.anchors
      (fun _ _ there => there) fun i anchor =>
        ⟨closedS.roots i (List.mem_append_left _ anchor),
          closedT.roots i (List.mem_append_left _ (anchors ▸ anchor)), trivial⟩
    refine ⟨r, same.trans result, ?_, ?_⟩
    · rintro rfl
      exact ⟨aligned.gref, aligned.lref, aligned.pending, aligned.value, aligned.frames,
        fun i => compareFrom_matched result⟩
    · rintro ⟨-, -, -, -, -, matched⟩
      have equals := equal_of_matched closedS.notBottom closedT.notBottom closedS.hasLocal closedS.hasGlobal
        aligned (fun i o _ there => (plain i o there).1) matched
      exact Except.ok.inj ((same.trans result).symm.trans equals)
  · have differs : s.equal t = .ok false := by
      rw [equal, if_neg]
      · rfl
      · simp only [Bool.and_eq_true, beq_iff_eq]
        rintro ⟨⟨⟨⟨⟨-, gref⟩, lref⟩, pending⟩, value⟩, frames⟩
        exact aligned ⟨gref, lref, pending, value, frames⟩
    refine ⟨false, differs, fun impossible => (by cases impossible), ?_⟩
    rintro ⟨gref, lref, pending, value, frames, -⟩
    exact (aligned ⟨gref, lref, pending, value, frames⟩).elim

/-- An object that is not reached may be another one; one that is reached may not. -/
theorem equal_decides_tangled :
  let t (i : Nat) : State := { tangled with objs := tangled.objs.insert i { missing := .isTop } }
  tangled.equal (t 4) = .ok true ∧ tangled.equal (t 2) = .ok false
  := by
  intro t
  have closed : ∀ i ∈ [4, 2], (t i).Closed := by
    intro i member
    refine ⟨rfl, ⟨0, rfl⟩, ⟨0, rfl⟩, ?_, ?_⟩ <;> revert i <;> decide +kernel
  have plain : tangled.objs.Plain := by decide +kernel
  constructor
  · obtain ⟨r, result, decides⟩ := equal_decides tangled_closed (closed 4 (by decide)) plain
    rw [result, decides.2 ⟨rfl, rfl, rfl, rfl, rfl, ?_⟩]
    intro i reached
    have matched : ∀ i ∈ [0, 1, 2, 3], tangled.objs.Matched (t 4).objs i := by decide +kernel
    apply matched
    apply reached.mem_of_closed (by decide)
    exact fun j o _ => Heap.forall_objs_iff (P := fun _ o => ∀ k ∈ o.targets, k ∈ [0, 1, 2, 3]).2
      (by decide +kernel) j o
  · obtain ⟨r, result, decides⟩ := equal_decides tangled_closed (closed 2 (by decide)) plain
    rw [result]
    cases r with
    | false => rfl
    | true =>
      have differ : ¬ tangled.objs.Matched (t 2).objs 2 := by decide +kernel
      refine (differ ((decides.1 rfl).2.2.2.2.2 2 ?_)).elim
      exact .step (.root (i := 0) (by decide)) (scope_sample (by decide)) (by decide)

end State

end ScriptLens
