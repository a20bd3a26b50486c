import ScriptLens.Proofs.Heap.Join
import ScriptLens.Proofs.While.State

/-!
# Joins of states of the while-language

All objects but the global scope are the same in two states of a program of the while-language, so
nothing is renamed before they are joined.
-/

namespace ScriptLens

namespace Obj

variable {a b o : Obj} {i : Nat}

theorem Fixed.even (left : a.Fixed i) (right : b.Fixed i) {w : Matching} (member : w ∈ a.matching b) :
  w.first = w.second
  := by
  apply even_matching (left.1.trans right.1.symm) _ member
  intro p inside r q isRef other
  rw [left.2] at inside
  rcases Builtin.propsOf_cases i with none | ⟨k, j, one⟩
  · rw [none] at inside
    cases inside
  · rw [one] at inside
    obtain rfl := List.mem_singleton.1 inside
    cases isRef
    rw [Obj.get?, right.2, one, Props.get?, if_pos (Key.same_iff.2 rfl)] at other
    apply Option.some.inj other

theorem Scope.even (left : a.Scope) (right : b.Scope) {w : Matching} (member : w ∈ a.matching b) :
  w.first = w.second
  := by
  apply even_matching (left.env.trans right.env.symm) _ member
  rintro ⟨k, v⟩ inside r q isRef other
  rcases left.listed _ inside with builtin | ⟨-, -, -, plain⟩
  · obtain ⟨w, found, isRef'⟩ := Option.bind_eq_some_iff.1 other
    obtain ⟨x, rfl⟩ : ∃ x, k = .text x := left.isText inside
    rcases right.listed _ (right.distinct.get?_text.1 found) with builtin' | ⟨-, -, -, plain⟩
    · obtain rfl := Builtin.globals_unique builtin builtin'
      apply Option.some.inj (isRef.symm.trans isRef')
    · rw [Value.Plain.ref?_eq plain] at isRef'
      cases isRef'
  · rw [Value.Plain.ref?_eq plain] at isRef
    cases isRef

end Obj

namespace State

variable {c : Setting} {n n' : Nat} {s t u : State}

variable {h : Heap} {i : Nat} {o b : Obj} {useOr : Bool}

theorem Shape.even {a : Obj} (shapeS : s.Shape) (shapeT : t.Shape) (inS : s.objs.get? i = some a)
    (inT : t.objs.get? i = some b) {w : Matching} (member : w ∈ a.matching b) : w.first = w.second
  := by
  by_cases zero : i = 0
  · subst zero
    obtain ⟨_, foundA, scopeA⟩ := shapeS.scope
    obtain ⟨_, foundB, scopeB⟩ := shapeT.scope
    cases foundA.symm.trans inS
    cases foundB.symm.trans inT
    apply scopeA.even scopeB member
  · apply (shapeS.heap i a zero inS).even (shapeT.heap i b zero inT) member

theorem Shape.value_cases (shape : s.Shape) (found : s.objs.get? i = some o)
    {p : Key × Value} (member : p ∈ o.props) : p.2.Plain ∨ ∃ j, p.2 = .ref ⟨j, .unbound⟩
  := by
  by_cases zero : i = 0
  · subst zero
    obtain ⟨a, foundA, scope⟩ := shape.scope
    cases foundA.symm.trans found
    rcases scope.listed p member with builtin | ⟨-, -, -, plain⟩
    · right
      apply Builtin.globals_ref builtin
    · left
      apply plain
  · right
    rw [(shape.heap i o zero found).2] at member
    rcases Builtin.propsOf_cases i with none | ⟨k, j, one⟩
    · rw [none] at member
      cases member
    · rw [one] at member
      obtain rfl := List.mem_singleton.1 member
      use j

theorem renameValue_plain {v : Value} (plain : v.Plain) (m : Renaming) : renameValue m v = v
  := by cases plain <;> rfl

theorem Shape.renameProps_eq (shape : s.Shape) (found : s.objs.get? i = some o) :
  o.mapProps (renameValue []) = o
  := by
  have same : ∀ p ∈ o.props, (p.1, renameValue [] p.2) = p := by
    rintro ⟨k, v⟩ member
    rcases shape.value_cases found member with plain | ⟨j, isRef⟩
    · rw [renameValue_plain plain]
    · obtain rfl : v = _ := isRef
      rfl
  rw [Obj.mapProps, List.map_congr_left same, List.map_id']

theorem unify_spec (shapeS : s.Shape) (shapeT : t.Shape)
    (result : (s.unify t).eval c n = .ok (u, n')) : u.Shape ∧ u.Agrees s ∧ n' = n
  := by
  rw [unify] at result
  obtain ⟨o, n1, ⟨⟩, result⟩ := Domain.eval_bind_eq_ok.1 result
  split at result
  · cases result
    use shapeS, ⟨rfl, rfl⟩
  split at result
  · cases result
    use shapeS, ⟨rfl, rfl⟩
  obtain ⟨m, n1, matched, after⟩ := Domain.eval_bind_eq_ok.1 result
  rw [shapeS.lref, shapeT.lref, shapeS.gref, shapeT.gref, shapeS.frames] at matched
  obtain ⟨rfl, rfl⟩ : m = [] ∧ n1 = n := by
    rcases matchFrom_even (c := c)
      (fun i a b (_ : True) inS inT w member => ⟨shapeS.even shapeT inS inT member, trivial⟩) [0, 0] s.objs
      (fun i o found => found) (fun _ _ => trivial) with even | ⟨failed, -⟩
    · cases matched.symm.trans even
      use rfl
    · cases matched.symm.trans failed
  obtain ⟨v, renamed, after⟩ := Domain.eval_lift_bind_eq_ok.1 after
  obtain ⟨objs, ⟨⟩, after⟩ := Domain.eval_lift_bind_eq_ok.1 after
  cases after
  obtain ⟨h, rfl, kept⟩ := renameRefs_nil (fun i o => shapeS.renameProps_eq) renamed
  obtain ⟨shape, agrees⟩ := shapeS.withHeap (kept 0) (fun i o positive found =>
    shapeS.heap i o positive (kept i ▸ found))
  rw [renameValue_plain shapeS.value]
  use shape, agrees

theorem unify_mirrors (tameS : s.Tame) (tameT : t.Tame)
    (result : (s.unify t).eval c n = .ok (u, n')) : u.Mirrors s ∧ n' = n
  := by
  by_cases both : s.isBottom = false ∧ t.isBottom = false
  · obtain ⟨shape, agrees, same⟩ := unify_spec (tameS.shape both.1) (tameT.shape both.2) result
    use shape.mirrors agrees, same
  · -- Where one state is bottom, there is nothing to match.
    rw [unify] at result
    obtain ⟨o, n1, ⟨⟩, result⟩ := Domain.eval_bind_eq_ok.1 result
    split at result
    · cases result
      use tameS.mirrors
    split at result
    · cases result
      use tameS.mirrors
    · rename_i same
      simp only [Bool.or_eq_true, bne_iff_ne, ne_eq, not_or, not_not] at same
      have noScope : s.lref = none := by
        cases bottom : s.isBottom with
        | true => apply tameS.scope bottom
        | false =>
          rw [same.1]
          apply tameT.scope
          rw [bottom] at both
          simpa using both
      rw [noScope] at result
      obtain ⟨m, n1, matched, -⟩ := Domain.eval_bind_eq_ok.1 result
      obtain ⟨i, ⟨⟩, -⟩ := Domain.eval_lift_bind_eq_ok.1 matched

/-! ### Joins -/

/-- A heap in which only the variables of the global scope have changed, and may have the values of the
stores that `allowed` holds of. -/
structure Kept (h : Heap) (allowed : While.Store → Prop) : Prop where
  scope : ∃ o, h.get? 0 = some o ∧ o.Scope ∧ ∀ ρ, allowed ρ → o.Allows ρ
  heap : h.Fixed

variable {allowed : While.Store → Prop}

theorem Kept.ensure (kept : Kept h allowed) (shape : t.Shape) (other : t.objs.get? i = some b) :
  Kept (ensure h i b) allowed
  := by
  obtain ⟨o, found, scope⟩ := kept.scope
  unfold State.ensure
  split
  · apply kept
  · rename_i missing
    have positive : i ≠ 0 := by
      rintro rfl
      exact missing ((h.contains_iff 0).2 ⟨o, found⟩)
    refine ⟨⟨o, ?_, scope⟩, kept.heap.insert fun _ => (shape.heap i b positive other).copy⟩
    rw [Heap.lookup_insert, if_neg positive]
    apply found

theorem Kept.join {a : Obj} (kept : Kept h allowed) (useOr : Bool) (shape : t.Shape) (found : h.get? i = some a)
    (other : t.objs.get? i = some b) :
  Kept (h.insert i (a.join useOr b)) fun ρ => allowed ρ ∨ i = 0 ∧ t.Describes ρ
  := by
  obtain ⟨o, foundO, scopeO, allows⟩ := kept.scope
  constructor
  · by_cases zero : i = 0
    · subst zero
      obtain ⟨b', foundB, scopeB⟩ := shape.scope
      cases found.symm.trans foundO
      cases other.symm.trans foundB
      refine ⟨_, by rw [Heap.lookup_insert, if_pos rfl], scopeO.join useOr scopeB, fun ρ either => ?_⟩
      apply scopeO.allows_join useOr scopeB
      exact either.imp (allows ρ) fun both => both.2.2 b other
    · refine ⟨o, ?_, scopeO, fun ρ either => allows ρ (either.resolve_right fun both => zero both.1)⟩
      rw [Heap.lookup_insert, if_neg zero]
      apply foundO
  · apply kept.heap.insert fun positive => ?_
    apply (kept.heap i a positive found).join useOr (shape.heap i b positive other)

theorem Kept.mono {more : While.Store → Prop} (kept : Kept h more) (all : ∀ ρ, allowed ρ → more ρ) :
  Kept h allowed
  := by
  obtain ⟨o, found, scope, allows⟩ := kept.scope
  exact ⟨⟨o, found, scope, fun ρ isAllowed => allows ρ (all ρ isAllowed)⟩, kept.heap⟩

theorem mergeHeaps_kept (shape : t.Shape) (heap rest : Heap) (work : List Merging) :
  ∀ heap' rest', Kept heap allowed → (∀ i b, rest.get? i = some b → t.objs.get? i = some b) →
    mergeHeaps useOr t.objs heap rest work = .ok (heap', rest') →
    Kept heap' allowed ∧ ∀ i b, rest'.get? i = some b → t.objs.get? i = some b
  := by
  fun_induction mergeHeaps useOr t.objs heap rest work with
  | case1 heap rest =>
    intro heap' rest' kept sub result
    cases result
    use kept
  | case2 heap rest i work b found heap1 steps merged ih =>
    intro heap' rest' kept sub result
    have there : (State.ensure heap i b).get? i = some ((heap.get? i).getD b.copy) := by
      rw [get?_ensure, if_pos rfl]
    rw [mergeObj_eq there] at merged
    cases merged
    have joined := (kept.ensure shape (sub i b found)).join useOr shape there (sub i b found)
    apply ih heap' rest' (joined.mono fun _ => .inl) _ result
    intro j a left
    apply sub j a (Heap.get?_of_erase left)
  | case4 heap rest i work _ b found ih =>
    intro heap' rest' kept sub result
    apply ih heap' rest' (kept.ensure shape found) sub result
  | case6 | case7 | case8 =>
    rename_i ih
    intro heap' rest' kept sub result
    apply ih heap' rest' kept sub result
  | case3 | case5 | case9 =>
    intro heap' rest' _ _ impossible
    cases impossible

theorem mergeFrom_kept (shape : t.Shape) (roots : List (Option Nat × Option Nat)) :
  ∀ heap rest heap' allowed, Kept heap allowed →
    (∀ i b, rest.get? i = some b → t.objs.get? i = some b) →
    (∀ p ∈ roots, p = (some 0, some 0)) → mergeFrom useOr t.objs heap rest roots = .ok heap' →
    Kept heap' fun ρ => allowed ρ ∨ roots ≠ [] ∧ t.Describes ρ
  := by
  induction roots with
  | nil =>
    intro heap rest heap' allowed kept _ _ result
    cases result
    apply kept.mono fun ρ either => either.resolve_right fun both => both.1 rfl
  | cons p roots ih =>
    intro heap rest heap' allowed kept sub zero result
    obtain ⟨rfl, zeros⟩ := List.forall_mem_cons.1 zero
    obtain ⟨a, found, -⟩ := kept.scope
    obtain ⟨b, other, -⟩ := shape.scope
    rw [mergeFrom] at result
    obtain ⟨_, ⟨⟩, result⟩ := except_bind_eq_ok.1 result
    obtain ⟨_, ⟨⟩, result⟩ := except_bind_eq_ok.1 result
    rw [(heap.contains_iff 0).2 ⟨a, found⟩, other] at result
    obtain ⟨⟨heap1, steps⟩, merged, result⟩ := except_bind_eq_ok.1 result
    rw [mergeObj_eq found] at merged
    cases merged
    obtain ⟨⟨heap2, rest2⟩, walk, after⟩ := except_bind_eq_ok.1 result
    obtain ⟨kept2, sub2⟩ := mergeHeaps_kept shape _ _ _ _ _ (kept.join useOr shape found other) sub walk
    apply (ih heap2 rest2 heap' _ kept2 sub2 zeros after).mono fun ρ either => .inl ?_
    exact either.imp id fun both => ⟨rfl, both.2⟩

/-- A join of states of the while-language stands for the stores of both of them. -/
theorem join_spec (shapeS : s.Shape) (shapeT : t.Shape)
    (result : (s.join t).eval c n = .ok (u, n')) :
  u.Shape ∧ (∀ ρ, s.Describes ρ ∨ t.Describes ρ → u.Describes ρ) ∧ n' = n
  := by
  have sameGlobal : (s.gref != t.gref) = false := by rw [shapeS.gref, shapeT.gref]; rfl
  have sameLocal : (s.lref != t.lref || s.frames != t.frames) = false := by
    rw [shapeS.lref, shapeT.lref, shapeS.frames, shapeT.frames]
    rfl
  unfold join at result
  rw [shapeT.notBottom, shapeS.notBottom, sameGlobal, sameLocal] at result
  simp only [Bool.false_eq_true, if_false] at result
  obtain ⟨o, n1, ⟨⟩, result⟩ := Domain.eval_bind_eq_ok.1 result
  obtain ⟨s', n1, ⟨⟩, result⟩ := Domain.eval_bind_eq_ok.1 result
  obtain ⟨v, n1, unified, after⟩ := Domain.eval_bind_eq_ok.1 result
  have shapeP : Shape { s with pending := s.pending.inter t.pending } := by
    refine ⟨shapeS.notBottom, shapeS.gref, shapeS.lref, shapeS.frames, ?_, shapeS.value, shapeS.scope,
      shapeS.heap⟩
    rw [IdSet.inter, shapeS.pending]
    rfl
  obtain ⟨shapeV, agrees, rfl⟩ := unify_spec shapeP shapeT unified
  obtain ⟨objs, merged, after⟩ := Domain.eval_lift_bind_eq_ok.1 after
  obtain ⟨a, foundA, scopeA⟩ := shapeV.scope
  have kept := mergeFrom_kept shapeT _ _ _ objs a.Allows
    ⟨⟨a, foundA, scopeA, fun _ allows => allows⟩, shapeV.heap⟩ (fun i b found => found)
    (by
      rw [shapeV.lref, shapeT.lref, shapeV.gref, shapeT.gref, shapeV.pending, shapeV.frames]
      simp) merged
  obtain ⟨o, scope, isScope, allows⟩ := kept.scope
  have shaped : ∀ w : Value, w.Plain → Shape { v with objs, value := w } := fun w plain =>
    ⟨shapeV.notBottom, shapeV.gref, shapeV.lref, shapeV.frames, shapeV.pending, plain,
      ⟨o, scope, isScope⟩, kept.heap⟩
  obtain ⟨w, plain, rfl, rfl⟩ : ∃ w : Value, w.Plain ∧ u = { v with objs, value := w } ∧ n' = n1 := by
    split at after
    · rename_i isBot
      apply (shapeV.value.ne_bot isBot).elim
    · cases after
      split
      · use v.value, shapeV.value, rfl
      · use .top, .top, rfl
  refine ⟨shaped w plain, ?_, rfl⟩
  intro ρ describes
  use shapeV.notBottom
  intro o' again
  cases scope.symm.trans again
  apply allows ρ
  rcases describes with describes | describes
  · left
    apply (agrees.symm.describes (ρ := ρ) ⟨shapeS.notBottom, describes.2⟩).2 a foundA
  · right
    exact ⟨List.cons_ne_nil _ _, describes⟩

/-- A state of the while-language that stands for the stores of two states. -/
structure Joins (u s t : State) : Prop where
  tame : u.Tame
  isBottom : u.isBottom = (s.isBottom && t.isBottom)
  describes : ∀ ρ, s.Describes ρ ∨ t.Describes ρ → u.Describes ρ

theorem join_joins (tameS : s.Tame) (tameT : t.Tame)
    (result : (s.join t).eval c n = .ok (u, n')) : u.Joins s t ∧ n' = n
  := by
  cases bottomT : t.isBottom with
  | true =>
    rw [join, bottomT] at result
    cases result
    refine ⟨⟨tameS, ?_, ?_⟩, rfl⟩
    · rw [bottomT, Bool.and_true]
    · rintro ρ (describes | describes)
      · apply describes
      · apply (not_describes bottomT describes).elim
  | false =>
    cases bottomS : s.isBottom with
    | true =>
      rw [join, bottomT, bottomS] at result
      obtain ⟨mirrors, rfl⟩ := assign_mirrors tameS.heap tameT result
      refine ⟨⟨mirrors.tame, ?_, ?_⟩, rfl⟩
      · rw [mirrors.isBottom, bottomS, Bool.true_and]
      · rintro ρ (describes | describes)
        · apply (not_describes bottomS describes).elim
        · apply (mirrors.describes ρ).2 describes
    | false =>
      obtain ⟨shape, covers, same⟩ := join_spec (tameS.shape bottomS) (tameT.shape bottomT) result
      refine ⟨⟨shape.tame, ?_, covers⟩, same⟩
      rw [shape.notBottom, bottomS, Bool.false_and]

end State

end ScriptLens
