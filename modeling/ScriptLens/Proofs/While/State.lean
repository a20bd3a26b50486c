import ScriptLens.Proofs.State.Compare
import ScriptLens.Proofs.While.Scope

/-!
# States of the while-language

A state in the analysis of a program of the while-language is bottom or `State.Shape`d: there is no
scope but the global one, and nothing but its variables has changed.
-/

namespace ScriptLens

namespace State

/-- A state in the global scope of a program of the while-language. -/
structure Shape (s : State) : Prop where
  notBottom : s.isBottom = false
  gref : s.gref = some 0
  lref : s.lref = some 0
  frames : s.frames = []
  pending : s.pending.ids = []
  value : s.value.Plain
  scope : ∃ o, s.objs.get? 0 = some o ∧ o.Scope
  heap : s.objs.Fixed

/-- A state in the analysis of a program of the while-language. -/
structure Tame (s : State) : Prop where
  heap : s.objs.Fixed
  pending : s.pending.ids = []
  scope : s.isBottom = true → s.lref = none
  shape : s.isBottom = false → s.Shape

def Describes (s : State) (ρ : While.Store) : Prop :=
  s.isBottom = false ∧ ∀ o, s.objs.get? 0 = some o → o.Allows ρ

variable {ρ : While.Store} {i : Nat}

theorem not_describes {s : State} (bottom : s.isBottom = true) : ¬ s.Describes ρ := by
  rintro ⟨notBottom, -⟩
  rw [bottom] at notBottom
  cases notBottom

theorem Shape.tame {s : State} (shape : s.Shape) : s.Tame := by
  refine ⟨shape.heap, shape.pending, fun bottom => ?_, fun _ => shape⟩
  rw [shape.notBottom] at bottom
  cases bottom

theorem tame_bottom : State.bottom.Tame
  := ⟨Heap.fixed_empty, rfl, fun _ => rfl, nofun⟩

theorem tame_toBottom (s : State) : s.toBottom.Tame
  := ⟨Heap.fixed_empty, rfl, fun _ => rfl, nofun⟩

structure Agrees (s t : State) : Prop where
  isBottom : s.isBottom = t.isBottom
  scope : (s.objs.get? 0).map Obj.props = (t.objs.get? 0).map Obj.props

theorem Agrees.symm {s t : State} (agrees : s.Agrees t) : t.Agrees s
  := ⟨agrees.isBottom.symm, agrees.scope.symm⟩

theorem Agrees.describes {s t : State} (agrees : s.Agrees t) (describes : s.Describes ρ) :
  t.Describes ρ
  := by
  use agrees.isBottom ▸ describes.1
  intro o found
  have same := agrees.scope
  rw [found] at same
  obtain ⟨a, foundA, props⟩ := Option.map_eq_some_iff.1 same
  intro x v free foundV
  apply describes.2 a foundA x v free
  rw [Obj.get?, props]
  apply foundV

/-- A state of the while-language that stands for the same stores as another state. -/
structure Mirrors (s t : State) : Prop where
  tame : s.Tame
  isBottom : s.isBottom = t.isBottom
  describes : ∀ ρ, s.Describes ρ ↔ t.Describes ρ

theorem Tame.mirrors {s : State} (tame : s.Tame) : s.Mirrors s
  := ⟨tame, rfl, fun _ => Iff.rfl⟩

section

variable {s t : State} (shape : s.Shape)

include shape

theorem Shape.mirrors (agrees : s.Agrees t) : s.Mirrors t
  := ⟨shape.tame, agrees.isBottom, fun _ => ⟨agrees.describes, agrees.symm.describes⟩⟩

omit shape in
theorem Shape.withHeap {h : Heap} (shape : s.Shape) (scope : h.get? 0 = s.objs.get? 0)
    (heap : h.Fixed) : Shape { s with objs := h } ∧ Agrees { s with objs := h } s
  := by
  constructor
  · refine ⟨shape.notBottom, shape.gref, shape.lref, shape.frames, shape.pending, shape.value, ?_,
      heap⟩
    rw [scope]
    apply shape.scope
  · use rfl
    rw [scope]

theorem Shape.scope_eq : (do let _ ← s.obj 0; return 0) = Except.ok 0
  := by
  obtain ⟨o, found, -⟩ := shape.scope
  rw [obj_ok found]
  rfl

theorem Shape.localId_eq : s.localId = .ok 0 := by
  rw [localId, shape.lref, scopeId_some]
  exact shape.scope_eq

theorem Shape.globalId_eq : s.globalId = .ok 0 := by
  rw [globalId, shape.gref, scopeId_some]
  exact shape.scope_eq

theorem Shape.lookup_eq (x : Text) : s.lookup (.text x) = .ok 0 := by
  obtain ⟨o, found, scope⟩ := shape.scope
  have noClosure : o.get? "__closure" = none := by
    rw [Option.eq_none_iff_forall_ne_some]
    intro v present
    rcases scope.listed _ (scope.distinct.get?_text.1 present) with builtin | ⟨y, name, free, -⟩
    · have missing : Key.text "__closure" ∉ Builtin.globals.map Prod.fst := by decide
      apply missing (List.mem_map_of_mem builtin)
    · obtain rfl := Key.text.inj name
      apply free
      decide
  rw [lookup, except_bind_of_ok shape.localId_eq, except_bind_of_ok (obj_ok found)]
  split
  · rfl
  · have none : s.lookupFrom (.text x) (s.objs.size + 1) o = .ok none := by
      rw [lookupFrom, noClosure]
      rfl
    rw [except_bind_of_ok none]
    exact shape.globalId_eq

end

/-! ### Copies -/

variable {c : Setting} {n n' : Nat} {s t u : State}

theorem assign_spec (heap : s.objs.Fixed) (shape : t.Shape)
    (result : (s.assign t).eval c n = .ok (u, n')) : u.Shape ∧ u.Agrees t ∧ n' = n
  := by
  obtain ⟨scope, found, isScope⟩ := shape.scope
  have notAbsent : (t.value == .absent) = false := beq_false_of_ne shape.value.ne_absent
  have roots : t.copyRoots c.roots = .ok (0 :: 0 :: List.range c.roots.length) := by
    rw [copyRoots, shape.lref, shape.gref, shape.frames, shape.pending]
    rfl
  unfold assign at result
  rw [shape.notBottom, notAbsent, shape.value.ref?_eq] at result
  simp only [Bool.false_eq_true, if_false] at result
  obtain ⟨c', n1, ⟨⟩, result⟩ := Domain.eval_bind_eq_ok.1 result
  rw [Domain.eval_lift_bind_ok roots] at result
  obtain ⟨⟨objs, rest⟩, copied, result⟩ := Domain.eval_lift_bind_eq_ok.1 result
  cases result
  have writes := copyReachable_writes _ _ _ _ _ copied
  have copiedScope : objs.get? 0 = some scope.copy := by
    obtain ⟨_, rfl, -, gone⟩ :=
      (copyReachable_walked _ _ _ _ _ copied .start).all 0 (.inr List.mem_cons_self)
    rcases writes 0 with ⟨same, -⟩ | ⟨o, there, -, written⟩
    · rw [found] at same
      cases gone.symm.trans same
    · cases found.symm.trans there
      exact written
  refine ⟨⟨rfl, shape.gref, shape.lref, shape.frames, shape.pending, shape.value, ?_, ?_⟩, ?_, rfl⟩
  · apply Exists.intro _ ⟨copiedScope, isScope.copy⟩
  · intro i o positive foundO
    rcases writes i with ⟨-, old⟩ | ⟨a, foundA, -, new⟩
    · apply heap i o positive
      rw [← old]
      apply foundO
    · cases new.symm.trans foundO
      apply (shape.heap i a positive foundA).copy
  · use shape.notBottom.symm
    rw [copiedScope, found]
    rfl

theorem assign_mirrors (heap : s.objs.Fixed) (tame : t.Tame)
    (result : (s.assign t).eval c n = .ok (u, n')) : u.Mirrors t ∧ n' = n
  := by
  cases bottom : t.isBottom with
  | false =>
    obtain ⟨shape, agrees, same⟩ := assign_spec heap (tame.shape bottom) result
    use shape.mirrors agrees, same
  | true =>
    rw [assign, bottom] at result
    cases result
    refine ⟨⟨tame_toBottom s, bottom.symm, fun ρ => ⟨nofun, fun describes => ?_⟩⟩, rfl⟩
    apply (not_describes bottom describes).elim

theorem fixed_unknownObj (free : Builtin.deferredId ≤ i) : unknownObj.Fixed i
  := ⟨rfl, (Builtin.propsOf_eq_nil free).symm⟩

theorem clone_mirrors (tame : t.Tame) (fresh : Builtin.deferredId < n)
    (result : t.clone.eval c n = .ok (u, n')) : u.Mirrors t ∧ n ≤ n'
  := by
  obtain ⟨s, n1, ⟨⟩, assigned⟩ := Domain.eval_bind_eq_ok.1 result
  have heap : Heap.Fixed ((({} : Heap).insert n unknownObj).insert (n + 1) unknownObj) := by
    have first := Heap.fixed_empty.insert fun _ => fixed_unknownObj (Nat.le_of_lt fresh)
    apply first.insert fun _ => fixed_unknownObj (Nat.le_succ_of_le (Nat.le_of_lt fresh))
  obtain ⟨mirrors, rfl⟩ := assign_mirrors heap tame assigned
  use mirrors
  omega

/-! ### Equality -/

theorem equal_describes (tameS : s.Tame) (tameT : t.Tame)
    (result : s.equal t = .ok true) (describes : t.Describes ρ) : s.Describes ρ
  := by
  have shapeT := tameT.shape describes.1
  rw [equal] at result
  split at result
  · rename_i fields
    simp only [Bool.and_eq_true, beq_iff_eq] at fields
    have notBottom : s.isBottom = false := fields.1.1.1.1.1.trans describes.1
    have shapeS := tameS.shape notBottom
    obtain ⟨a, foundA, scopeA⟩ := shapeS.scope
    obtain ⟨b, foundB, scopeB⟩ := shapeT.scope
    use notBottom
    intro a' again
    cases foundA.symm.trans again
    apply scopeA.allows_of_equal scopeB _ (describes.2 b foundB)
    rw [compareFrom, shapeS.lref, shapeT.lref, scope_bind foundA, scope_bind foundB] at result
    obtain ⟨compared, walk, rest⟩ := except_bind_eq_ok.1 result
    cases compared with
    | none => cases rest
    | some left =>
      intro p member
      apply Obj.lists_iff.1
      apply (compareHeaps_compared _ _ _ walk).1
      exact Obj.mem_comparison.2 (.inr (.inl ⟨p, member, .inl rfl⟩))
  · cases result

/-! ### Collection -/

theorem cleanup_mirrors (keepsTops : c.options.cleanTopObjects = false) (tame : s.Tame)
    (result : s.cleanup.eval c n = .ok (u, n')) : u.Mirrors s ∧ n' = n
  := by
  cases bottom : s.isBottom with
  | true =>
    rw [cleanup, bottom] at result
    cases result
    use tame.mirrors
  | false =>
    have shape := tame.shape bottom
    obtain ⟨same, -, swept⟩ := cleanup_swept bottom keepsTops result
    have scope : u.objs.get? 0 = s.objs.get? 0 := by
      apply swept.kept 0 (.root (mem_keepers.2 (.inl _)))
      rw [anchors, shape.lref]
      exact List.mem_cons_self
    have heap : u.objs.Fixed := by
      intro i o positive there
      by_cases reached : s.objs.Reach (s.keepers c.roots) i
      · rw [swept.kept i reached] at there
        apply shape.heap i o positive there
      · rw [swept.gone i reached] at there
        cases there
    obtain ⟨newShape, agrees⟩ := shape.withHeap scope heap
    rw [← swept.others] at newShape agrees
    use newShape.mirrors agrees

end State

end ScriptLens
