import ScriptLens.Analysis.Program
import ScriptLens.Proofs.Computation

/-!
# States that are joined into others

A state feeds another one if that one comes about from it by joins with further states, by copying
and by collecting unreachable objects.
-/

namespace ScriptLens.State

open Domain

variable {s t u v : State} {c : Setting} {n n' : Nat}

/-- A state is joined into another one, in some number of steps. -/
inductive Feeds (c : Setting) (s : State) : State → Prop
  | refl : Feeds c s s
  | left {t u v : State} {n n' : Nat} (before : Feeds c s t)
    (joined : (t.join v).eval c n = .ok (u, n')) : Feeds c s u
  | right {t u v : State} {n n' : Nat} (before : Feeds c s t)
    (joined : (v.join t).eval c n = .ok (u, n')) : Feeds c s u
  | copy {t u v : State} {n n' : Nat} (before : Feeds c s t)
    (copied : (v.assign t).eval c n = .ok (u, n')) : Feeds c s u
  | collect {t u : State} {n n' : Nat} (before : Feeds c s t)
    (collected : t.cleanup.eval c n = .ok (u, n')) : Feeds c s u

theorem Feeds.trans (first : s.Feeds c t) (second : t.Feeds c u) : s.Feeds c u := by
  induction second with
  | refl => exact first
  | left _ joined ih => exact .left ih joined
  | right _ joined ih => exact .right ih joined
  | copy _ copied ih => exact .copy ih copied
  | collect _ collected ih => exact .collect ih collected

def scopes (s : State) : Option Nat × List Nat := (s.lref, s.frames)

def At (p : Option Nat × List Nat) (s : State) : Prop := s.isBottom = false → s.scopes = p

theorem assign_scopes (copied : (s.assign t).eval c n = .ok (u, n')) :
  u.isBottom = t.isBottom ∧ t.At u.scopes
  := by
  unfold assign at copied
  split at copied
  · rename_i bottom
    cases copied
    exact ⟨bottom.symm, fun not => absurd (bottom.symm.trans not) (by decide)⟩
  dsimp only at copied
  by_cases absent : (t.value == .absent) = true
  · rw [if_pos absent] at copied
    cases copied
  rw [if_neg absent] at copied
  obtain ⟨setting, n1, -, rest⟩ := eval_bind_eq_ok.1 copied
  obtain ⟨roots, n2, -, rest⟩ := eval_bind_eq_ok.1 rest
  obtain ⟨⟨objs, others⟩, n3, -, rest⟩ := eval_bind_eq_ok.1 rest
  dsimp only at rest
  split at rest
  · split at rest
    · cases rest
      exact ⟨rfl, fun _ => rfl⟩
    · obtain ⟨⟨more, _⟩, n4, -, rest⟩ := eval_bind_eq_ok.1 rest
      cases rest
      exact ⟨rfl, fun _ => rfl⟩
  · cases rest
    exact ⟨rfl, fun _ => rfl⟩

theorem renameRefs_scopes {m : Renaming} (renamed : s.renameRefs m = .ok u) :
  u.isBottom = s.isBottom ∧ u.scopes = s.scopes
  := by
  unfold renameRefs at renamed
  obtain ⟨l, -, rest⟩ := except_bind_eq_ok.1 renamed
  obtain ⟨g, -, rest⟩ := except_bind_eq_ok.1 rest
  obtain ⟨⟨heap, others, visited⟩, -, rest⟩ := except_bind_eq_ok.1 rest
  obtain ⟨⟨heap', others', visited'⟩, -, rest⟩ := except_bind_eq_ok.1 rest
  cases rest
  exact ⟨rfl, rfl⟩

theorem unify_scopes (unified : (s.unify t).eval c n = .ok (u, n')) :
  u.isBottom = s.isBottom ∧ u.scopes = s.scopes
  := by
  unfold unify at unified
  obtain ⟨options, n1, -, rest⟩ := eval_bind_eq_ok.1 unified
  split at rest
  · cases rest
    exact ⟨rfl, rfl⟩
  split at rest
  · cases rest
    exact ⟨rfl, rfl⟩
  obtain ⟨m, n2, -, rest⟩ := eval_bind_eq_ok.1 rest
  obtain ⟨s', n3, renamed, rest⟩ := eval_bind_eq_ok.1 rest
  obtain ⟨objs, n4, -, rest⟩ := eval_bind_eq_ok.1 rest
  cases rest
  rw [eval_lift] at renamed
  cases result : s.renameRefs m with
  | error e =>
    rw [result] at renamed
    cases renamed
  | ok r =>
    rw [result] at renamed
    obtain ⟨rfl, -⟩ := Prod.mk.inj (Except.ok.inj renamed)
    have same : r.isBottom = s.isBottom ∧ r.scopes = s.scopes := renameRefs_scopes result
    exact same

theorem join_scopes (joined : (s.join t).eval c n = .ok (u, n')) :
  u.isBottom = (s.isBottom && t.isBottom) ∧ ∀ p, s.At p → t.At p → u.At p
  := by
  unfold join at joined
  cases bottomT : t.isBottom with
  | true =>
    rw [bottomT, if_pos rfl] at joined
    cases joined
    exact ⟨(Bool.and_true _).symm, fun _ isAt _ => isAt⟩
  | false =>
    rw [Bool.and_false]
    simp only [bottomT, Bool.false_eq_true, if_false] at joined
    cases bottomS : s.isBottom with
    | true =>
      rw [bottomS, if_pos rfl] at joined
      obtain ⟨same, isAt⟩ := assign_scopes joined
      exact ⟨same.trans bottomT, fun p _ other _ => (isAt bottomT).symm.trans (other bottomT)⟩
    | false =>
      simp only [bottomS, Bool.false_eq_true, if_false] at joined
      split at joined
      · cases joined
      obtain ⟨options, n1, -, rest⟩ := eval_bind_eq_ok.1 joined
      obtain ⟨s1, n2, entered, rest⟩ := eval_bind_eq_ok.1 rest
      obtain ⟨s2, n3, unified, rest⟩ := eval_bind_eq_ok.1 rest
      obtain ⟨objs, n4, -, rest⟩ := eval_bind_eq_ok.1 rest
      have first : s1.isBottom = false ∧ s1.scopes = s.scopes := by
        split at entered
        · obtain ⟨_, _, -, entered⟩ := eval_bind_eq_ok.1 entered
          obtain ⟨_, n5, -, entered⟩ := eval_bind_eq_ok.1 entered
          obtain ⟨i, n6, -, entered⟩ := eval_bind_eq_ok.1 entered
          obtain ⟨a, n7, -, entered⟩ := eval_bind_eq_ok.1 entered
          obtain ⟨j, n8, -, entered⟩ := eval_bind_eq_ok.1 entered
          obtain ⟨b, n9, -, entered⟩ := eval_bind_eq_ok.1 entered
          cases entered
          exact ⟨bottomS, rfl⟩
        · cases entered
          exact ⟨bottomS, rfl⟩
      obtain ⟨bottom2, scopes2⟩ := unify_scopes unified
      have second : s2.isBottom = false := bottom2.trans first.1
      have kept (p : Option Nat × List Nat) (isAt : s.At p) : s2.scopes = p :=
        scopes2.trans (first.2.trans (isAt bottomS))
      split at rest
      · split at rest
        · cases rest
        · cases rest
          exact ⟨second, fun p isAt _ _ => kept p isAt⟩
      · split at rest
        · cases rest
          exact ⟨second, fun p isAt _ _ => kept p isAt⟩
        · cases rest
          exact ⟨second, fun p isAt _ _ => kept p isAt⟩

end ScriptLens.State
