import ScriptLens.Pass.Walk
import ScriptLens.Proofs.Draft.Run

/-!
# Results of walks

How a walk that ends is put together from steps that end.
-/

namespace ScriptLens.Pass

variable {σ α β : Type}

variable {s s' s'' : σ} {d d' d'' : Draft}

theorem bind_eq_ok {x : Walk σ α} {f : α → Walk σ β} {b : β} :
  (x >>= f) s d = .ok (b, s'') d'' ↔
    ∃ a s' d', x s d = .ok (a, s') d' ∧ f a s' d' = .ok (b, s'') d''
  := by
  constructor
  · intro run
    obtain ⟨⟨a, s'⟩, d', first, rest⟩ := Edit.bind_eq_ok.1 run
    exact ⟨a, s', d', first, rest⟩
  · rintro ⟨a, s', d', first, rest⟩
    exact Edit.bind_eq_ok.2 ⟨(a, s'), d', first, rest⟩

theorem pure_eq_ok {a b : α} : (pure a : Walk σ α) s d = .ok (b, s') d' ↔ b = a ∧ s' = s ∧ d' = d
  := by
  constructor
  · intro same
    cases same
    exact ⟨rfl, rfl, rfl⟩
  · rintro ⟨rfl, rfl, rfl⟩
    rfl

theorem lift_eq_ok {x : Edit α} {a : α} :
  (liftM x : Walk σ α) s d = .ok (a, s') d' ↔ x d = .ok a d' ∧ s' = s
  := by
  constructor
  · intro run
    obtain ⟨b, d1, ended, ⟨⟩⟩ := Edit.bind_eq_ok.1 run
    exact ⟨ended, rfl⟩
  · rintro ⟨ended, rfl⟩
    exact Edit.bind_eq_ok.2 ⟨a, d', ended, rfl⟩

theorem lift_bind_eq_ok {x : Edit α} {f : α → Walk σ β} {b : β} :
  ((liftM x : Walk σ α) >>= f) s d = .ok (b, s') d'' ↔
    ∃ a d', x d = .ok a d' ∧ f a s d' = .ok (b, s') d''
  := by
  simp only [bind_eq_ok, lift_eq_ok]
  grind

end ScriptLens.Pass
