import ScriptLens.Proofs.Analysis.Call
import ScriptLens.Proofs.Analysis.Congruence

/-!
# Refinement of analyses

One analysis refines another one if the other has the same result wherever it has one.
-/

namespace ScriptLens.Analysis

variable {α β : Type}

def require (b : Bool) : Analysis Unit := if b then return () else fail (.broken "")

variable {b : Bool} {m m' : Machine} {x y : Analysis α} {f : α → Analysis β}

theorem require_eq_ok : require b m = .ok () m' ↔ b = true ∧ m' = m := by
  rw [require]
  split
  · rename_i holds
    constructor
    · intro run
      cases run
      exact ⟨holds, rfl⟩
    · rintro ⟨-, rfl⟩
      rfl
  · rename_i fails
    constructor
    · nofun
    · rintro ⟨holds, -⟩
      exact absurd holds fails

instance : Passive (require b)
  := by unfold require; infer_instance

/-- Every run of `x` that ends is a run of `y`. -/
def Refines (x y : Analysis α) : Prop := ∀ m a m', x m = .ok a m' → y m = .ok a m'

theorem Refines.refl (x : Analysis α) : Refines x x
  := fun _ _ _ run => run

theorem Refines.bind {x y : Analysis α} {f g : α → Analysis β} (first : Refines x y)
    (rest : ∀ a, Refines (f a) (g a)) : Refines (x >>= f) (y >>= g)
  := by
  intro m b m' run
  obtain ⟨a, m1, run1, run2⟩ := bind_eq_ok.1 run
  apply bind_eq_ok.2
  use a, m1, first m a m1 run1, rest a m1 b m' run2

theorem Refines.then {g : α → Analysis β} (rest : ∀ a, Refines (f a) (g a)) :
  Refines (x >>= f) (x >>= g)
  := (Refines.refl x).bind rest

theorem Refines.look {y : Analysis β} {g : Machine → α}
    (looks : ∀ m, x m = .ok (g m) m) (rest : ∀ a, Refines (f a) y) : Refines (x >>= f) y
  := by
  intro m b m' run
  obtain ⟨a, m1, looked, run⟩ := bind_eq_ok.1 run
  cases (looks m).symm.trans looked
  apply rest _ m b m' run

theorem Refines.require (rest : Refines x y) : Refines (do Analysis.require b; x) y := by
  intro m a m' run
  obtain ⟨_, m1, passed, after⟩ := bind_eq_ok.1 run
  obtain ⟨-, rfl⟩ := require_eq_ok.1 passed
  apply rest _ a m' after

theorem Refines.onState {s : State} (inner : Refines x y) : Refines (onState s x) (onState s y)
  := by
  intro m p m' run
  obtain ⟨m1, ended, value, rfl⟩ := onState_eq_ok run
  have same := inner _ _ _ ended
  obtain ⟨a, s'⟩ := p
  obtain rfl : s' = m1.state := value
  rw [Analysis.onState, same]

/-! ### Computations that are not abandoned -/

def settled (x : Analysis α) : Analysis α := fun m =>
  match x m with
  | .error (.unwind _) m' => .error (.failure .unfinished) m'
  | result => result

theorem settled_eq_ok {a : α} : settled x m = .ok a m' ↔ x m = .ok a m' := by
  rw [settled]
  split
  · rename_i abandoned
    rw [abandoned]
    constructor <;> nofun
  · rfl

instance Steady.settled (x : Analysis α) : Steady (settled x) := by
  constructor
  intro m site m' run
  rw [Analysis.settled] at run
  split at run
  · cases run
  · rename_i other
    exact other _ _ run

theorem Refines.settled (inner : Refines x y) : Refines (settled x) y
  := fun m a m' run => inner m a m' (settled_eq_ok.1 run)

/-! ### Refinement along engines -/

theorem Refines.catchUnwind {x y : Analysis α} [Steady x] (inner : Refines x y) :
  Refines (catchUnwind x) (catchUnwind y)
  := by
  intro m a m' run
  rw [Analysis.catchUnwind] at run ⊢
  split at run
  · rename_i ended
    rw [inner _ _ _ ended]
    exact run
  · rename_i abandoned
    exact absurd abandoned Steady.steady
  · cases run

/-- Refinement carries over from engines to the analyses they drive. -/
abbrev refinement : Congruence where
  Rel := Refines
  passive x _ := Refines.refl x
  bind := Refines.bind
  effect := Refines.refl _

instance : refinement.Broad
  where
  elsewhere _ := Refines.onState
  attempt := Refines.catchUnwind

instance : refinement.Forgetful
  where
  forgets _ := Refines.refl _
  counts := inferInstance

instance : refinement.Nesting
  where
  enters _ := Refines.refl _
  leaves _ := Refines.refl _

section

variable (r r' : Engine) [refinement.Engines r r']

instance (x : Analysis α) : refinement.Related x x
  := ⟨Refines.refl x⟩

variable {site : Option Tree} {args : List Value} {this : Receiver}

instance (o : Obj) (body : Tree) :
  refinement.Related (callFunction r o body site args this) (callFunction r' o body site args this)
  := by
  unfold callFunction callBody
  infer_instance

instance (callee : Callee) :
  refinement.Related (invoke r callee site args this) (invoke r' callee site args this)
  := Congruence.related_invoke_of ..

instance (t : Tree) (text : Text) : refinement.Related (runProgram r t text) (runProgram r' t text)
  := by
  have body : refinement.Related (runBody r t) (runBody r' t) := inferInstance
  constructor
  intro m a m' run
  obtain ⟨m1, ended, rfl⟩ := runProgram_eq_ok.1 run
  exact runProgram_eq_ok.2 ⟨m1, body.rel _ _ _ ended, rfl⟩

end

theorem refinement_succ {n : Nat} (r : Engine) {s : Engine} [refinement.Engines r (engine n)]
    (expr : ∀ t, Refines (s.expr t) (evalExpr r t))
    (exec : ∀ t hoisting, Refines (execStatement r t hoisting) (execStatement (engine n) t hoisting) →
      Refines (s.exec t hoisting) (execStatement (engine n) t hoisting))
    (invoke : ∀ callee site args this,
      Refines (s.invoke callee site args this) (invoke r callee site args this))
    (program : ∀ t text, Refines (s.program t text) (runProgram r t text))
    (steadyExpr : ∀ t, Steady (s.expr t))
    (steadyInvoke : ∀ callee site args this, Steady (s.invoke callee site args this)) :
  refinement.Engines s (engine (n + 1))
  := by
  have follow {α : Type} {x y : Analysis α} (z : Analysis α) (first : Refines x y)
      [inner : refinement.Related y z] : Refines x z :=
    fun m a m' run => inner.rel m a m' (first m a m' run)
  have statement (t : Tree) (hoisting : Bool) : refinement.Related (execStatement r t hoisting)
    (execStatement (engine n) t hoisting) := inferInstance
  exact {
    expr := fun t => follow (evalExpr _ t) (expr t)
    exec := fun t hoisting => exec t hoisting (statement t hoisting).rel
    invoke := fun callee site args this => follow (Analysis.invoke _ _ _ _ _) (invoke callee site args this)
    program := fun t text => follow (runProgram _ _ _) (program t text)
    steadyExpr, steadyInvoke }

end ScriptLens.Analysis
