import Mathlib.Tactic.Common
import ScriptLens.Domain.State

/-!
# Results of computations

What computations on states give from a setting and a counter, and how that is put together from
the results of their steps.
-/

namespace ScriptLens

variable {α β : Type}

theorem except_bind_eq_ok {x : Except Failure α} {f : α → Except Failure β} {b : β} :
  (x >>= f) = .ok b ↔ ∃ a, x = .ok a ∧ f a = .ok b
  := by
  cases x with
  | error e =>
    constructor
    · intro impossible
      cases impossible
    · rintro ⟨a, impossible, _⟩
      cases impossible
  | ok a =>
    constructor
    · intro rest
      use a, rfl, rest
    · rintro ⟨a', same, rest⟩
      cases same
      apply rest

theorem except_bind_of_ok {x : Except Failure α} {f : α → Except Failure β} {a : α}
    (first : x = .ok a) : (x >>= f) = f a
  := by
  rw [first]
  rfl

namespace State

variable {s : State} {i : Nat} {o : Obj}

theorem scopeId_some (i : Nat) : scopeId (some i) = .ok i
  := rfl

theorem scopeId_eq_ok {l : Option Nat} (run : scopeId l = .ok i) : l = some i := by
  cases l with
  | none => cases run
  | some j =>
    cases run
    rfl

theorem obj_ok (found : s.objs.get? i = some o) : s.obj i = .ok o := by
  rw [obj, found]
  rfl

theorem scope_bind {f : Obj → Except Failure α} (found : s.objs.get? i = some o) :
  (do f (← s.obj (← scopeId (some i)))) = f o
  := by
  rw [except_bind_of_ok (scopeId_some i), except_bind_of_ok (obj_ok found)]

theorem obj_eq_ok (run : s.obj i = .ok o) : s.objs.get? i = some o := by
  rw [obj] at run
  split at run
  · cases run
    assumption
  · cases run

end State

theorem estate_bind_eq_ok {ε σ : Type} {x : EStateM ε σ α} {f : α → EStateM ε σ β} {s s'' : σ}
    {b : β} :
  (x >>= f) s = .ok b s'' ↔ ∃ a s', x s = .ok a s' ∧ f a s' = .ok b s''
  := by
  change EStateM.bind x f s = _ ↔ _
  rw [EStateM.bind]
  cases first : x s with
  | error e s1 =>
    constructor
    · nofun
    · rintro ⟨a, s', impossible, _⟩
      cases impossible
  | ok a s1 =>
    constructor
    · intro rest
      use a, s1, rfl, rest
    · rintro ⟨a', s', same, rest⟩
      cases same
      apply rest

/-- Whether a computation ends, with a result of the given kind. -/
def ends {ε σ α : Type} (x : EStateM ε σ α) (s : σ) (p : α → σ → Bool) : Bool :=
  match x s with
  | .ok a s' => p a s'
  | .error .. => false

theorem exists_of_ends {ε σ : Type} {x : EStateM ε σ α} {s : σ} {p : α → σ → Bool}
    (found : ends x s p = true) : ∃ a s', x s = .ok a s' ∧ p a s' = true
  := by
  rw [ends] at found
  split at found
  · rename_i a s' ended
    exact ⟨a, s', ended, found⟩
  · cases found

def failure? {α : Type} : Except Failure α → Option Failure
  | .error f => some f
  | .ok _ => none

theorem except_eq_error {x : Except Failure α} {f : Failure} (failed : failure? x = some f) :
  x = .error f
  := by
  cases x with
  | error e =>
    cases failed
    rfl
  | ok a => cases failed

theorem except_any_eq_true {x : Except Failure α} {f : α → Bool} (found : x.toOption.any f = true) :
  ∃ a, x = .ok a ∧ f a = true
  := by
  cases x with
  | error e => cases found
  | ok a => use a, rfl, found

namespace Domain

variable {α β : Type} {d : Domain α} {x : Except Failure α} {f : α → Domain β} {c : Setting} {n : Nat}
  {a : α} {e : Failure} {r : β × Nat}

def eval (d : Domain α) (c : Setting) (n : Nat) : Except Failure (α × Nat) := (d.run c).run n

section

variable (a : α) (c : Setting) (n : Nat)

@[simp] theorem eval_pure :
  (pure a : Domain α).eval c n = .ok (a, n)
  := rfl

@[simp] theorem eval_newId : Domain.newId.eval c n = .ok (n, n + 1)
  := rfl

@[simp] theorem eval_options :
  Domain.options.eval c n = .ok (c.options, n)
  := rfl

@[simp] theorem eval_read :
  (read : Domain Setting).eval c n = .ok (c, n)
  := rfl

end

theorem eval_bind_ok {n' : Nat} (first : d.eval c n = .ok (a, n')) :
  (d >>= f).eval c n = (f a).eval c n'
  := by
  simp only [eval, ReaderT.run_bind, StateT.run_bind] at first ⊢
  rw [first]
  rfl

theorem eval_bind_error (first : d.eval c n = .error e) : (d >>= f).eval c n = .error e := by
  simp only [eval, ReaderT.run_bind, StateT.run_bind] at first ⊢
  rw [first]
  rfl

theorem eval_bind_eq_ok :
  (d >>= f).eval c n = .ok r ↔ ∃ a n', d.eval c n = .ok (a, n') ∧ (f a).eval c n' = .ok r
  := by
  cases first : d.eval c n with
  | error e =>
    rw [eval_bind_error first]
    constructor
    · intro impossible
      cases impossible
    · rintro ⟨a, n', impossible, _⟩
      cases impossible
  | ok p =>
    obtain ⟨a, n'⟩ := p
    rw [eval_bind_ok first]
    constructor
    · intro rest
      use a, n', rfl
    · rintro ⟨b, k, same, rest⟩
      cases same
      apply rest

@[simp] theorem eval_lift (x : Except Failure α) (c : Setting) (n : Nat) :
  (liftM x : Domain α).eval c n = x.map fun a => (a, n)
  := by
  cases x <;> rfl

theorem eval_lift_bind_ok (first : x = .ok a) :
  ((liftM x : Domain α) >>= f).eval c n = (f a).eval c n
  := by
  rw [first]
  rfl

theorem eval_lift_bind_error (first : x = .error e) :
  ((liftM x : Domain α) >>= f).eval c n = .error e
  := by
  rw [first]
  rfl

theorem eval_lift_bind_eq_ok :
  ((liftM x : Domain α) >>= f).eval c n = .ok r ↔ ∃ a, x = .ok a ∧ (f a).eval c n = .ok r
  := by
  cases x with
  | error e =>
    rw [eval_lift_bind_error rfl]
    constructor
    · nofun
    · rintro ⟨a, impossible, _⟩
      cases impossible
  | ok a =>
    rw [eval_lift_bind_ok rfl]
    constructor
    · intro rest
      use a
    · rintro ⟨b, same, rest⟩
      cases same
      apply rest

end Domain

/-! ### Lists of entries -/

section

variable {α β : Type} [BEq α] [LawfulBEq α] [DecidableEq α] (n k : α) (l : List (α × β))

theorem lookup_cons (p : α × β) : (p :: l).lookup k = if k = p.1 then some p.2 else l.lookup k := by
  rw [List.lookup_cons]
  split <;> simp_all

theorem lookup_put (put : List (α × β) → List (α × β)) (f : β → β) {v : β} (nil : put [] = [(n, v)])
    (cons : ∀ p l, put (p :: l) = if p.1 = n then (p.1, f p.2) :: l else p :: put l) :
  (put l).lookup k = if k = n then some ((l.lookup n).elim v f) else l.lookup k
  := by
  induction l with
  | nil =>
    rw [nil, lookup_cons]
    rfl
  | cons p l ih =>
    rw [cons]
    split <;> simp only [lookup_cons] <;> grind

theorem lookup_filter (keep : α → Bool) :
  (l.filter fun p => keep p.1).lookup k = if keep k then l.lookup k else none
  := by
  induction l with
  | nil => simp
  | cons p l ih =>
    rw [List.filter_cons]
    split <;> simp only [lookup_cons] <;> grind

end

abbrev Computation (ρ σ α : Type) : Type := ReaderT ρ (EStateM Failure σ) α

/-- A relation that computations without steps keep, and computations of two steps if both do. -/
class Course {ρ σ : Type} (R : ρ → σ → σ → Prop) : Prop where
  refl (s : ρ) (c : σ) : R s c c
  trans {s : ρ} {c c' c'' : σ} : R s c c' → R s c' c'' → R s c c''

/-- A computation that leads only to related states. -/
class Moves {ρ σ α : Type} (R : ρ → σ → σ → Prop) (x : Computation ρ σ α) : Prop where
  leads {s : ρ} {c c' : σ} {a : α} : x s c = .ok a c' → R s c c'

variable {ρ σ : Type} {R : ρ → σ → σ → Prop} {s : ρ} {c c' : σ}

theorem computation_bind_eq_ok {x : Computation ρ σ α} {f : α → Computation ρ σ β} {b : β} :
  (x >>= f) s c = .ok b c' ↔ ∃ a c1, x s c = .ok a c1 ∧ f a s c1 = .ok b c'
  := estate_bind_eq_ok

namespace Moves

theorem change {f : σ → σ} (kept : ∀ s c, R s c (f c)) : Moves R (modify f : Computation ρ σ Unit)
  := by
  constructor
  intro s c c' a run
  cases run
  exact kept s c

instance throw (e : Failure) : Moves R (throw e : Computation ρ σ α)
  := ⟨fun run => by cases run⟩

instance ite (p : Prop) [Decidable p] (x y : Computation ρ σ α) [Moves R x] [Moves R y] :
  Moves R (if p then x else y)
  := by split <;> infer_instance

variable [Course R]

instance pure (a : α) : Moves R (pure a : Computation ρ σ α)
  := ⟨fun run => by cases run; exact Course.refl ..⟩

instance read : Moves R (read : Computation ρ σ ρ)
  := ⟨fun run => by cases run; exact Course.refl ..⟩

instance get : Moves R (get : Computation ρ σ σ)
  := ⟨fun run => by cases run; exact Course.refl ..⟩

instance bind (x : Computation ρ σ α) (f : α → Computation ρ σ β) [Moves R x] [∀ a, Moves R (f a)] :
  Moves R (x >>= f)
  := by
  constructor
  intro s c c' b run
  obtain ⟨a, c1, first, rest⟩ := computation_bind_eq_ok.1 run
  exact Course.trans (Moves.leads first) (Moves.leads rest)

theorem after {x : Computation ρ σ α} {f : α → Computation ρ σ β} [Moves R x]
    (rest : ∀ a, Moves R (f a)) : Moves R (x >>= f)
  := bind x f

end Moves

end ScriptLens
