import ScriptLens.Proofs.Analysis.Onward

/-!
# What is noted for good

A ledger is a relation between the notes at two points of an analysis that looks only at lasting
notes, such as that the target of a call is still noted.
-/

namespace ScriptLens

namespace Notes

/-- The nodes keep their numbers, and what is noted under some names stays as it is. -/
structure Agree (names : List NoteName) (s s' : Notes) : Prop where
  ids (r : Nat) {i : Nat} : s.ids[r]? = some i → s'.ids[r]? = some i
  notes (i : Nat) {n : NoteName} : n ∈ names → s'.getAt i n = s.getAt i n

variable {names : List NoteName} {n : NoteName}

theorem agree_mark (names : List NoteName) (s : Notes) (t : Tree) : s.Agree names (s.mark t).2 := by
  refine ⟨fun _ _ known => s.mark_ids_of known, fun i n _ => ?_⟩
  rw [getAt, mark_table]
  rfl

theorem agree_setAt (s : Notes) (i : Nat) (other : n ∉ names) (v : Note) :
  s.Agree names (s.setAt i n v)
  := by
  refine ⟨fun _ _ known => known, fun j k listed => ?_⟩
  rw [getAt_setAt, if_neg]
  rintro ⟨-, rfl⟩
  exact other listed

theorem agree_eraseAt (s : Notes) (i : Nat) (other : n ∉ names) : s.Agree names (s.eraseAt i n)
  := by
  refine ⟨fun _ _ known => known, fun j k listed => ?_⟩
  rw [getAt_eraseAt, if_neg]
  rintro ⟨-, rfl⟩
  exact other listed

theorem agree_setAttr (names : List NoteName) (s : Notes) (t : Tree) (a : Attr) (u : Tree) :
  s.Agree names (s.setAttr t a u)
  := ⟨fun _ _ known => known, fun _ _ _ => rfl⟩

end Notes

/-- A relation between notes that looks only at what is noted under some names; `Sound` says what is
true of the notes all along. -/
structure Ledger where
  names : List NoteName
  lasting : ∀ n ∈ names, n ∈ NoteName.lasting
  Sound : Notes → Prop
  Holds : Notes → Notes → Prop
  trans {s s' s'' : Notes} : Holds s s' → Holds s' s'' → Holds s s''
  agree {s s' : Notes} : s.Agree names s' → Holds s s'
  sound {s s' : Notes} : Holds s s' → Sound s → Sound s'

namespace Ledger

variable (c : Ledger)

def Noted (m m' : Machine) : Prop := c.Holds m.notes m'.notes

variable {c}

theorem noted_refl {m m' : Machine} (same : m'.notes = m.notes) : c.Noted m m'
  := c.agree (same ▸ ⟨fun _ _ known => known, fun _ _ _ => rfl⟩)

theorem notMem_of_free (n : NoteName) [free : n.Free] : n ∉ c.names
  := fun listed => free.other (c.lasting n listed) rfl

instance : Plain c.Noted
  where
  trans := c.trans
  free agrees := noted_refl agrees.notes
  mark m t := c.agree (m.notes.agree_mark _ t)
  write m i n v _ := c.agree (m.notes.agree_setAt i (notMem_of_free n) v)
  erase m i n _ := c.agree (m.notes.agree_eraseAt i (notMem_of_free n))
  extend m t a u := c.agree (m.notes.agree_setAttr _ t a u)

end Ledger

namespace Analysis

set_option synthInstance.maxSize 100000

open Ledger

variable {α β : Type} {c : Ledger} {F : Notes} {m m' : Machine}

theorem setNote_known {t : Tree} {i : Nat} (known : m.notes.ids[t.ref]? = some i) (n : NoteName)
    (v : Note) : setNote t n v m = .ok () { m with notes := m.notes.setAt i n v }
  := by
  have marked : m.notes.mark t = (i, m.notes) := by rw [Notes.mark, known]
  change EStateM.Result.ok () { m with notes := (m.notes.mark t).2.setAt (m.notes.mark t).1 n v } = _
  rw [marked]

theorem note_known {t : Tree} {i : Nat} (known : m.notes.ids[t.ref]? = some i) (n : NoteName) :
  note t n m = .ok (m.notes.getAt i n) m
  := by
  have marked : m.notes.mark t = (i, m.notes) := by rw [Notes.mark, known]
  change EStateM.Result.ok ((m.notes.mark t).2.getAt (m.notes.mark t).1 n)
    { m with notes := (m.notes.mark t).2 } = _
  rw [marked]

instance noted_changeSession (f : Session → Session) : Keeps c.Noted (changeSession f)
  := .change fun _ => noted_refl rfl

theorem noted_setNote (t : Tree) {n : NoteName} (other : n ∉ c.names) (v : Note) :
  Keeps c.Noted (setNote t n v)
  := by
  have write (i : Nat) : Keeps c.Noted
      (modify fun m => { m with notes := m.notes.setAt i n v } : Analysis Unit) :=
    .change fun m => c.agree (m.notes.agree_setAt i other v)
  unfold setNote
  infer_instance

theorem noted_evalCode (other : .evalTree ∉ c.names) (site : Tree) (x : Text) :
  Keeps c.Noted (evalCode site x)
  := by
  have write := noted_setNote site other
  unfold evalCode readCode
  refine .after fun _ => ?_
  split <;> infer_instance

/-- The first computation keeps a ledger, and the second one does the same wherever the ledger holds
from there on to the notes `F`. -/
structure Foresees (c : Ledger) (F : Notes) (x y : Analysis α) : Prop where
  keeps : Keeps c.Noted x
  ended {m : Machine} {a : α} {m' : Machine} :
    x m = .ok a m' → c.Sound m.notes → c.Holds m'.notes F → y m = .ok a m'
  abandoned {m : Machine} {site : Nat} {m' : Machine} :
    x m = .error (.unwind site) m' → c.Sound m.notes → c.Holds m'.notes F →
      y m = .error (.unwind site) m'

namespace Foresees

theorem same {x : Analysis α} (kept : Keeps c.Noted x) : Foresees c F x x
  := ⟨kept, fun run _ _ => run, fun run _ _ => run⟩

theorem bind {x y : Analysis α} {f g : α → Analysis β} (first : Foresees c F x y)
    (rest : ∀ a, Foresees c F (f a) (g a)) : Foresees c F (x >>= f) (y >>= g)
  := by
  have keepsFirst := first.keeps
  have keepsRest (a : α) := (rest a).keeps
  refine ⟨inferInstance, ?_, ?_⟩
  · intro m b m' run sound holds
    obtain ⟨a, m1, run1, run2⟩ := bind_eq_ok.1 run
    have between := c.sound (keepsFirst.ended run1) sound
    have before := c.trans ((keepsRest a).ended run2) holds
    exact bind_eq_ok.2
      ⟨a, m1, first.ended run1 sound before, (rest a).ended run2 between holds⟩
  · intro m site m' run sound holds
    obtain run1 | ⟨a, m1, run1, run2⟩ := bind_eq_error.1 run
    · exact bind_of_error (first.abandoned run1 sound holds)
    · have between := c.sound (keepsFirst.ended run1) sound
      have before := c.trans ((keepsRest a).abandoned run2) holds
      exact bind_eq_error.2
        (.inr ⟨a, m1, first.ended run1 sound before, (rest a).abandoned run2 between holds⟩)

theorem onState {x y : Analysis α} (s : State) (inner : Foresees c F x y) :
  Foresees c F (onState s x) (onState s y)
  := by
  have keeps := inner.keeps
  refine ⟨inferInstance, ?_, ?_⟩
  · intro m p m' run sound holds
    obtain ⟨m1, ended, value, rfl⟩ := onState_eq_ok run
    obtain ⟨a, s'⟩ := p
    obtain rfl : s' = m1.state := value
    rw [Analysis.onState, inner.ended ended sound holds]
  · intro m site m' run sound holds
    obtain ⟨m1, abandoned, rfl⟩ := onState_eq_error run
    rw [Analysis.onState, inner.abandoned abandoned sound holds]

theorem catchUnwind {x y : Analysis α} (inner : Foresees c F x y) :
  Foresees c F (catchUnwind x) (catchUnwind y)
  := by
  have keeps := inner.keeps
  refine ⟨inferInstance, ?_, ?_⟩
  · intro m a m' run sound holds
    obtain ⟨v, rfl, ended⟩ | ⟨site, m1, consumed, rfl, abandoned, rfl⟩ := catchUnwind_eq_ok run
    · rw [Analysis.catchUnwind, inner.ended ended sound holds]
    · rw [Analysis.catchUnwind, abandoned] at run
      rw [Analysis.catchUnwind, inner.abandoned abandoned sound holds]
      exact run
  · intro m site m' run
    obtain ⟨f, ⟨⟩⟩ := catchUnwind_eq_error run

theorem inSession {x y : Analysis Unit} (s : Session) (inner : Foresees c F x y) :
  Foresees c F (inSession s x) (inSession s y)
  := by
  refine ⟨keeps_inSession s inner.keeps id, ?_, ?_⟩
  · intro m a m' run sound holds
    rw [Analysis.inSession] at run ⊢
    split at run
    · rename_i ended
      cases run
      rw [inner.ended ended sound holds]
    · cases run
  · intro m site m' run sound holds
    rw [Analysis.inSession] at run ⊢
    split at run
    · cases run
    · rename_i abandoned
      cases run
      rw [inner.abandoned abandoned sound holds]

theorem reporting {x y : Analysis Unit} (inner : Foresees c F x y) :
  Foresees c F (reporting x) (reporting y)
  := by
  refine ⟨keeps_reporting inner.keeps, ?_, ?_⟩
  · intro m a m' run sound holds
    rw [Analysis.reporting] at run ⊢
    split at run
    · rename_i ended
      cases run
      rw [inner.ended ended sound holds]
    · split at run <;> cases run
  · intro m site m' run sound holds
    rw [Analysis.reporting] at run ⊢
    split at run
    · cases run
    · rename_i e m1 interrupted
      split at run
      · rename_i m2 shown
        obtain ⟨rfl, rfl⟩ := EStateM.Result.error.inj run
        have showing : c.Noted m1 m2 := Keeps.ended shown
        rw [inner.abandoned interrupted sound (c.trans showing holds)]
        dsimp only
        rw [shown]
      · rename_i e' m2 failed
        cases run
        exact absurd failed (Steady.steady (x := printInterrupt e))

end Foresees

/-- Foresight carries over from engines to the analyses they drive. -/
abbrev foresight (c : Ledger) (F : Notes) [Noting (keeping c.Noted)] : Congruence where
  Kept := keeping c.Noted
  Rel := Foresees c F
  passive _ kept := .same kept.holds
  bind := .bind
  effect := .same (noted_changeSession _)

variable [Noting (keeping c.Noted)]

instance : (foresight c F).Broad
  where
  elsewhere := .onState
  attempt := .catchUnwind

instance : (foresight c F).Forgetful
  where
  forgets _ := .same inferInstance
  counts := by unfold countIteration; infer_instance

instance (saved : Session) : Keeps c.Noted (leaveLoop saved)
  := by unfold leaveLoop; infer_instance

instance : (foresight c F).Nesting
  where
  enters _ := .same inferInstance
  leaves _ := .same inferInstance

section

variable (r r' : Engine) [(foresight c F).Follows r r']

instance (o : Obj) (body : Tree) (site : Option Tree) (args : List Value)
    (this : Receiver) :
  (foresight c F).Related (callFunction r o body site args this) (callFunction r' o body site args this)
  := by
  rw [callFunction, callFunction, beginCall]
  unfold callBody endCall
  infer_instance

instance foresees_invoke (callee : Callee) (site : Option Tree) (args : List Value)
    (this : Receiver) :
  (foresight c F).Related (invoke r callee site args this) (invoke r' callee site args this)
  := Congruence.related_invoke_of ..

instance foresees_runProgram (t : Tree) (text : Text) :
  (foresight c F).Related (runProgram r t text) (runProgram r' t text)
  := by
  have body : (foresight c F).Related (runBody r t) (runBody r' t) := inferInstance
  exact ⟨body.rel.reporting.inSession _⟩

end

theorem foresees_stopped : (foresight c F).Follows (engine 0) (engine 0) := by
  have stop (α : Type) : Foresees c F (fail .unfinished : Analysis α) (fail .unfinished) :=
    .same inferInstance
  exact { expr := fun _ => stop _, exec := fun _ _ => stop _, invoke := fun _ _ _ _ => stop _
          program := fun _ _ => stop _, attempt := fun _ _ _ => .catchUnwind }

theorem foresees_of_related {x y : Analysis α} (related : (foresight c F).Related x y) :
  Foresees c F x y
  := related.rel

theorem foresees_step (r r' : Engine) {s s' : Engine} [(foresight c F).Follows r r']
    (program : s.program = runProgram r) (program' : s'.program = runProgram r')
    (expr : ∀ t, Foresees c F (s.expr t) (s'.expr t))
    (exec : ∀ t hoisting, Foresees c F (s.exec t hoisting) (s'.exec t hoisting))
    (invoke : ∀ callee site args this,
      Foresees c F (s.invoke callee site args this) (s'.invoke callee site args this)) :
  (foresight c F).Follows s s'
  := by
  refine { expr, exec, invoke, program := fun t text => ?_, attempt := fun _ _ _ => .catchUnwind }
  rw [program, program']
  exact foresees_of_related (foresees_runProgram r r' t text)

/-- However deep a program is followed, each ledger is kept that is kept where notes are written. -/
instance [Comparing (keeping c.Noted)] (n : Nat) : (foresight c F).Follows (engine n) (engine n)
  := by
  induction n with
  | zero => exact foresees_stopped
  | succ n ih =>
    refine foresees_step (engine n) (engine n) rfl rfl (fun t => ?_) (fun t hoisting => ?_)
      fun callee site args this => ?_
    all_goals apply foresees_of_related
    · exact Congruence.related_evalExpr _ (engine n) (engine n) t
    · exact Congruence.related_statement _ (engine n) (engine n) t hoisting
    · exact foresees_invoke (engine n) (engine n) callee site args this

end Analysis

/-! ### Whole texts -/

/-- What `analyze` does, with any engine. -/
def analyzeBy (r : Engine) (options : Options) (isQuiet : Bool) (source : Text) :
    Except Failure Outcome := do
  let p ← parseScript source 1
  match Analysis.reporting (Analysis.runBody r p.tree) (Machine.start options isQuiet source p) with
  | .ok _ m => return { tree := p.tree, machine := m }
  | .error (.failure f) _ => throw f
  | .error (.unwind _) _ => throw .unfinished

variable {r r' : Engine} {options : Options} {isQuiet : Bool} {source : Text} {o : Outcome}

theorem analyzeBy_engine :
  analyzeBy (Analysis.engine Analysis.patience) options isQuiet source = analyze options isQuiet source
  := rfl

theorem analyzeBy_eq_ok :
  analyzeBy r options isQuiet source = .ok o ↔
    ∃ p, parseScript source 1 = .ok p ∧ p.tree = o.tree ∧
      Analysis.reporting (Analysis.runBody r p.tree) (Machine.start options isQuiet source p) =
        .ok () o.machine
  := by
  rw [analyzeBy, except_bind_eq_ok]
  refine exists_congr fun p => and_congr_right fun _ => ?_
  cases Analysis.reporting (Analysis.runBody r p.tree) (Machine.start options isQuiet source p) with
  | ok _ m =>
    obtain ⟨tree, machine⟩ := o
    simp [pure, Except.pure]
  | error e m => cases e <;> simp [throw, throwThe, MonadExceptOf.throw]

theorem Machine.start_blank (options : Options) (isQuiet : Bool) (source : Text) (p : Parsed) :
  (Machine.start options isQuiet source p).notes.Blank
  := Notes.Blank.markTree ⟨Notes.well_empty, rfl⟩ p.tree

theorem analyzeBy_foresees {c : Ledger} [Analysis.Noting (Analysis.keeping c.Noted)]
    (sound : ∀ s : Notes, s.Blank → c.Sound s)
    (follows : (Analysis.foresight c o.machine.notes).Follows r r')
    (run : analyzeBy r options isQuiet source = .ok o) : analyzeBy r' options isQuiet source = .ok o
  := by
  obtain ⟨p, parsed, tree, ran⟩ := analyzeBy_eq_ok.1 run
  have body : (Analysis.foresight c o.machine.notes).Related (Analysis.runBody r p.tree)
      (Analysis.runBody r' p.tree) := inferInstance
  have start := sound _ (Machine.start_blank options isQuiet source p)
  exact analyzeBy_eq_ok.2
    ⟨p, parsed, tree, body.rel.reporting.ended ran start (Ledger.noted_refl rfl)⟩

end ScriptLens
