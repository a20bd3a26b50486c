import ScriptLens.Proofs.Analysis.Frame
import ScriptLens.Proofs.Analysis.Notes

/-!
# Calls in three parts

A call of a function of the program begins, follows the body of the function, and ends.
-/

namespace ScriptLens

def Notes.saysPure (s : Notes) (t : Tree) : Bool :=
  (s.ids[t.ref]?).any fun i => (s.getAt i .calleeIsPure).isTrue

theorem Notes.saysPure_setAt (s : Notes) (t : Tree) (b : Bool) :
  ((s.mark t).2.setAt (s.mark t).1 .calleeIsPure (.flag b)).saysPure t = b
  := by
  have known : ((s.mark t).2.setAt (s.mark t).1 .calleeIsPure (.flag b)).ids[t.ref]? =
      some (s.mark t).1 := s.mark_ids t
  rw [saysPure, known, Option.any_some, getAt_setAt]
  simp [Note.isTrue]

namespace Analysis

set_option synthInstance.maxSize 100000

variable {o : Obj} {body t : Tree} {site : Option Tree} {saved : Session} {v w : Value}
  {m m' : Machine} {K : Discipline}

instance [Local K] [Noting K] : Obeys K (noteCall o body site) := by
  unfold noteCall
  cases site <;> infer_instance

theorem beginCall_eq_ok (run : beginCall o body site m = .ok saved m') :
  saved.isPure = m.session.isPure ∧ m'.session.isPure = true
  := by
  obtain ⟨_, m1, prepared, run⟩ := bind_eq_ok.1 run
  cases run
  exact ⟨(Passive.same prepared).isPure, rfl⟩

theorem leaveFunction_eq_ok (run : leaveFunction m = .ok () m') :
  m'.session = m.session ∧ m'.notes = m.notes
  := by
  rw [leaveFunction, state_bind] at run
  by_cases bottom : m.state.isBottom
  · rw [if_pos bottom] at run
    cases run
    exact ⟨rfl, rfl⟩
  · rw [if_neg bottom] at run
    cases frame : m.state.frames.getLast? with
    | none =>
      rw [frame] at run
      cases run
    | some l =>
      rw [frame] at run
      cases run
      exact ⟨rfl, rfl⟩

instance [Wide K] : Obeys K (recordCall o body site saved v) := by
  unfold recordCall
  cases site <;> infer_instance

theorem endCall_isPure (run : endCall o body site saved v m = .ok w m') :
  m'.session.isPure = (saved.isPure && m.session.isPure)
  := by
  obtain ⟨u, m1, recorded, run⟩ := bind_eq_ok.1 run
  cases run
  rw [← (Passive.same recorded).isPure]

theorem endCall_noted (run : endCall o body (some t) saved v m = .ok w m') :
  m'.notes.saysPure t = m.session.isPure
  := by
  obtain ⟨u, m1, recorded, run⟩ := bind_eq_ok.1 run
  cases run
  -- After the note is written, the notes do not change any more.
  simp only [recordCall, changeSession_bind, session_bind] at recorded
  obtain ⟨_, m2, used, recorded⟩ := bind_eq_ok.1 recorded
  obtain ⟨_, m3, closed, recorded⟩ := bind_eq_ok.1 recorded
  obtain ⟨_, m4, noted, recorded⟩ := bind_eq_ok.1 recorded
  rw [state_bind] at recorded
  obtain ⟨s, n, -, recorded⟩ := lift_domain_bind_eq_ok.1 recorded
  rw [setState_bind, changeSession_bind] at recorded
  obtain ⟨_, m6, left, recorded⟩ := bind_eq_ok.1 recorded
  cases recorded
  cases noted
  have notes := (leaveFunction_eq_ok left).2
  change m1.notes.saysPure t = _
  rw [notes]
  apply Notes.saysPure_setAt

end Analysis

end ScriptLens
