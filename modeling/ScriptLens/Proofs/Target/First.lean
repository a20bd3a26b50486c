import ScriptLens.Proofs.Analysis.Lasting
import ScriptLens.Proofs.Analysis.Refinement

/-!
# The functions that call expressions are noted with

A call expression is noted with the first function of the program that it calls: the number of the
body and the names of the parameters.
-/

namespace ScriptLens

open Analysis

/-- A function as a call expression is noted with it: the number of its body and the names of its
parameters. -/
structure Target where
  body : Nat
  params : List (Option Text)
deriving DecidableEq

namespace Notes

def targetNames : List NoteName := [.targetBody, .targetParams, .targetsAgree]

def targetAt (s : Notes) (i : Nat) : Option Target :=
  match s.getAt i .targetBody, s.getAt i .targetParams with
  | .node b, .names l => some ⟨b, l.map Tree.text?⟩
  | _, _ => none

def targetOf (s : Notes) (t : Tree) : Option Target := (s.mark t).2.targetAt (s.mark t).1

def targetFor (s : Notes) (body : Tree) (params : List Tree) : Option Target :=
  (s.ids[body.ref]?).map fun i => ⟨i, params.map fun p => (p.get .name).text?⟩

def Called (s : Notes) (i : Nat) : Prop := s.getAt i .targetsAgree ≠ .none

def TargetsSound (s : Notes) : Prop :=
  ∀ i, s.Called i ∧ s.targetAt i ≠ none ∨ ¬ s.Called i ∧ s.getAt i .targetBody = .none

/-- The functions that call expressions are noted with in `s` are noted in `s'` as well. -/
structure TargetsKept (s s' : Notes) : Prop where
  ids (r : Nat) {i : Nat} : s.ids[r]? = some i → s'.ids[r]? = some i
  kept {i : Nat} : s.Called i → ∀ n ∈ targetNames, s'.getAt i n = s.getAt i n
  sound : s.TargetsSound → s'.TargetsSound

variable {s s' : Notes} {t body : Tree} {params : List Tree} {i : Nat}

theorem targetOf_eq (known : s.ids[t.ref]? = some i) : s.targetOf t = s.targetAt i
  := by rw [targetOf, mark, known]

theorem targetOf_congr {u : Tree} (same : t.ref = u.ref) (s : Notes) : s.targetOf t = s.targetOf u
  := by
  rw [targetOf, targetOf, mark, mark, same]
  cases s.ids[u.ref]? <;> rfl

theorem targetAt_congr (same : ∀ n ∈ targetNames, s'.getAt i n = s.getAt i n) :
  (s'.Called i ↔ s.Called i) ∧ s'.targetAt i = s.targetAt i
  := by
  rw [Called, Called, targetAt, targetAt, same _ (by decide), same _ (by decide), same _ (by decide)]
  exact ⟨Iff.rfl, rfl⟩

theorem TargetsKept.called (kept : s.TargetsKept s') (called : s.Called i) : s'.Called i
  := (targetAt_congr (kept.kept called)).1.2 called

theorem TargetsKept.trans {s'' : Notes} (first : s.TargetsKept s') (second : s'.TargetsKept s'') :
  s.TargetsKept s''
  := by
  refine ⟨fun r i known => second.ids r (first.ids r known), ?_,
    fun sound => second.sound (first.sound sound)⟩
  intro i called n listed
  rw [second.kept (first.called called) n listed, first.kept called n listed]

theorem targetsKept_of_agree (agree : s.Agree targetNames s') : s.TargetsKept s' := by
  refine ⟨agree.ids, fun {i} _ n => agree.notes i, fun sound i => ?_⟩
  obtain ⟨called, target⟩ := targetAt_congr fun n => agree.notes i
  rw [called, target, agree.notes i (by decide)]
  exact sound i

theorem Blank.targetsSound (blank : s.Blank) : s.TargetsSound := by
  intro i
  have nothing (n : NoteName) : s.getAt i n = .none := by
    rw [getAt, blank.table, Std.TreeMap.getElem?_emptyc]
    rfl
  exact .inr ⟨fun called => called (nothing _), nothing _⟩

theorem TargetsKept.targetOf_eq (kept : s.TargetsKept s') (known : s.ids[t.ref]? = some i)
    (called : s.Called i) : s'.targetOf t = s.targetOf t
  := by
  rw [Notes.targetOf_eq known, Notes.targetOf_eq (kept.ids _ known)]
  exact (targetAt_congr (kept.kept called)).2

theorem TargetsKept.targetFor_eq (kept : s.TargetsKept s') (known : s.ids[body.ref]? = some i) :
  s'.targetFor body params = s.targetFor body params
  := by rw [targetFor, targetFor, known, kept.ids _ known]

/-! ### Noting a function -/

def setTarget (i b : Nat) (params : List Tree) (s : Notes) : Notes :=
  ((s.setAt i .targetBody (.node b)).setAt i .targetParams
    (.names (params.map fun p => p.get .name))).setAt i .targetsAgree (.flag false)

theorem targetAt_setTarget (s : Notes) (i b : Nat) (params : List Tree) :
  (s.setTarget i b params).targetAt i = some ⟨b, params.map fun p => (p.get .name).text?⟩
  := by simp [targetAt, setTarget, getAt_setAt]

theorem called_setTarget (s : Notes) (i b : Nat) (params : List Tree) :
  (s.setTarget i b params).Called i
  := by simp [Called, setTarget, getAt_setAt]

theorem getAt_setTarget (s : Notes) {j : Nat} (differs : j ≠ i) (b : Nat) (params : List Tree)
    (n : NoteName) : (s.setTarget i b params).getAt j n = s.getAt j n
  := by simp [setTarget, getAt_setAt, differs]

theorem targetsKept_setTarget (fresh : ¬ s.Called i) (b : Nat) (params : List Tree) :
  s.TargetsKept (s.setTarget i b params)
  := by
  refine ⟨fun _ _ known => known, fun {j} called n _ => ?_, fun sound j => ?_⟩
  · rw [getAt_setTarget]
    rintro rfl
    exact fresh called
  · by_cases same : j = i
    · subst same
      left
      refine ⟨called_setTarget s j b params, ?_⟩
      rw [targetAt_setTarget]
      exact Option.some_ne_none _
    · have other (n : NoteName) := s.getAt_setTarget same b params n
      obtain ⟨called, target⟩ := targetAt_congr fun n _ => other n
      rw [called, target, other]
      exact sound j

def calling (s : Notes) (t body : Tree) (params : List Tree) : Notes :=
  match (s.mark t).2.getAt (s.mark t).1 .targetsAgree with
  | .none => ((s.mark t).2.mark body).2.setTarget (s.mark t).1 ((s.mark t).2.mark body).1 params
  | _ => (s.mark t).2

section

variable (s : Notes) (t body : Tree) (params : List Tree)

theorem calling_cases :
  (¬ (s.mark t).2.Called (s.mark t).1 ∧ s.calling t body params =
    ((s.mark t).2.mark body).2.setTarget (s.mark t).1 ((s.mark t).2.mark body).1 params) ∨
  ((s.mark t).2.Called (s.mark t).1 ∧ s.calling t body params = (s.mark t).2)
  := by
  unfold calling Called
  split
  · rename_i nothing
    exact .inl ⟨fun called => called nothing, rfl⟩
  · rename_i something
    exact .inr ⟨something, rfl⟩

theorem targetsKept_mark : s.TargetsKept (s.mark t).2
  := targetsKept_of_agree (s.agree_mark _ t)

theorem targetsKept_calling :
  s.TargetsKept (s.calling t body params)
  := by
  apply (s.targetsKept_mark t).trans
  obtain ⟨fresh, same⟩ | ⟨-, same⟩ := s.calling_cases t body params <;> rw [same]
  · apply ((s.mark t).2.targetsKept_mark body).trans
    apply targetsKept_setTarget
    rw [Called, getAt, mark_table]
    exact fresh
  · exact targetsKept_of_agree ⟨fun _ _ known => known, fun _ _ _ => rfl⟩

theorem called_calling :
  (s.calling t body params).ids[t.ref]? = some (s.mark t).1 ∧
    (s.calling t body params).Called (s.mark t).1
  := by
  obtain ⟨-, same⟩ | ⟨called, same⟩ := s.calling_cases t body params <;> rw [same]
  · exact ⟨(s.mark t).2.mark_ids_of (s.mark_ids t), called_setTarget _ _ _ _⟩
  · exact ⟨s.mark_ids t, called⟩

end

theorem targetOf_calling (sound : s.TargetsSound) (t body : Tree) (params : List Tree) :
  (s.calling t body params).targetOf t ≠ none ∧
    (s.targetOf t = (s.calling t body params).targetOf t ∨
      s.targetOf t = none ∧ ∃ i, (s.calling t body params).ids[body.ref]? = some i ∧
        (s.calling t body params).targetFor body params = (s.calling t body params).targetOf t)
  := by
  have marked := (s.targetsKept_mark t).sound sound
  rw [targetOf_eq (s.called_calling t body params).1]
  obtain ⟨fresh, same⟩ | ⟨called, same⟩ := s.calling_cases t body params <;> rw [same]
  · rw [targetAt_setTarget]
    have nothing : (s.mark t).2.getAt (s.mark t).1 .targetBody = .none := by
      obtain ⟨called, -⟩ | ⟨-, nothing⟩ := marked (s.mark t).1
      · exact absurd called fresh
      · exact nothing
    have known : (((s.mark t).2.mark body).2.setTarget (s.mark t).1 ((s.mark t).2.mark body).1
        params).ids[body.ref]? = some ((s.mark t).2.mark body).1 := (s.mark t).2.mark_ids body
    refine ⟨Option.some_ne_none _, .inr ⟨?_, _, known, ?_⟩⟩
    · rw [targetOf, targetAt, nothing]
    · rw [targetFor, known]
      rfl
  · refine ⟨?_, .inl rfl⟩
    obtain ⟨-, some⟩ | ⟨fresh, -⟩ := marked (s.mark t).1
    · exact some
    · exact absurd called fresh

end Notes

abbrev targets : Ledger where
  names := Notes.targetNames
  lasting := by decide
  Sound := Notes.TargetsSound
  Holds := Notes.TargetsKept
  trans := .trans
  agree := Notes.targetsKept_of_agree
  sound kept := kept.sound

namespace Analysis

set_option synthInstance.maxSize 100000

open Notes

variable {α β : Type} {c t body : Tree} {params : List Tree} {m m' : Machine} {F : Notes}

theorem noteTarget_apply (isCall : t.kind = .callExpression) (body : Tree) (params : List Tree)
    (m : Machine) :
  noteTarget t body params m = .ok () { m with notes := m.notes.calling t body params }
  := by
  rw [noteTarget, if_pos (beq_iff_eq.2 isCall), note_bind, calling]
  cases (m.notes.mark t).2.getAt (m.notes.mark t).1 .targetsAgree with
  | none =>
    have known : ((m.notes.mark t).2.mark body).2.ids[t.ref]? = some (m.notes.mark t).1 :=
      (m.notes.mark t).2.mark_ids_of (m.notes.mark_ids t)
    dsimp only
    rw [nodeId_bind, bind_of_ok (setNote_known known _ _), bind_of_ok (setNote_known known _ _)]
    exact setNote_known known _ _
  | _ => rfl

instance : Noting (keeping targets.Noted) := by
  have other : ∀ n ∈ [NoteName.staticValue, .contextValues], n ∉ targetNames := by decide
  refine ⟨fun site x => ⟨noted_evalCode (by decide) site x⟩, fun site body params => ?_,
    fun t => obeys_noteValue_of fun n value w => ⟨noted_setNote t (other n value) w⟩⟩
  by_cases isCall : site.kind = .callExpression
  · exact ⟨.step fun m => ⟨(), _, noteTarget_apply isCall body params m,
      m.notes.targetsKept_calling site body params⟩⟩
  · unfold noteTarget
    rw [if_neg (by simpa using isCall)]
    infer_instance

instance : Comparing (keeping targets.Noted)
  := ⟨obeys_compareValues_of fun i => ⟨.change fun m =>
    targets.agree (m.notes.agree_eraseAt i (by decide))⟩⟩

/-! ### Looking at calls -/

def allows (c : Tree) (p : Notes → Tree → List Tree → Bool) (s : Notes) (callee : Callee)
    (site : Option Tree) : Bool :=
  match callee, site with
  | .object o, some t =>
    match o.native, o.body with
    | none, some body => !(t.kind == .callExpression && t.ref == c.ref) || p s body o.params
    | _, _ => true
  | _, _ => true

def looking (c : Tree) (p : Notes → Tree → List Tree → Bool) : Nat → Engine
  | 0 => engine 0
  | n + 1 =>
    { expr := fun t => evalExpr (looking c p n) t
      exec := fun t hoisting => execStatement (looking c p n) t hoisting
      invoke := fun callee site args this => do
        let m ← get
        require (allows c p m.notes callee site)
        invoke (looking c p n) callee site args this
      program := fun t text => runProgram (looking c p n) t text }

/-- Whether a call of a function is one that the notes in the end speak of: the call expression is
noted with the same function already, or with none, and the function is that one. -/
def isOrFollowsFirst (c : Tree) (F : Notes) (s : Notes) (body : Tree) (params : List Tree) : Bool :=
  (F.targetOf c).isSome &&
    (s.targetOf c == F.targetOf c || s.targetOf c == none && F.targetFor body params == F.targetOf c)

theorem Keeps.first {R : Machine → Machine → Prop} {x : Analysis α} {f : α → Analysis β} [Steady x]
    (rest : ∀ a, Keeps R (f a)) : Keeps (fun m m' => ∃ a m1, x m = .ok a m1 ∧ R m1 m') (x >>= f)
  := by
  constructor
  · intro m b m' run
    obtain ⟨a, m1, run1, run2⟩ := bind_eq_ok.1 run
    exact ⟨a, m1, run1, (rest a).ended run2⟩
  · intro m site m' run
    obtain run1 | ⟨a, m1, run1, run2⟩ := bind_eq_error.1 run
    · exact absurd run1 Steady.steady
    · exact ⟨a, m1, run1, (rest a).abandoned run2⟩

def used (s : Notes) (body : Tree) : Notes := s.setAttr body .isUsed (.flag true)

theorem targetOf_used (s : Notes) (t body : Tree) : (used s body).targetOf t = s.targetOf t := by
  have ids : (used s body).ids = s.ids := rfl
  rw [targetOf, targetOf, mark, mark, ids]
  cases s.ids[t.ref]? <;> rfl

theorem callFunction_calling (r : Engine) [(foresight targets F).Follows r r] (o : Obj)
    (isCall : t.kind = .callExpression) (body : Tree) (args : List Value) (this : Receiver) :
  Keeps (fun m m' => ((used m.notes body).calling t body o.params).TargetsKept m'.notes)
    (callFunction r o body (some t) args this)
  := by
  have steady : Steady (noteCall o body (some t)) := by
    constructor
    intro m site m' run
    cases (noteTarget_apply isCall body o.params _).symm.trans run
  let rest (_ : Unit) : Analysis Value := (do
      let saved ← session
      changeSession fun s =>
        { s with result := .absent, returned := .bottom, callers := s.callers ++ [s.last]
                 isPure := true }
      let value ← callBody r o body args this
      endCall o body (some t) saved value)
  have related (u : Unit) : (foresight targets F).Related (rest u) (rest u) := by
    dsimp only [rest]
    unfold callBody endCall
    infer_instance
  rw [callFunction, beginCall]
  simp only [bind_assoc, pure_bind]
  refine (Keeps.first fun u => (related u).rel.keeps).mono ?_
  rintro m m' ⟨_, m1, noted, kept⟩
  cases (noteTarget_apply isCall body o.params _).symm.trans noted
  exact kept

theorem isOrFollowsFirst_of_kept {o : Obj} (isC : t.ref = c.ref)
    (sound : m.notes.TargetsSound)
    (kept : ((used m.notes body).calling t body o.params).TargetsKept F) :
  isOrFollowsFirst c F m.notes body o.params = true
  := by
  have sound : (used m.notes body).TargetsSound :=
    (targetsKept_of_agree (m.notes.agree_setAttr _ body .isUsed (.flag true))).sound sound
  obtain ⟨known, called⟩ := (used m.notes body).called_calling t body o.params
  have before : (used m.notes body).targetOf t = m.notes.targetOf c :=
    (targetOf_used m.notes t body).trans (targetOf_congr isC m.notes)
  have after : ((used m.notes body).calling t body o.params).targetOf t = F.targetOf c :=
    (kept.targetOf_eq known called).symm.trans (targetOf_congr isC F)
  obtain ⟨noted, same | ⟨nothing, i, numbered, first⟩⟩ := targetOf_calling sound t body o.params
  all_goals
    rw [after] at noted
    rw [isOrFollowsFirst, Option.isSome_iff_ne_none.2 noted, Bool.true_and, Bool.or_eq_true]
  · rw [before, after] at same
    exact .inl (beq_iff_eq.2 same)
  · rw [before] at nothing
    rw [after, ← kept.targetFor_eq numbered] at first
    exact .inr (Bool.and_eq_true_iff.2 ⟨beq_iff_eq.2 nothing, beq_iff_eq.2 first⟩)

theorem invoke_allows (r : Engine) [(foresight targets F).Follows r r] (c : Tree) (callee : Callee)
    (site : Option Tree) (args : List Value) (this : Receiver) :
  Keeps (fun m m' => m.notes.TargetsSound → m'.notes.TargetsKept F →
      allows c (isOrFollowsFirst c F) m.notes callee site = true)
    (invoke r callee site args this)
  := by
  unfold allows
  split
  · rename_i o t
    split
    · rename_i body native isBody
      by_cases isC : t.kind = .callExpression ∧ t.ref = c.ref
      · have call : invoke r (.object o) (some t) args this = callFunction r o body (some t) args this :=
          by rw [invoke, native, isBody]
        rw [call]
        refine (callFunction_calling (F := F) r o isC.1 body args this).mono ?_
        intro m m' kept sound holds
        rw [isOrFollowsFirst_of_kept isC.2 sound (kept.trans holds), Bool.or_true]
      · have other : (t.kind == .callExpression && t.ref == c.ref) = false := by
          simpa using not_and.1 isC
        simp only [other, Bool.not_false, Bool.true_or]
        exact ⟨fun _ _ _ => trivial, fun _ _ _ => trivial⟩
    · exact ⟨fun _ _ _ => rfl, fun _ _ _ => rfl⟩
  · exact ⟨fun _ _ _ => rfl, fun _ _ _ => rfl⟩

/-- However deep a program is followed, each call is one that the notes in the end speak of. -/
instance (n : Nat) : (foresight targets F).Follows (engine n) (looking c (isOrFollowsFirst c F) n)
  := by
  induction n with
  | zero => exact foresees_stopped
  | succ n ih =>
    refine foresees_step (engine n) (looking c _ n) rfl rfl (fun t => ?_)
      (fun t hoisting => ?_) fun callee site args this => ?_
    · exact foresees_of_related (Congruence.related_evalExpr _ (engine n) (looking c _ n) t)
    · exact foresees_of_related (Congruence.related_statement _ (engine n) (looking c _ n) t hoisting)
    · have inner := foresees_of_related (c := targets) (F := F) (foresees_invoke (engine n)
        (looking c (isOrFollowsFirst c F) n) callee site args this)
      have allowed := invoke_allows (F := F) (engine n) c callee site args this
      have passed {m : Machine} (allows : allows c (isOrFollowsFirst c F) m.notes callee site = true) :
          (looking c (isOrFollowsFirst c F) (n + 1)).invoke callee site args this m =
            invoke (looking c (isOrFollowsFirst c F) n) callee site args this m := by
        change (do
          let m ← get
          require (Analysis.allows c _ m.notes callee site)
          invoke (looking c _ n) callee site args this : Analysis Value) m = _
        rw [get_bind, bind_of_ok (require_eq_ok.2 ⟨allows, rfl⟩)]
      refine ⟨inner.keeps, ?_, ?_⟩
      · intro m v m' run sound holds
        rw [passed (allowed.ended run sound holds)]
        exact inner.ended run sound holds
      · intro m i m' run sound holds
        rw [passed (allowed.abandoned run sound holds)]
        exact inner.abandoned run sound holds

end Analysis

open Analysis in
/-- In the end, each call expression is noted with a function or with nothing.  Over the whole
analysis of a text, whenever a call expression calls a function of the program, it is noted with one
in the end; it is noted with that one already, or it is noted with nothing yet and calls that one. -/
theorem call_target_is_first_called {options : Options} {isQuiet : Bool} {source : Text} {o : Outcome}
    (run : analyze options isQuiet source = .ok o) (c : Tree) :
  o.machine.notes.TargetsSound ∧
    analyzeBy (looking c (isOrFollowsFirst c o.machine.notes) patience) options isQuiet source = .ok o
  := by
  refine ⟨?_, analyzeBy_foresees (c := targets) (fun _ blank => blank.targetsSound) inferInstance run⟩
  obtain ⟨p, -, -, ran⟩ := analyzeBy_eq_ok.1 run
  have body : (foresight targets {}).Related (runBody (engine patience) p.tree)
      (runBody (engine patience) p.tree) := inferInstance
  have kept := body.rel.reporting.keeps.ended ran
  exact kept.sound (Machine.start_blank options isQuiet source p).targetsSound

/-! ### A function that calls what it is given -/

def twoTargets : Text :=
  "function f(g) \x7b g(); \x7d f(function () \x7b\x7d); f(function (x) \x7b\x7d);"

def innerCall (t : Tree) : Tree :=
  let f := (t.get .body).items.headD .null
  (((f.get .body).get .body).items.headD .null).get .expression

/-- Whether a function is the one that a call expression is noted with. -/
def isNoted (c : Tree) (F : Notes) (body : Tree) (params : List Tree) : Bool :=
  (F.targetOf c).isSome && F.targetFor body params == F.targetOf c

set_option maxRecDepth 20000 in
theorem twoTargets_outcome :
  ∃ o, analyze {} true twoTargets = .ok o ∧ o.machine.notes.targetOf (innerCall o.tree) ≠ none ∧
    failure? (analyzeBy (looking (innerCall o.tree)
      (fun _ => isNoted (innerCall o.tree) o.machine.notes) patience) {} true twoTargets) =
        some (.broken "")
  := by
  have found : (analyze {} true twoTargets).toOption.any (fun o =>
      (o.machine.notes.targetOf (innerCall o.tree)).isSome &&
        failure? (analyzeBy (looking (innerCall o.tree)
          (fun _ => isNoted (innerCall o.tree) o.machine.notes) patience) {} true twoTargets) ==
            some (.broken "")) = true := by decide +kernel
  obtain ⟨o, run, found⟩ := except_any_eq_true found
  obtain ⟨noted, failed⟩ := Bool.and_eq_true_iff.1 found
  exact ⟨o, run, Option.isSome_iff_ne_none.1 noted, beq_iff_eq.1 failed⟩

/-- The call expression is noted with what it called first. -/
theorem call_target_is_first_called_twoTargets :
  ∃ o, analyze {} true twoTargets = .ok o ∧
    o.machine.notes.targetOf (innerCall o.tree) ≠ none ∧
    analyzeBy (Analysis.looking (innerCall o.tree)
      (Analysis.isOrFollowsFirst (innerCall o.tree) o.machine.notes) Analysis.patience)
      {} true twoTargets = .ok o
  := by
  obtain ⟨o, run, noted, -⟩ := twoTargets_outcome
  exact ⟨o, run, noted, (call_target_is_first_called run (innerCall o.tree)).2⟩

/-- The call expression is noted with a function, but not every function that it has called is that
one. -/
theorem call_target_is_ambiguous :
  ∃ o, analyze {} true twoTargets = .ok o ∧
    o.machine.notes.targetOf (innerCall o.tree) ≠ none ∧
    analyzeBy (Analysis.looking (innerCall o.tree)
      (fun _ => isNoted (innerCall o.tree) o.machine.notes) Analysis.patience)
      {} true twoTargets ≠ .ok o
  := by
  obtain ⟨o, run, noted, failed⟩ := twoTargets_outcome
  refine ⟨o, run, noted, fun ended => ?_⟩
  rw [ended] at failed
  cases failed

end ScriptLens
