import ScriptLens.Proofs.Analysis.Call
import ScriptLens.Proofs.Analysis.Congruence

/-!
# What no analysis takes back

Whether a part of an analysis ends or is abandoned, the options are the same after it, the callers
of the current function and the loops around the current point are still there, and a call
expression that has evaluated a program is still noted with that program.
-/

namespace ScriptLens

open List

def Note.tree? : Note → Option Tree
  | tree t => some t
  | _ => Option.none

def Notes.programOf (s : Notes) (t : Tree) : Option Tree :=
  (s.ids[t.ref]?).bind fun i => (s.getAt i .evalTree).tree?

namespace Notes

def ProgramsKept (s s' : Notes) : Prop := ∀ t p, s.programOf t = some p → s'.programOf t = some p

variable {s s' : Notes} {t p : Tree}

theorem programOf_eq_some :
  s.programOf t = some p ↔ ∃ i, s.ids[t.ref]? = some i ∧ (s.getAt i .evalTree).tree? = some p
  := Option.bind_eq_some_iff

theorem mark_mark (s : Notes) (t : Tree) : (s.mark t).2.mark t = s.mark t := by
  rw [mark, s.mark_ids t]

theorem programsKept_mark (s : Notes) (t : Tree) : s.ProgramsKept (s.mark t).2 := by
  intro u p noted
  obtain ⟨i, known, same⟩ := programOf_eq_some.1 noted
  apply programOf_eq_some.2
  refine ⟨i, s.mark_ids_of known, ?_⟩
  rw [getAt, mark_table]
  exact same

theorem programsKept_of_getAt (ids : s'.ids = s.ids)
    (getAt : ∀ i p, (s.getAt i .evalTree).tree? = some p → (s'.getAt i .evalTree).tree? = some p) :
  s.ProgramsKept s'
  := by
  intro u p noted
  obtain ⟨i, known, same⟩ := programOf_eq_some.1 noted
  apply programOf_eq_some.2
  exact ⟨i, ids ▸ known, getAt i p same⟩

theorem programsKept_setAt (s : Notes) (i : Nat) {n : NoteName} (other : n ≠ .evalTree) (v : Note) :
  s.ProgramsKept (s.setAt i n v)
  := by
  refine programsKept_of_getAt rfl ?_
  intro j p same
  rw [getAt_setAt, if_neg fun both => other both.2.symm]
  exact same

theorem programsKept_eraseAt (s : Notes) (i : Nat) {n : NoteName} (other : n ≠ .evalTree) :
  s.ProgramsKept (s.eraseAt i n)
  := by
  refine programsKept_of_getAt rfl ?_
  intro j p same
  rw [getAt_eraseAt, if_neg fun both => other both.2.symm]
  exact same

theorem programsKept_setProgram {i : Nat} (fresh : (s.getAt i .evalTree).tree? = none) (v : Note) :
  s.ProgramsKept (s.setAt i .evalTree v)
  := by
  refine programsKept_of_getAt rfl ?_
  intro j p same
  rw [getAt_setAt]
  split
  · rename_i both
    rw [both.1, fresh] at same
    cases same
  · exact same

end Notes

/-- What is around a point is what may be relied on to be still there afterwards; `L` says this for
the loops. -/
structure Machine.Onward (L : LoopContext → LoopContext → Prop) (m m' : Machine) : Prop where
  setting : m'.setting = m.setting
  callers : m.session.callers <+: m'.session.callers
  loops : L m.session.loops m'.session.loops
  programs : m.notes.ProgramsKept m'.notes

def LoopContext.Inside (l l' : LoopContext) : Prop := l <:+ l'

def LoopContext.Around (l l' : LoopContext) : Prop := l.tail <:+ l'.tail

theorem LoopContext.Inside.around {l l' : LoopContext} (inside : LoopContext.Inside l l') :
  LoopContext.Around l l'
  := by
  obtain ⟨e, rfl⟩ := inside
  cases e with
  | nil => exact suffix_rfl
  | cons p e =>
    rw [LoopContext.Around, cons_append, tail_cons]
    exact (tail_suffix l).trans (suffix_append e l)

instance : Std.Refl LoopContext.Inside := ⟨fun _ => suffix_rfl⟩

instance : IsTrans LoopContext LoopContext.Inside := ⟨fun _ _ _ => IsSuffix.trans⟩

instance : Std.Refl LoopContext.Around := ⟨fun _ => suffix_rfl⟩

instance : IsTrans LoopContext LoopContext.Around := ⟨fun _ _ _ => IsSuffix.trans⟩

theorem Machine.Onward.around {m m' : Machine} (inside : m.Onward LoopContext.Inside m') :
  m.Onward LoopContext.Around m'
  := ⟨inside.setting, inside.callers, inside.loops.around, inside.programs⟩

def Machine.programAt (m : Machine) (site : Tree) : Option Tree :=
  (m.notes.mark site).2.programOf site

theorem Machine.programAt_eq (m : Machine) (site : Tree) :
  m.programAt site = ((m.notes.mark site).2.getAt (m.notes.mark site).1 .evalTree).tree?
  := by
  rw [programAt, Notes.programOf, m.notes.mark_ids site]
  rfl

variable (L : LoopContext → LoopContext → Prop) [Std.Refl L] [IsTrans LoopContext L]

instance : Plain (Machine.Onward L)
  where
  trans first second :=
    ⟨second.setting.trans first.setting, first.callers.trans second.callers,
      IsTrans.trans _ _ _ first.loops second.loops,
      fun t p noted => second.programs t p (first.programs t p noted)⟩
  free agrees :=
    ⟨agrees.setting, agrees.callers ▸ prefix_rfl, agrees.loops ▸ Std.Refl.refl _,
      agrees.notes ▸ fun _ _ noted => noted⟩
  mark m t := ⟨rfl, prefix_rfl, Std.Refl.refl _, m.notes.programsKept_mark t⟩
  write m i _ v free :=
    ⟨rfl, prefix_rfl, Std.Refl.refl _, m.notes.programsKept_setAt i (free.other (by decide)) v⟩
  erase m i _ free :=
    ⟨rfl, prefix_rfl, Std.Refl.refl _, m.notes.programsKept_eraseAt i (free.other (by decide))⟩
  extend _ _ _ _ := ⟨rfl, prefix_rfl, Std.Refl.refl _, fun _ _ noted => noted⟩

namespace Analysis

set_option synthInstance.maxSize 100000

variable {α : Type}

variable {site tree : Tree} {x : Text} {m m' : Machine}

theorem evalCode_apply (site : Tree) (x : Text) (m : Machine) :
  evalCode site x m = match m.programAt site with
    | some tree =>
      .ok tree { m with notes := (m.notes.mark site).2, printed := "False" :: m.printed }
    | none => readCode site x { m with notes := (m.notes.mark site).2 }
  := by
  rw [m.programAt_eq]
  change (match (m.notes.mark site).2.getAt (m.notes.mark site).1 .evalTree with
    | .tree tree => (do
      print "False"
      return tree : Analysis Tree)
    | _ => readCode site x) { m with notes := (m.notes.mark site).2 } = _
  cases (m.notes.mark site).2.getAt (m.notes.mark site).1 .evalTree <;> rfl

theorem readCode_eq_ok (run : readCode site x m = .ok tree m') :
  ∃ p, parseScript x m.nextRef = .ok p ∧ tree = p.tree ∧
    m' = { m with
      printed := "True" :: m.printed, nextRef := p.nextRef
      notes := (m.notes.mark site).2.setAt (m.notes.mark site).1 .evalTree (.tree p.tree) }
  := by
  obtain ⟨_, m1, ⟨⟩, run⟩ := bind_eq_ok.1 run
  obtain ⟨read, m2, parsed, run⟩ := bind_eq_ok.1 run
  rw [parseText, get_bind] at parsed
  obtain ⟨p, reads, set⟩ := lift_except_bind_eq_ok.1 parsed
  cases set
  cases run
  exact ⟨p, reads, rfl, rfl⟩

instance : Steady (readCode site x) := by
  have writes (v : Note) : Steady (setNote site .evalTree v) := steady_step
  unfold readCode
  infer_instance

theorem onward_evalCode (site : Tree) (x : Text) : Keeps (Machine.Onward L) (evalCode site x) := by
  have marked (m : Machine) : m.Onward L { m with notes := (m.notes.mark site).2 } := Plain.mark m site
  have printed (m : Machine) (l : List Text) : m.Onward L { m with printed := l } :=
    Plain.aside
  constructor
  · intro m tree m' run
    rw [evalCode_apply] at run
    split at run
    · cases run
      exact Chained.trans (marked m) (printed _ _)
    · rename_i unknown
      apply Chained.trans (marked m)
      obtain ⟨p, -, -, rfl⟩ := readCode_eq_ok run
      refine ⟨rfl, prefix_rfl, Std.Refl.refl _, ?_⟩
      rw [m.programAt_eq] at unknown
      rw [m.notes.mark_mark site]
      exact Notes.programsKept_setProgram unknown _
  · intro m i m' run
    rw [evalCode_apply] at run
    split at run
    · cases run
    · exact absurd run Steady.steady

instance : Noting (keeping (Machine.Onward L)) := by
  have write (t : Tree) (n : NoteName) (other : n ≠ .evalTree) (w : Note) :
      Obeys (keeping (Machine.Onward L)) (setNote t n w) := by
    have change (i : Nat) : Keeps (Machine.Onward L)
        (modify fun m => { m with notes := m.notes.setAt i n w } : Analysis Unit) :=
      .change fun m =>
        ⟨rfl, prefix_rfl, Std.Refl.refl _, m.notes.programsKept_setAt i other w⟩
    unfold setNote
    infer_instance
  exact ⟨fun site x => ⟨onward_evalCode L site x⟩,
    fun site => obeys_noteTarget_of fun n target => write site n (ne_of_mem_of_not_mem target (by decide)),
    fun t => obeys_noteValue_of fun n value => write t n (ne_of_mem_of_not_mem value (by decide))⟩

instance : Comparing (keeping (Machine.Onward L))
  := ⟨obeys_compareValues_of fun i => ⟨.change fun m =>
    ⟨rfl, prefix_rfl, Std.Refl.refl _, m.notes.programsKept_eraseAt i (by decide)⟩⟩⟩

instance onward_setParts (source : Session → Text) (isQuiet : Session → Bool)
    (functions : Session → List Tree) (last : Session → Option Tree) (needClean : Session → Bool)
    (trace : Session → Option (Array Int)) (result : Session → Value)
    (returned broken continued : Session → State) (isPure usesClosure : Session → Bool) :
  Keeps (Machine.Onward L) (changeSession fun s =>
    { source := source s, isQuiet := isQuiet s, functions := functions s, last := last s
      callers := s.callers, needClean := needClean s, trace := trace s, loops := s.loops
      result := result s, returned := returned s, broken := broken s, continued := continued s
      isPure := isPure s, usesClosure := usesClosure s })
  := .change fun _ => ⟨rfl, prefix_rfl, Std.Refl.refl _, fun _ _ noted => noted⟩

abbrev onward : Congruence where
  Kept := keeping (Machine.Onward L)
  Rel x _ := Keeps (Machine.Onward L) x
  passive _ kept := kept.holds
  bind := .both
  effect := by unfold noteEffect; infer_instance

instance : (onward L).Broad
  where
  elsewhere _ _ := inferInstance
  attempt _ := inferInstance

theorem keeps_of_related {x : Analysis α} (related : (onward L).Related x x) :
  Keeps (Machine.Onward L) x
  := related.rel

/-! ### What is opened and closed -/

theorem Keeps.bracket {β γ : Type} {R R' S : Machine → Machine → Prop} {x : Analysis α}
    {f : α → Analysis β} {g : α → β → Analysis γ} (begins : Keeps R x)
    (opens : ∀ {m a m'}, x m = .ok a m' → S m m') (inside : ∀ a, Keeps R' (f a))
    (carries : ∀ {m m1 m2}, S m m1 → R' m1 m2 → S m m2) (stays : ∀ {m m'}, S m m' → R m m')
    (steady : ∀ a b, Steady (g a b))
    (closes : ∀ {a b m m1 c m'}, S m m1 → g a b m1 = .ok c m' → R m m') :
  Keeps R (do
    let a ← x
    let b ← f a
    g a b)
  := by
  constructor
  · intro m c m' run
    obtain ⟨a, m1, opened, run⟩ := bind_eq_ok.1 run
    obtain ⟨b, m2, ended, closed⟩ := bind_eq_ok.1 run
    exact closes (carries (opens opened) ((inside a).ended ended)) closed
  · intro m site m' run
    obtain first | ⟨a, m1, opened, run⟩ := bind_eq_error.1 run
    · exact begins.abandoned first
    obtain abandoned | ⟨b, m2, ended, closed⟩ := bind_eq_error.1 run
    · exact stays (carries (opens opened) ((inside a).abandoned abandoned))
    · exact absurd closed (steady a b).steady

/-! ### Calls -/

section

variable {o : Obj} {body : Tree} {site : Option Tree} {saved : Session} {v : Value}

instance : Keeps (Machine.Onward L) (beginCall o body site) := by
  have push : Keeps (Machine.Onward L) (changeSession fun s =>
      { s with result := .absent, returned := .bottom, callers := s.callers ++ [s.last]
               isPure := true }) :=
    .change fun _ => ⟨rfl, prefix_append _ _, Std.Refl.refl _, fun _ _ noted => noted⟩
  unfold beginCall
  infer_instance

theorem beginCall_onward (run : beginCall o body site m = .ok saved m') :
  m.Onward L m' ∧ m.session.callers.length < m'.session.callers.length
  := by
  obtain ⟨_, m1, prepared, run⟩ := bind_eq_ok.1 run
  cases run
  have before : m.Onward L m1 := Keeps.ended prepared
  constructor
  · exact ⟨before.setting, before.callers.trans (prefix_append _ _), before.loops,
      before.programs⟩
  · change _ < (m1.session.callers ++ [m1.session.last]).length
    rw [length_append]
    exact Nat.lt_succ_of_le before.callers.length_le

theorem dropLast_prefix {β : Type} {l l' : List β} (pre : l <+: l') (longer : l.length < l'.length) :
  l <+: l'.dropLast
  := by
  rw [dropLast_eq_take, prefix_take_iff]
  exact ⟨pre, Nat.le_sub_one_of_lt longer⟩

end

section

variable (r : Engine) [(onward L).Follows r r]

variable {args : List Value} {this : Receiver} {R : Machine → Machine → Prop}

instance (o : Obj) (body : Tree) (site : Option Tree) :
  (onward L).Related (callFunction r o body site args this) (callFunction r o body site args this)
  := by
  have split : callFunction r o body site args this = (do
      let saved ← beginCall o body site
      let value ← (do
        let value ← callBody r o body args this
        recordCall o body site saved value)
      changeSession fun s =>
        { s with last := s.callers.getLast?.getD none, callers := s.callers.dropLast
                 isPure := saved.isPure && s.isPure, usesClosure := saved.usesClosure }
      return if value == .absent then .undefined else value) := by
    simp only [callFunction, endCall, bind_assoc]
  have inside (saved : Session) : (onward L).Related
      (do
        let value ← callBody r o body args this
        recordCall o body site saved value)
      (do
        let value ← callBody r o body args this
        recordCall o body site saved value) := by
    unfold callBody
    infer_instance
  constructor
  rw [split]
  refine Keeps.bracket
    (S := fun m m' => m.Onward L m' ∧ m.session.callers.length < m'.session.callers.length)
    inferInstance (beginCall_onward L) (fun saved => (inside saved).rel) ?carries (fun adds => adds.1)
    (fun _ _ => steady_step) ?closes
  case carries =>
    intro m m1 m2 adds onward
    exact ⟨Chained.trans adds.1 onward, Nat.lt_of_lt_of_le adds.2 onward.callers.length_le⟩
  case closes =>
    intro saved value m m1 w m' adds run
    cases run
    exact ⟨adds.1.setting, dropLast_prefix adds.1.callers adds.2, adds.1.loops, adds.1.programs⟩

instance (callee : Callee) (site : Option Tree) :
  (onward L).Related (invoke r callee site args this) (invoke r callee site args this)
  := Congruence.related_invoke_of ..

/-! ### Programs -/

theorem keeps_inSession {R : Machine → Machine → Prop} (s : Session) {x : Analysis Unit} (kept : Keeps R x)
    (back : ∀ {m m1 : Machine}, R { m with session := s, source := s.source } m1 →
      R m { m1 with session := m.session }) :
  Keeps R (inSession s x)
  := by
  constructor
  · intro m a m' run
    rw [inSession] at run
    split at run
    · rename_i ended
      cases run
      exact back (kept.ended ended)
    · cases run
  · intro m site m' run
    rw [inSession] at run
    split at run
    · cases run
    · rename_i abandoned
      cases run
      exact back (kept.abandoned abandoned)

theorem obeys_printCallers {K : Discipline} [Local K] (t : Text) (l : List (Option Tree)) :
  Obeys K (printCallers t l)
  := by fun_induction printCallers t l <;> infer_instance

instance obeys_printInterrupt {K : Discipline} [Local K] (e : Interrupt) : Obeys K (printInterrupt e)
  := by
  have callers := @obeys_printCallers K _
  unfold printInterrupt
  infer_instance

theorem keeps_reporting [Plain R] {x : Analysis Unit} (kept : Keeps R x) : Keeps R (reporting x)
  := by
  constructor
  · intro m a m' run
    rw [reporting] at run
    split at run
    · rename_i ended
      cases run
      exact kept.ended ended
    · split at run <;> cases run
  · intro m site m' run
    rw [reporting] at run
    split at run
    · cases run
    · rename_i e m1 interrupted
      split at run
      · rename_i shown
        cases run
        exact Chained.trans (kept.abandoned interrupted) (Keeps.ended shown)
      · rename_i e' m2 failed
        cases run
        exact absurd failed Steady.steady

instance (t : Tree) (text : Text) : (onward L).Related (runProgram r t text) (runProgram r t text)
  := by
  have body : (onward L).Related (runBody r t) (runBody r t) := inferInstance
  exact ⟨keeps_inSession _ (keeps_reporting body.rel) fun inside =>
    ⟨inside.setting, prefix_rfl, Std.Refl.refl _, inside.programs⟩⟩

end

/-! ### Loops -/

instance : (onward LoopContext.Around).Forgetful
  where
  forgets _ := onward_setParts LoopContext.Around ..
  counts := by
    have count (limit : Int) : Keeps (Machine.Onward LoopContext.Around) (changeSession fun s =>
        match s.loops with
        | (i, n) :: l => { s with loops := (i, min limit (n + 1)) :: l }
        | [] => s) := by
      refine .change fun m => ⟨rfl, ?_, ?_, fun _ _ noted => noted⟩ <;> dsimp only <;> split
      · exact prefix_rfl
      · exact prefix_rfl
      · rename_i loops
        rw [loops]
        exact suffix_rfl
      · exact suffix_rfl
    unfold countIteration
    infer_instance

theorem around_of_inside {x : Analysis α} (inside : (onward LoopContext.Inside).Related x x) :
  (onward LoopContext.Around).Related x x
  := ⟨inside.rel.mono Machine.Onward.around⟩

theorem loops_around {parts : LoopParts} (loops : (onward LoopContext.Inside).Loops parts parts) :
  (onward LoopContext.Around).Loops parts parts
  where
  test := by
    obtain none | ⟨x, y, some, some', related⟩ := loops.test
    · exact .inl none
    · cases some.symm.trans some'
      exact .inr ⟨x, x, some, some', around_of_inside related⟩
  assumed := loops.assumed
  body := around_of_inside loops.body
  update := around_of_inside loops.update

section

variable {t : Tree} {start : Analysis Unit} {saved : Session}

def openLoop (t : Tree) (start : Analysis Unit) : Analysis Session := do
  let saved ← session
  enterLoop t start
  return saved

def iterateLoop (t : Tree) (parts : LoopParts) (n : Nat) : Analysis Unit := do
  let p ← loopWithin parts (iterationBound (← options) n) {}
  joinBroken p
  noteUnrolled t p

theorem loop_eq (t : Tree) (start : Analysis Unit) (parts : LoopParts) (n : Nat) :
  loop t start parts n = (do
    if ← isBottom then return ()
    consuming (do
      let saved ← openLoop t start
      let _ ← iterateLoop t parts n
      leaveLoop saved))
  := by
  simp only [loop, openLoop, iterateLoop, bind_assoc, pure_bind]

section

variable [before : (onward LoopContext.Inside).Related start start]

include before

theorem onward_beforeLoop :
  Keeps (Machine.Onward LoopContext.Inside) (do
    changeSession fun s => { s with trace := some #[], returned := .bottom, broken := .bottom }
    start
    nodeId t)
  := keeps_of_related _ inferInstance

instance : Keeps (Machine.Onward LoopContext.Inside) (openLoop t start) := by
  have push (i : Nat) : Keeps (Machine.Onward LoopContext.Inside)
      (changeSession fun s => { s with loops := (i, 0) :: s.loops }) :=
    .change fun _ => ⟨rfl, prefix_rfl, suffix_cons _ _, fun _ _ noted => noted⟩
  apply keeps_of_related
  unfold openLoop enterLoop
  infer_instance

theorem openLoop_onward (run : openLoop t start m = .ok saved m') :
  m.Onward (fun l l' => l <:+ l'.tail) m'
  := by
  have split : openLoop t start = (do
      let saved ← session
      let i ← (do
        changeSession fun s => { s with trace := some #[], returned := .bottom, broken := .bottom }
        start
        nodeId t)
      changeSession fun s => { s with loops := (i, 0) :: s.loops }
      return saved) := by
    simp only [openLoop, enterLoop, bind_assoc]
  rw [split, session_bind] at run
  obtain ⟨i, m1, prepared, run⟩ := bind_eq_ok.1 run
  cases run
  have inside : m.Onward LoopContext.Inside m1 := onward_beforeLoop.ended prepared
  exact ⟨inside.setting, inside.callers, inside.loops, inside.programs⟩

end

theorem leaveLoop_eq_ok (run : leaveLoop saved m = .ok () m') :
  m'.setting = m.setting ∧ m'.notes = m.notes ∧ m'.session.callers = m.session.callers ∧
    m'.session.loops = m.session.loops.tail
  := by
  rw [leaveLoop, session_bind] at run
  obtain ⟨s, n, -, run⟩ := lift_domain_bind_eq_ok.1 run
  cases run
  exact ⟨rfl, rfl, rfl, rfl⟩

instance : Steady (leaveLoop saved) := by
  constructor
  intro m site m' run
  rw [leaveLoop, session_bind] at run
  obtain failed | ⟨s, m1, -, left⟩ := bind_eq_error.1 run
  · obtain ⟨f, ⟨⟩⟩ := lift_domain_eq_error failed
  · cases left

theorem onward_loop {parts : LoopParts} (loops : (onward LoopContext.Inside).Loops parts parts)
    [before : (onward LoopContext.Inside).Related start start] (n : Nat) :
  (onward LoopContext.Inside).Related (loop t start parts n) (loop t start parts n)
  := by
  have within := (loops_around loops).related_loopWithin
  have iterations : (onward LoopContext.Around).Related (iterateLoop t parts n)
      (iterateLoop t parts n) := by
    unfold iterateLoop
    infer_instance
  have whole : Keeps (Machine.Onward LoopContext.Inside) (do
      let saved ← openLoop t start
      let _ ← iterateLoop t parts n
      leaveLoop saved) := by
    refine Keeps.bracket (S := Machine.Onward fun l l' => l <:+ l'.tail) inferInstance
      openLoop_onward (fun _ => iterations.rel) ?carries ?stays (fun _ _ => inferInstance) ?closes
    case carries =>
      intro m m1 m2 entered around
      exact ⟨around.setting.trans entered.setting, entered.callers.trans around.callers,
        entered.loops.trans around.loops,
        fun t p noted => around.programs t p (entered.programs t p noted)⟩
    case stays =>
      intro m m' entered
      exact ⟨entered.setting, entered.callers, entered.loops.trans (tail_suffix _),
        entered.programs⟩
    case closes =>
      intro saved _ m m1 _ m' entered run
      obtain ⟨setting, notes, callers, loops⟩ := leaveLoop_eq_ok run
      exact ⟨setting.trans entered.setting, callers ▸ entered.callers, loops ▸ entered.loops,
        notes ▸ entered.programs⟩
  have related : (onward LoopContext.Inside).Related _ (do
      let saved ← openLoop t start
      let _ ← iterateLoop t parts n
      leaveLoop saved) := ⟨whole⟩
  rw [loop_eq]
  infer_instance

end

/-! ### Whole analyses -/

section

variable (r : Engine) [(onward LoopContext.Inside).Follows r r]

instance (t : Tree) (isForIn : Bool) :
  (onward LoopContext.Inside).Related (execLoop r t isForIn) (execLoop r t isForIn)
  := onward_loop (Congruence.loops_loopParts _ r r t isForIn) patience

instance (t : Tree) (hoisting : Bool) :
  (onward LoopContext.Inside).Related (execStatement r t hoisting) (execStatement r t hoisting)
  := by
  by_cases continues : t.kind = .continueStatement
  · unfold execStatement execContinue
    rw [continues]
    infer_instance
  · exact Congruence.related_execStatement _ r r t hoisting continues fun _ => inferInstance

end

/-- However deep a program is followed, what is around the current point is still there afterwards. -/
instance onward_engine (n : Nat) : (onward LoopContext.Inside).Follows (engine n) (engine n) := by
  induction n with
  | zero =>
    have stop (α : Type) : Keeps (Machine.Onward LoopContext.Inside) (fail .unfinished : Analysis α) :=
      inferInstance
    exact { expr := fun _ => stop _, exec := fun _ _ => stop _, invoke := fun _ _ _ _ => stop _
            program := fun _ _ => stop _, attempt := fun _ _ _ (kept : Keeps _ _) => inferInstance }
  | succ n ih =>
    refine { expr := fun t => ?_, exec := fun t hoisting => ?_, invoke := fun callee site args this => ?_
             program := fun t text => ?_, attempt := fun _ _ _ (kept : Keeps _ _) => inferInstance }
    · change Keeps _ (evalExpr (engine n) t)
      exact keeps_of_related _ inferInstance
    · change Keeps _ (invoke (engine n) callee site args this)
      exact keeps_of_related _ inferInstance
    · change Keeps _ (runProgram (engine n) t text)
      exact keeps_of_related _ inferInstance
    · change Keeps _ (execStatement (engine n) t hoisting)
      exact keeps_of_related _ inferInstance

end Analysis

end ScriptLens
