import Mathlib.Logic.Relation
import ScriptLens.Proofs.Analysis.Onward
import ScriptLens.Proofs.State.Copy

/-!
# Evaluating texts as programs

A call expression that evaluates a text is noted with the program that it is the text of.
-/

namespace ScriptLens

namespace State

variable {s t u : State} {c : Setting} {n n' : Nat}

theorem copyRoots_eq_ok {roots starts : List Nat} (run : t.copyRoots roots = .ok starts) :
  starts = t.anchors ++ List.range roots.length
  := by
  rw [copyRoots] at run
  obtain ⟨l, isLocal, run⟩ := except_bind_eq_ok.1 run
  obtain ⟨g, isGlobal, run⟩ := except_bind_eq_ok.1 run
  cases run
  rw [anchors, scopeId_eq_ok isLocal, scopeId_eq_ok isGlobal]
  rfl

theorem copyReachable_leads {source target target' rest : Heap} {roots : List Nat} {i : Nat}
    (run : copyReachable source target source roots = .ok (target', rest))
    (leads : source.Leads roots i) :
  ∃ o, source.get? i = some o ∧ rest.get? i = none ∧ target'.get? i = some o.copy
  := by
  obtain ⟨all, onwards⟩ := copyReachable_walked _ _ _ _ _ run .start
  have visited : Heap.Visited id source rest i := by
    apply leads.mem_of_closed
    · intro j root
      exact all j (.inr root)
    · rintro j o ⟨_, rfl, -, gone⟩ there k edge
      exact onwards _ o there gone k edge
  obtain ⟨_, rfl, ⟨o, there⟩, gone⟩ := visited
  rcases copyReachable_writes _ _ _ _ _ run _ with ⟨same, -⟩ | ⟨o', found, -, written⟩
  · cases gone.symm.trans (same.trans there)
  · exact ⟨o', found, gone, written⟩

theorem assign_leads (notBottom : t.isBottom = false)
    (copied : (s.assign t).eval c n = .ok (u, n')) :
  u = { t with objs := u.objs } ∧ ∀ i, t.objs.Leads (t.anchors ++ List.range c.roots.length) i →
    ∃ o, t.objs.get? i = some o ∧ u.objs.get? i = some o.copy
  := by
  rw [assign, if_neg (Bool.eq_false_iff.1 notBottom)] at copied
  dsimp only at copied
  by_cases absent : (t.value == .absent) = true
  · rw [if_pos absent] at copied
    cases copied
  rw [if_neg absent, Domain.eval_bind_ok (Domain.eval_read c n)] at copied
  obtain ⟨starts, roots, copied⟩ := Domain.eval_lift_bind_eq_ok.1 copied
  obtain rfl := copyRoots_eq_ok roots
  obtain ⟨⟨objs, rest⟩, first, copied⟩ := Domain.eval_lift_bind_eq_ok.1 copied
  have copies := fun i => copyReachable_leads (i := i) first
  cases isRef : t.value.ref? with
  | none =>
    rw [isRef] at copied
    cases copied
    refine ⟨rfl, fun i leads => ?_⟩
    obtain ⟨o, there, -, written⟩ := copies i leads
    exact ⟨o, there, written⟩
  | some r =>
    rw [isRef] at copied
    dsimp only at copied
    split at copied
    · cases copied
      refine ⟨rfl, fun i leads => ?_⟩
      obtain ⟨o, there, -, written⟩ := copies i leads
      exact ⟨o, there, written⟩
    · obtain ⟨⟨objs', rest'⟩, second, copied⟩ := Domain.eval_lift_bind_eq_ok.1 copied
      cases copied
      refine ⟨rfl, fun i leads => ?_⟩
      obtain ⟨o, there, gone, written⟩ := copies i leads
      -- The value leads only to objects that have not been visited before.
      rcases copyReachable_writes _ _ _ _ _ second i with ⟨-, same⟩ | ⟨o', found, -⟩
      · exact ⟨o, there, same.trans written⟩
      · cases gone.symm.trans found

def Spanless (s : State) : Prop :=
  ∀ i o, s.objs.Leads s.anchors i → s.objs.get? i = some o → o.span = none

theorem spanless_assign (copied : (s.assign t).eval c n = .ok (u, n')) : u.Spanless := by
  intro i o leads found
  cases notBottom : t.isBottom with
  | true =>
    rw [assign, if_pos notBottom] at copied
    cases copied
    cases found
  | false =>
    obtain ⟨same, copies⟩ := assign_leads notBottom copied
    have before : t.objs.Leads (t.anchors ++ List.range c.roots.length) i := by
      apply leads.mem_of_closed
      · intro j anchor
        rw [same] at anchor
        exact .root (List.mem_append_left _ anchor)
      · intro j a leadsJ there k edge
        obtain ⟨b, source, written⟩ := copies j leadsJ
        cases written.symm.trans there
        exact .step leadsJ source edge
    obtain ⟨a, -, written⟩ := copies i before
    cases written.symm.trans found
    rfl

end State

namespace Analysis

variable {r : Engine} {m m' : Machine} {s u : State}

theorem lift_domain_state {α : Type} {d : Domain α} {a : α}
    (run : (liftM d : Analysis α) m = .ok a m') : m'.state = m.state
  := by
  obtain ⟨n, -, rfl⟩ := lift_domain_eq_ok.1 run
  rfl

theorem collectIn_state (run : collectIn s m = .ok u m') : m'.state = m.state := by
  rw [collectIn, changeSession_bind, options_bind] at run
  split at run
  · obtain ⟨n, -, rfl⟩ := lift_domain_eq_ok.1 run
    rfl
  · cases run
    rfl

theorem deferredFunctions_state {i : Nat} {l : List Ref} (run : deferredFunctions i m = .ok l m') :
  m'.state = m.state
  := by
  obtain ⟨o, m1, found, run⟩ := bind_eq_ok.1 run
  cases run
  rw [object, state_bind] at found
  obtain ⟨-, rfl⟩ := lift_except_eq_ok.1 found
  rfl

theorem absorb_spanless (run : absorb s m = .ok u m') : m'.state.Spanless := by
  rw [absorb, state_bind] at run
  obtain ⟨joined, m1, -, run⟩ := bind_eq_ok.1 run
  rw [state_bind] at run
  obtain ⟨copy, n, copied, run⟩ := lift_domain_bind_eq_ok.1 run
  cases run
  exact State.spanless_assign copied

theorem settle_spanless {deferred round n rounds : Nat} {header : State}
    (run : settle r deferred header round n m = .ok rounds m') : m'.state.Spanless
  := by
  induction n generalizing header round m with
  | zero => cases run
  | succ n ih =>
    obtain ⟨previous, m1, -, run⟩ := bind_eq_ok.1 run
    obtain ⟨_, m2, -, run⟩ := bind_eq_ok.1 run
    obtain ⟨header', m3, absorbed, run⟩ := bind_eq_ok.1 run
    obtain ⟨previous1, m4, first, run⟩ := bind_eq_ok.1 run
    obtain ⟨header'', m5, second, run⟩ := bind_eq_ok.1 run
    obtain ⟨previous2, m6, unified, run⟩ := bind_eq_ok.1 run
    obtain ⟨previous3, m7, third, run⟩ := bind_eq_ok.1 run
    obtain ⟨functions, m8, listed, run⟩ := bind_eq_ok.1 run
    obtain ⟨stable, -, rest⟩ := lift_except_bind_eq_ok.1 run
    split at rest
    · cases rest
      rw [deferredFunctions_state listed, collectIn_state third, lift_domain_state unified,
        collectIn_state second, collectIn_state first]
      exact absorb_spanless absorbed
    · obtain ⟨_, m10, -, again⟩ := bind_eq_ok.1 rest
      exact ih again

theorem runBody_spanless {t : Tree} (run : runBody r t m = .ok () m') : m'.state.Spanless := by
  obtain ⟨_, m1, -, run⟩ := bind_eq_ok.1 run
  obtain ⟨_, m2, -, run⟩ := bind_eq_ok.1 run
  obtain ⟨_, m3, -, run⟩ := bind_eq_ok.1 run
  obtain ⟨_, m4, -, run⟩ := bind_eq_ok.1 run
  obtain ⟨_, m5, -, run⟩ := bind_eq_ok.1 run
  obtain ⟨_, m6, -, run⟩ := bind_eq_ok.1 run
  obtain ⟨rounds, m7, settled, reported⟩ := bind_eq_ok.1 run
  have spanless := settle_spanless settled
  rw [report, session_bind] at reported
  split at reported
  · cases reported
    exact spanless
  · cases reported
    exact spanless

theorem runProgram_spanless {t : Tree} {x : Text} (run : runProgram r t x m = .ok () m') :
  m'.state.Spanless
  := by
  obtain ⟨m1, body, rfl⟩ := runProgram_eq_ok.1 run
  have spanless := runBody_spanless body
  exact spanless

end Analysis

def Text.ParsesTo (x : Text) (tree : Tree) : Prop := ∃ n p, parseScript x n = .ok p ∧ p.tree = tree

namespace Analysis

variable {site tree : Tree} {x y : Text} {m m' m1 : Machine} {v : Value}

def textArgument (x : Text) : Argument := .value (.prim (.text x))

def noteEvaluation (site : Tree) (m : Machine) : Machine :=
  { m with notes := (m.notes.mark site).2.setAt (m.notes.mark site).1 .isEval (.flag true) }

theorem nativeEval_text (r : Engine) (site : Tree) (x : Text) (m : Machine) :
  nativeEval r (some site) (textArgument x) m = (do
    let tree ← evalCode site x
    print "False"
    r.program tree x
    return (← state).value) (noteEvaluation site m)
  := by
  rw [nativeEval]
  rfl

theorem programAt_noteEvaluation (site : Tree) (m : Machine) :
  (noteEvaluation site m).programAt site = m.programAt site
  := by
  have known : (noteEvaluation site m).notes.ids[site.ref]? = some (m.notes.mark site).1 :=
    m.notes.mark_ids site
  have marked : (noteEvaluation site m).notes.mark site =
      ((m.notes.mark site).1, (noteEvaluation site m).notes) := by
    rw [Notes.mark, known]
  rw [Machine.programAt_eq, marked, m.programAt_eq]
  dsimp only [noteEvaluation]
  rw [Notes.getAt_setAt, if_neg fun both => absurd both.2 (by decide)]

theorem evalCode_eq_ok (run : evalCode site x m = .ok tree m') :
  (m.programAt site = some tree ∨ m.programAt site = none ∧ x.ParsesTo tree) ∧ m'.state = m.state ∧
    m'.notes.programOf site = some tree
  := by
  rw [evalCode_apply] at run
  split at run
  · rename_i known noted
    cases run
    exact ⟨.inl noted, rfl, noted⟩
  · rename_i unknown
    obtain ⟨p, reads, rfl, rfl⟩ := readCode_eq_ok run
    refine ⟨.inr ⟨unknown, _, p, reads, rfl⟩, rfl, ?_⟩
    apply Notes.programOf_eq_some.2
    refine ⟨_, Notes.mark_ids _ site, ?_⟩
    rw [Notes.getAt_setAt, if_pos ⟨rfl, rfl⟩]
    rfl

/-- A part of a program is followed from one machine to another. -/
inductive Step (r : Engine) (m m' : Machine) : Prop where
  | expr (t : Tree) (v : Value) (run : r.expr t m = .ok v m')
  | exec (t : Tree) (hoisting : Bool) (run : r.exec t hoisting m = .ok () m')
  | invoke (callee : Callee) (site : Option Tree) (args : List Value) (this : Receiver) (v : Value)
    (run : r.invoke callee site args this m = .ok v m')
  | program (t : Tree) (x : Text) (run : r.program t x m = .ok () m')

theorem Step.onward {n : Nat} (step : Step (engine n) m m') : m.Onward LoopContext.Inside m' := by
  have follows := onward_engine n
  cases step with
  | expr t v run => exact (follows.expr t).ended run
  | exec t hoisting run => exact (follows.exec t hoisting).ended run
  | invoke callee site args this v run => exact (follows.invoke callee site args this).ended run
  | program t x run => exact (follows.program t x).ended run

theorem programAt_steps {n : Nat} (steps : Relation.ReflTransGen (Step (engine n)) m m')
    (noted : m.notes.programOf site = some tree) : m'.programAt site = some tree
  := by
  have kept : m'.notes.programOf site = some tree := by
    induction steps with
    | refl => exact noted
    | tail _ step ih => exact step.onward.programs site tree ih
  exact m'.notes.programsKept_mark site site tree kept

theorem program_spanless {n : Nat} (run : (engine n).program tree x m = .ok () m') :
  m'.state.Spanless
  := by
  cases n with
  | zero => cases run
  | succ n => exact runProgram_spanless run

/-- A call that evaluates a text runs the program that its call expression is noted with, or that of
the text if none is noted, in the current state, and its value is the value of that program.  So it runs
the program of its text exactly if what is noted is that program.  What it has run is noted on the call
expression from then on; no function that the scopes lead to has a text afterwards. -/
theorem eval_repeats_first_program {n : Nat}
    (run : nativeEval (engine n) (some site) (textArgument x) m = .ok v m') :
  ∃ tree m1,
    (m.programAt site = some tree ∨ m.programAt site = none ∧ x.ParsesTo tree) ∧
    (x.ParsesTo tree ↔ ∀ known, m.programAt site = some known → x.ParsesTo known) ∧
    m1.state = m.state ∧ (engine n).program tree x m1 = .ok () m' ∧ v = m'.state.value ∧
    (∀ k m2, Relation.ReflTransGen (Step (engine k)) m' m2 → m2.programAt site = some tree) ∧
    ∀ i o, m'.state.objs.Leads m'.state.anchors i → m'.state.objs.get? i = some o →
      ∀ c : Scene, c.functionText o = .error .missingPart
  := by
  rw [nativeEval_text] at run
  obtain ⟨tree, m1, chosen, run⟩ := bind_eq_ok.1 run
  obtain ⟨_, m2, ⟨⟩, run⟩ := bind_eq_ok.1 run
  obtain ⟨_, m3, ran, run⟩ := bind_eq_ok.1 run
  cases run
  obtain ⟨which, state, noted⟩ := evalCode_eq_ok chosen
  rw [programAt_noteEvaluation] at which
  refine ⟨tree, { m1 with printed := "False" :: m1.printed }, which, ?_, state, ran, rfl, ?_, ?_⟩
  · obtain known | ⟨unknown, parsed⟩ := which
    · constructor
      · intro parsed other noted
        cases known.symm.trans noted
        exact parsed
      · intro all
        exact all tree known
    · refine ⟨fun _ other noted => ?_, fun _ => parsed⟩
      cases unknown.symm.trans noted
  · intro k m2 steps
    have kept := (onward_engine n).program tree x |>.ended ran
    exact programAt_steps steps (kept.programs site tree noted)
  · intro i o leads found c
    rw [Scene.functionText, program_spanless ran i o leads found]
    rfl

/-! ### One call expression with two texts -/

/-- A machine in which there is nothing but the functions that are put aside. -/
def bareMachine : Machine :=
  { state :=
      { objs := (({} : Heap).insert 0
          { props := [(.text Builtin.deferredName, .ref ⟨1, .unbound⟩)] }).insert 1 {}
        gref := some 0, lref := some 0, isBottom := false, value := .top }
    nextId := 2 }

def evalSite : Tree := .node 0 .callExpression []

set_option maxRecDepth 20000 in
theorem evalSite_twice :
  ∃ v w m1 m2,
    nativeEval (engine 20) (some evalSite) (textArgument "1") bareMachine = .ok v m1 ∧
    nativeEval (engine 20) (some evalSite) (textArgument "2") m1 = .ok w m2 ∧
    v = .prim (.num (.ofNat 1)) ∧ w = .prim (.num (.ofNat 1))
  := by
  have found : ends (nativeEval (engine 20) (some evalSite) (textArgument "1")) bareMachine
      (fun v m1 => ends (nativeEval (engine 20) (some evalSite) (textArgument "2")) m1 fun w _ =>
        v == .prim (.num (.ofNat 1)) && w == .prim (.num (.ofNat 1))) = true := by decide +kernel
  obtain ⟨v, m1, first, found⟩ := exists_of_ends found
  obtain ⟨w, m2, second, found⟩ := exists_of_ends found
  rw [Bool.and_eq_true, beq_iff_eq, beq_iff_eq] at found
  exact ⟨v, w, m1, m2, first, second, found⟩

/-- The call expression runs the program of its first text. -/
theorem eval_repeats_first_program_evalSite :
  ∃ tree m1 v m', nativeEval (engine 20) (some evalSite) (textArgument "1") bareMachine = .ok v m' ∧
    (engine 20).program tree "1" m1 = .ok () m' ∧ m'.programAt evalSite = some tree
  := by
  obtain ⟨v, w, m1, m2, first, -⟩ := evalSite_twice
  obtain ⟨tree, m0, -, -, -, ran, -, later, -⟩ := eval_repeats_first_program first
  exact ⟨tree, m0, v, m1, first, ran, later 20 m1 .refl⟩

/-- When its second text is another one, the call expression still has the value of the first. -/
theorem evalSite_second_text :
  ∃ v w m1 m2,
    nativeEval (engine 20) (some evalSite) (textArgument "1") bareMachine = .ok v m1 ∧
    nativeEval (engine 20) (some evalSite) (textArgument "2") m1 = .ok w m2 ∧
    w ≠ .prim (.num (.ofNat 2))
  := by
  obtain ⟨v, w, m1, m2, first, second, -, value⟩ := evalSite_twice
  refine ⟨v, w, m1, m2, first, second, ?_⟩
  rw [value]
  decide

end Analysis

end ScriptLens
