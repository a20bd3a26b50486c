import ScriptLens.Proofs.While.Loop
import ScriptLens.Proofs.While.Variable

/-!
# Statements of the while-language

The guarded analysis follows the runs of every statement of the while-language: of a single statement
if it follows those of its parts, and from there those of all statements.
-/

namespace ScriptLens

open While Analysis List

/-- The values that are taken in a run are those of nodes of the program. -/
theorem While.Runs.inside {E : Tree → Prop} {l : List Tree} {ρ ρ' : Store} {es : List Event} {b : Bool}
    (nodes : Nodes E) (run : Runs l ρ es b ρ') :
  (∀ t ∈ l, E t ∧ ∃ i, Statement i t) → ∀ e ∈ es, E e.1
  := by
  have single : ∀ {t : Tree} {a : Attr} {i : Bool}, E t → Statement i (t.get a) →
      ∀ s ∈ [t.get a], E s ∧ ∃ i, Statement i s := by
    intro t a i isNode statement
    exact forall_mem_singleton.2
      ⟨nodes.attr t a isNode statement.kind_ne, i, statement⟩
  have test : ∀ {t : Tree} {a : Attr} {ρ : Store} {v : Concrete} {es : List Event}, E t →
      Evaluates ρ (t.get a) v es → ∀ e ∈ es, E e.1 := by
    intro t a ρ v es isNode evaluates
    apply evaluates.inside nodes (nodes.attr t a isNode evaluates.kind_ne)
  induction run with
  | nil => nofun
  | cons _ _ ihFirst ihRest =>
    intro all
    obtain ⟨first, rest⟩ := forall_mem_cons.1 all
    have inFirst := ihFirst (forall_mem_singleton.2 first)
    exact forall_mem_append.2 ⟨inFirst, ihRest rest⟩
  | stop _ ih =>
    intro all
    apply ih (forall_mem_singleton.2 (forall_mem_cons.1 all).1)
  | assign _ assigns evaluates =>
    intro all
    obtain ⟨isNode, -⟩ := forall_mem_singleton.1 all
    have isAssignment := nodes.attr _ .expression isNode (by rw [assigns.kind]; nofun)
    exact forall_mem_append.2
      ⟨test isAssignment evaluates, forall_mem_singleton.2 isAssignment⟩
  | block kind body _ ih =>
    intro all
    obtain ⟨isNode, i, statement⟩ := forall_mem_singleton.1 all
    apply ih
    intro s member
    have part := statement.of_block kind body s member
    exact ⟨nodes.item _ _ _ s isNode body member part.kind_ne, i, part⟩
  | ifTrue kind evaluates _ _ ih =>
    intro all
    obtain ⟨isNode, i, statement⟩ := forall_mem_singleton.1 all
    obtain ⟨-, consequent, -⟩ := statement.of_if kind
    exact forall_mem_append.2 ⟨test isNode evaluates, ih (single isNode consequent)⟩
  | ifFalse kind evaluates _ notNull _ ih =>
    intro all
    obtain ⟨isNode, i, statement⟩ := forall_mem_singleton.1 all
    obtain ⟨-, -, isNull | alternate⟩ := statement.of_if kind
    · apply (notNull isNull).elim
    · exact forall_mem_append.2 ⟨test isNode evaluates, ih (single isNode alternate)⟩
  | ifNone _ evaluates | loopEnd _ evaluates =>
    intro all
    apply test (forall_mem_singleton.1 all).1 evaluates
  | loopStep kind evaluates _ _ _ ihBody ihRest =>
    intro all
    obtain ⟨isNode, i, statement⟩ := forall_mem_singleton.1 all
    have inBody := ihBody (single isNode (statement.of_loop kind).2)
    have inRest := forall_mem_append.2 ⟨inBody, ihRest all⟩
    exact forall_mem_append.2 ⟨test isNode evaluates, inRest⟩
  | loopBreak kind evaluates _ _ ih =>
    intro all
    obtain ⟨isNode, i, statement⟩ := forall_mem_singleton.1 all
    have inBody := ih (single isNode (statement.of_loop kind).2)
    exact forall_mem_append.2 ⟨test isNode evaluates, inBody⟩
  | leave => nofun

namespace Analysis

variable {E : Tree → Prop} {m m' : Machine} {r : Engine} {t : Tree} {x : Text}

theorem whole_run {y : Analysis Unit} (run : whole t y m = .ok () m') :
  ∃ m1 m2, m.Quiet m1 ∧ y m1 = .ok () m2 ∧ m2.Quiet m'
  := by
  obtain ⟨_, m1, passed, run⟩ := bind_eq_ok.1 run
  obtain ⟨m2, m3, before, inner, after⟩ := untraced_run run
  exact ⟨m2, m3, (quiet_run passed).trans before, inner, after⟩

theorem following_entering {y : Analysis Unit} {R : Store → List Event → Bool → Store → Prop}
    (following : ∀ m m', m.Tame E → m.state.isBottom = false → y m = .ok () m' → m.Follows E R m') :
  Following E (entering t y) R
  := by
  apply Following.reached
  intro m m' tame notBottom run
  obtain ⟨_, m1, entered, run⟩ := bind_eq_ok.1 run
  have quiet := quiet_run entered
  have follows := following m1 m' (quiet.tame tame) (quiet.state ▸ notBottom) run
  apply follows.between tame quiet (Machine.Quiet.refl m')

/-! ### The statements one by one -/

theorem execExpression_follows (kind : t.kind = .expressionStatement)
    (assigns : Assigns (t.get .expression) x)
    (changing : Changing E .data (r.expr (t.get .expression)) (Stores (t.get .expression) x))
    (tame : m.Tame E) (notBottom : m.state.isBottom = false)
    (run : execExpression r t m = .ok () m') : m.Follows E (fun ρ es b ρ' => Runs [t] ρ es b ρ') m'
  := by
  have notCall : ((t.get .expression).kind == .callExpression) = false := by
    rw [assigns.kind]
    rfl
  rw [execExpression, notCall] at run
  obtain ⟨m1, m2, before, inner, after⟩ := whole_run run
  apply Machine.Follows.between tame before _ after
  rw [← before.state] at notBottom
  obtain ⟨v, m3, evaluated, inner⟩ := bind_eq_ok.1 inner
  obtain ⟨leads, stays, ⟨plain⟩, stores⟩ :=
    changing m1 v m3 (before.tame tame) notBottom evaluated
  have shape := leads.tame.state.shape stays
  have shape' : State.Shape { m3.state with value := v } :=
    ⟨shape.notBottom, shape.gref, shape.lref, shape.frames, shape.pending, plain, shape.scope,
      shape.heap⟩
  rw [changeState_bind] at inner
  have same := (EStateM.Result.ok.inj inner).2
  beta_reduce at same
  rw [release_eq _ (.plain plain)] at same
  subst same
  refine ⟨leads.trans (leads_setState leads.tame shape'.tame), ?_⟩
  intro ρ es b ρ' describes runs
  obtain ⟨rfl, c, fs, evaluates, rfl, rfl⟩ := runs.of_assign kind assigns
  obtain ⟨-, described, noted⟩ := stores ρ c _ _ describes ⟨fs, rfl, evaluates, rfl⟩
  exact ⟨noted, described⟩

theorem leads_broken {s : State} (tame : m.Tame E) (isTame : s.Tame)
    (grows : ∀ ρ, m.session.broken.Describes ρ → s.Describes ρ) :
  m.Leads E { m with session := { m.session with broken := s } }
  := ⟨⟨tame.options, tame.state, isTame, tame.continued, tame.returned, tame.fresh, tame.notes,
    tame.kinds⟩, fun _ _ noted => noted, grows⟩

theorem execBreak_follows (kind : t.kind = .breakStatement) (tame : m.Tame E)
    (run : execBreak m = .ok () m') : m.Follows E (fun ρ es b ρ' => Runs [t] ρ es b ρ') m'
  := by
  rw [execBreak, session_bind, state_bind] at run
  obtain ⟨s, m1, joined, run⟩ := bind_eq_ok.1 run
  obtain ⟨n, result, rfl⟩ := lift_domain_eq_ok.1 joined
  obtain ⟨leads, -, joins⟩ := join_leads tame tame.broken tame.state joined
  have leads2 := leads_broken leads.tame joins.tame fun ρ describes => joins.describes ρ (.inl describes)
  have leads3 := leads_setState leads2.tame (State.tame_toBottom m.state)
  cases run
  refine ⟨leads.trans (leads2.trans leads3), ?_⟩
  intro ρ es b ρ' describes runs
  obtain ⟨rfl, rfl, rfl⟩ := runs.of_leave kind
  refine ⟨nofun, ?_⟩
  apply joins.describes _ (.inr describes)

theorem following_sequence {l : List Tree}
    (each : ∀ s ∈ l, Following E (r.exec s false) fun ρ es b ρ' => Runs [s] ρ es b ρ')
    (inside : ∀ s ∈ l, ∀ ρ es b ρ', Runs [s] ρ es b ρ' → ∀ e ∈ es, E e.1) :
  Following E (sequence r l) fun ρ es b ρ' => Runs l ρ es b ρ'
  := by
  induction l with
  | nil =>
    intro m m' tame run
    cases run
    refine ⟨tame.leads, ?_⟩
    rintro ρ es b ρ' describes runs
    cases runs
    exact ⟨nofun, describes⟩
  | cons s l ih =>
    obtain ⟨first, others⟩ := forall_mem_cons.1 each
    obtain ⟨insideFirst, insideOthers⟩ := forall_mem_cons.1 inside
    intro m m' tame run
    obtain ⟨_, m1, executed, run⟩ := bind_eq_ok.1 run
    obtain ⟨leads1, covers1⟩ := first m m1 tame executed
    obtain ⟨leads2, covers2⟩ := ih others insideOthers m1 m' leads1.tame run
    refine ⟨leads1.trans leads2, ?_⟩
    intro ρ es b ρ' describes runs
    rcases runs.of_cons with ⟨rfl, left⟩ | ⟨fs, gs, ρ1, ends, rest, rfl⟩
    · obtain ⟨noted, broken⟩ := covers1 ρ es true ρ' describes left
      refine ⟨?_, leads2.broken ρ' broken⟩
      intro e member
      apply leads2.noted e (insideFirst ρ es true ρ' left e member) (noted e member)
    · obtain ⟨notedFirst, described⟩ := covers1 ρ fs false ρ1 describes ends
      obtain ⟨notedRest, after⟩ := covers2 ρ1 gs b ρ' described rest
      refine ⟨?_, after⟩
      intro e member
      rcases mem_append.1 member with inFirst | inRest
      · apply leads2.noted e (insideFirst ρ fs false ρ1 ends e inFirst) (notedFirst e inFirst)
      · apply notedRest e inRest

theorem following_otherwise {e : Tree}
    (branch : e ≠ .null → Following E (r.exec e false) fun ρ es b ρ' => Runs [e] ρ es b ρ') :
  Following E (if !e.isNull then r.exec e false else pure ()) (Otherwise e)
  := by
  cases isNull : e.isNull with
  | true =>
    have same : e = .null := by
      cases e with
      | null => rfl
      | _ => cases isNull
    intro m m' tame run
    cases run
    refine ⟨tame.leads, ?_⟩
    rintro ρ es b ρ' describes (⟨notNull, -⟩ | ⟨-, rfl, rfl, rfl⟩)
    · apply (notNull same).elim
    · exact ⟨nofun, describes⟩
  | false =>
    have differs : e ≠ .null := by
      rintro rfl
      cases isNull
    intro m m' tame run
    obtain ⟨leads, covers⟩ := branch differs m m' tame run
    refine ⟨leads, ?_⟩
    rintro ρ es b ρ' describes (⟨-, runs⟩ | ⟨impossible, -⟩)
    · apply covers ρ es b ρ' describes runs
    · apply (differs impossible).elim

theorem joinCollected_spec {s : State} (tame : m.Tame E) (isTame : s.Tame)
    (run : (do
      collect
      let s ← collectIn s
      setState (← (← state).join s) : Analysis Unit) m = .ok () m') :
  m.Leads E m' ∧ ∀ ρ, m.state.Describes ρ ∨ s.Describes ρ → m'.state.Describes ρ
  := by
  obtain ⟨_, m1, collected, run⟩ := bind_eq_ok.1 run
  obtain ⟨leads1, mirrors1⟩ := collect_leads tame collected
  obtain ⟨s', m2, collected', run⟩ := bind_eq_ok.1 run
  obtain ⟨leads2, same2, mirrors2⟩ := collectIn_leads leads1.tame isTame collected'
  rw [state_bind, same2] at run
  obtain ⟨u, m3, joined, run⟩ := bind_eq_ok.1 run
  obtain ⟨leads3, -, joins⟩ := join_leads leads2.tame mirrors1.tame mirrors2.tame joined
  cases run
  have leads4 := leads_setState leads3.tame joins.tame
  refine ⟨leads1.trans (leads2.trans (leads3.trans leads4)), ?_⟩
  rintro ρ (describes | describes)
  · apply joins.describes ρ (.inl ((mirrors1.describes ρ).2 describes))
  · apply joins.describes ρ (.inr ((mirrors2.describes ρ).2 describes))

section

variable (nodes : Nodes E) (isNode : E (t.get .test)) (condition : Condition (t.get .test))
  (consequent : Following E (r.exec (t.get .consequent) false) (Runs [t.get .consequent]))
  (alternate : Following E
    (if !(t.get .alternate).isNull then r.exec (t.get .alternate) false else pure ())
    (Otherwise (t.get .alternate)))
  (inside : ∀ holds ρ es b ρ', Chosen t holds ρ es b ρ' → ∀ e ∈ es, E e.1)
  (tame : m.Tame E) (notBottom : m.state.isBottom = false)

include nodes isNode condition consequent alternate inside tame notBottom

theorem execBoth_follows (run : execBoth r t m = .ok () m') :
  m.Follows E (fun ρ fs b ρ' => ∃ c es, Evaluates ρ (t.get .test) c es ∧ (∀ e ∈ es, m.Noted e) ∧
    Chosen t c.toBool ρ fs b ρ') m'
  := by
  rw [execBoth, state_bind] at run
  obtain ⟨other, m1, cloned, run⟩ := bind_eq_ok.1 run
  obtain ⟨leads1, same1, copy⟩ := clone_leads tame tame.state cloned
  obtain ⟨_, m2, narrowed, run⟩ := bind_eq_ok.1 run
  obtain ⟨leads2, -, keeps2⟩ := narrowTo_spec nodes isNode condition leads1.tame
    (same1 ▸ notBottom) narrowed
  obtain ⟨_, m3, executed, run⟩ := bind_eq_ok.1 run
  obtain ⟨leads3, covers3⟩ := consequent m2 m3 leads2.tame executed
  obtain ⟨⟨_, s⟩, m4, onOther, run⟩ := bind_eq_ok.1 run
  obtain ⟨m5, elsewhere, rfl, rfl⟩ := onState_eq_ok onOther
  have leads4 := leads_setState leads3.tame copy.tame
  obtain ⟨_, m6, narrowed', elsewhere⟩ := bind_eq_ok.1 elsewhere
  obtain ⟨leads5, -, keeps5⟩ := narrowTo_spec nodes isNode condition leads4.tame
    (copy.isBottom.trans notBottom) narrowed'
  obtain ⟨leads6, covers6⟩ := alternate m6 m5 leads5.tame elsewhere
  have leads7 := leads_setState leads6.tame leads3.tame.state
  obtain ⟨leads8, joins⟩ := joinCollected_spec leads7.tame leads6.tame.state run
  have toConsequent := leads1.trans (leads2.trans leads3)
  have toAlternate := leads4.trans (leads5.trans leads6)
  have toEnd := leads7.trans leads8
  refine ⟨toConsequent.trans (toAlternate.trans toEnd), ?_⟩
  rintro ρ fs b ρ' describes ⟨c, es, evaluates, noted, chosen⟩
  have insideTest := evaluates.inside nodes isNode
  have insideBranch := inside c.toBool ρ fs b ρ' chosen
  cases holds : c.toBool with
  | true =>
    rw [holds] at chosen
    have described := keeps2 ρ c es (same1 ▸ describes) evaluates
      (fun e member => leads1.noted e (insideTest e member) (noted e member)) holds
    obtain ⟨notedBranch, ends⟩ := covers3 ρ fs b ρ' described chosen
    constructor
    · intro e member
      apply (toAlternate.trans toEnd).noted e (insideBranch e member) (notedBranch e member)
    · cases b with
      | true => apply (toAlternate.trans toEnd).broken ρ' ends
      | false => apply joins ρ' (.inl ends)
  | false =>
    rw [holds] at chosen
    have described := keeps5 ρ c es ((copy.describes ρ).2 describes) evaluates
      (fun e member => (toConsequent.trans leads4).noted e (insideTest e member) (noted e member))
      holds
    obtain ⟨notedBranch, ends⟩ := covers6 ρ fs b ρ' described chosen
    constructor
    · intro e member
      apply toEnd.noted e (insideBranch e member) (notedBranch e member)
    · cases b with
      | true => apply toEnd.broken ρ' ends
      | false => apply joins ρ' (.inr ends)

theorem execIf_follows (kind : t.kind = .ifStatement)
    (test : Changing E (kindOf (t.get .test)) (r.expr (t.get .test)) (Tests (t.get .test)))
    (run : execIf r t m = .ok () m') :
  m.Follows E (fun ρ es b ρ' => Runs [t] ρ es b ρ') m'
  := by
  obtain ⟨m1, m2, before, inner, after⟩ := consuming_run run
  suffices follows : m1.Follows E (fun ρ es b ρ' => Runs [t] ρ es b ρ') m2 from
    follows.between tame before (after follows.leads.tame.state.pending)
  have tame1 := before.tame tame
  rw [← before.state] at notBottom
  obtain ⟨c, m3, evaluated, inner⟩ := bind_eq_ok.1 inner
  obtain ⟨n1, n2, quiet1, evaluated, quiet2⟩ := untraced_run evaluated
  obtain ⟨leads1, stays, isIn, covers⟩ := test n1 c n2 (quiet1.tame tame1)
    (quiet1.state ▸ notBottom) evaluated
  obtain ⟨_, m4, consumed, inner⟩ := bind_eq_ok.1 inner
  have quiet3 := quiet2.trans (quiet_run consumed)
  have leads3 := (quiet1.leads tame1).trans (leads1.trans (quiet3.leads leads1.tame))
  rw [← quiet3.state] at stays
  rw [options_bind] at inner
  obtain ⟨truth, m5, asked, inner⟩ := bind_eq_ok.1 inner
  obtain ⟨decided, rfl⟩ := lift_except_eq_ok.1 asked
  have branch : m5.Follows E (fun ρ fs b ρ' => ∃ d es, Evaluates ρ (t.get .test) d es ∧
      (∀ e ∈ es, m5.Noted e) ∧ c.Covers (kindOf (t.get .test)) d ∧ Chosen t d.toBool ρ fs b ρ') m2 := by
    cases truth with
    | none =>
      obtain ⟨_, m6, passed, inner⟩ := bind_eq_ok.1 inner
      obtain ⟨m7, m8, quiet, both, quiet'⟩ := untraced_run inner
      have quiet := (quiet_run passed).trans quiet
      have follows := execBoth_follows nodes isNode condition consequent alternate inside
        (quiet.tame leads3.tame) (quiet.state ▸ stays) both
      obtain ⟨leads, covers⟩ := follows.between leads3.tame quiet quiet'
      refine ⟨leads, ?_⟩
      rintro ρ fs b ρ' describes ⟨d, es, evaluates, noted, -, chosen⟩
      apply covers ρ fs b ρ' describes ⟨d, es, evaluates, _, chosen⟩
      intro e member
      apply quiet.noted leads3.tame.notes (noted e member)
    | some holds =>
      have follows : Following E (if holds then r.exec (t.get .consequent) false
          else if !(t.get .alternate).isNull then r.exec (t.get .alternate) false else pure ())
          (Chosen t holds) := by
        cases holds with
        | true => apply consequent
        | false => apply alternate
      obtain ⟨leads, covers⟩ := follows m5 m2 leads3.tame (by cases holds <;> exact inner)
      refine ⟨leads, ?_⟩
      rintro ρ fs b ρ' describes ⟨d, es, -, -, isCovered, chosen⟩
      rw [isIn.toBool_of_truth? isCovered decided] at chosen
      apply covers ρ fs b ρ' describes chosen
  refine ⟨leads3.trans branch.leads, ?_⟩
  intro ρ es b ρ' describes runs
  obtain ⟨d, fs, gs, evaluates, rfl, chosen⟩ := runs.of_if kind
  rw [← quiet1.state] at describes
  obtain ⟨isCovered, still, noted⟩ := covers ρ d fs ρ describes ⟨evaluates, rfl⟩
  rw [← quiet3.state] at still
  have notedTest : ∀ e ∈ fs, m5.Noted e :=
    fun e member => quiet3.noted leads1.tame.notes (noted e member)
  obtain ⟨notedBranch, ends⟩ := branch.covers ρ gs b ρ' still
    ⟨d, fs, evaluates, notedTest, isCovered, chosen⟩
  refine ⟨?_, ends⟩
  intro e member
  rcases mem_append.1 member with inTest | inBranch
  · apply branch.leads.noted e (evaluates.inside nodes isNode e inTest) (notedTest e inTest)
  · apply notedBranch e inBranch

end

/-! ### All statements -/

/-- An engine evaluates the expressions of the while-language soundly and follows the runs of its
statements. -/
structure Follower (E : Tree → Prop) (r : Engine) : Prop where
  expr : CoversExpressions E r
  skips : ∀ e m v m', m.state.isBottom = true → r.expr e m = .ok v m' → m' = m
  assign : ∀ e x, E e → Assigns e x → Arithmetic (e.get .right) →
    Changing E .data (r.expr e) (Stores e x)
  exec : ∀ b t, E t → Statement b t → Following E (r.exec t false) (Runs [t])

namespace Follower

variable {b : Bool}

theorem sequence {l : List Tree} (nodes : Nodes E) (follower : Follower E r)
    (all : ∀ s ∈ l, E s ∧ Statement b s) : Following E (sequence r l) (Runs l)
  := by
  apply following_sequence
  · intro s member
    obtain ⟨isNode, statement⟩ := all s member
    apply follower.exec b s isNode statement
  · intro s member ρ es c ρ' runs
    obtain ⟨isNode, statement⟩ := all s member
    exact runs.inside nodes (forall_mem_singleton.2 ⟨isNode, b, statement⟩)

theorem testing {k : Value.Kind} {T : Store → Concrete → List Event → Store → Prop}
    (follower : Follower E r) (kind : (t.get .test).kind ≠ .record)
    (changing : Changing E k (r.expr (t.get .test)) T) :
  ∃ y, Testing E k (loopParts r t false) y T
  := by
  have notNull : (t.get .test).isNull = false := by
    cases test : t.get .test with
    | null =>
      rw [test] at kind
      apply (kind rfl).elim
    | _ => rfl
  refine ⟨do
    let v ← r.expr (t.get .test)
    passThrough (t.get .test)
    return v, ?_, rfl, ?_, ?_⟩
  · rw [loopParts]
    simp only [Bool.false_or, notNull, Bool.false_eq_true, if_false]
  · apply changing.followed
  · intro m v m' bottom run
    obtain ⟨w, m1, evaluated, run⟩ := bind_eq_ok.1 run
    obtain ⟨_, m2, passed, run⟩ := bind_eq_ok.1 run
    cases run
    obtain rfl := follower.skips _ m _ m1 bottom evaluated
    apply quiet_run passed

section

variable (nodes : Nodes E) (follower : Follower E r) (isNode : E t)

include nodes follower isNode

theorem loopBody
    (body : Statement b (t.get .body)) (update : t.get .update = .null) :
  Following E (do (loopParts r t false).body; (loopParts r t false).update) (Runs [t.get .body])
  := by
  have noUpdate : (loopParts r t false).update = pure () := by
    rw [loopParts, update]
    rfl
  rw [noUpdate, bind_pure_unit]
  intro m m' tame run
  obtain ⟨_, m1, live, run⟩ := bind_eq_ok.1 run
  obtain ⟨l, isBody, after⟩ := lift_except_bind_eq_ok.1 run
  obtain ⟨place, statements, runsAs⟩ := loopStatements_runs body isBody
  have isNode' := nodes.attr t .body isNode body.kind_ne
  have all : ∀ s ∈ l, E s ∧ Statement b s := by
    intro s member
    refine ⟨?_, statements s member⟩
    rcases place with rfl | isList
    · rw [mem_singleton.1 member]
      apply isNode'
    · apply nodes.item _ _ l s isNode' isList member (statements s member).kind_ne
  have quiet := quiet_run live
  have follows := follower.sequence nodes all _ m' (quiet.tame tame) after
  obtain ⟨leads, covers⟩ := follows.between tame quiet (Machine.Quiet.refl m')
  refine ⟨leads, ?_⟩
  intro ρ es c ρ' describes runs
  apply covers ρ es c ρ' describes (runsAs ρ es c ρ' runs)

omit follower in
theorem inside (statement : Statement b t) {ρ ρ' : Store}
    {es : List Event} {c : Bool} (runs : Runs [t] ρ es c ρ') : ∀ e ∈ es, E e.1
  := runs.inside nodes (forall_mem_singleton.2 ⟨isNode, b, statement⟩)

theorem following_if
    (kind : t.kind = .ifStatement) (condition : Condition (t.get .test))
    (consequent : Statement b (t.get .consequent))
    (alternate : t.get .alternate ≠ .null → Statement b (t.get .alternate)) :
  Following E (entering t (execIf r t)) (Runs [t])
  := by
  have isTest := nodes.attr t .test isNode condition.kind_ne
  have isConsequent := nodes.attr t .consequent isNode consequent.kind_ne
  have isAlternate := fun notNull => nodes.attr t .alternate isNode (alternate notNull).kind_ne
  apply following_entering
  intro m m' tame notBottom run
  apply execIf_follows nodes isTest condition (follower.exec b _ isConsequent consequent) _ _ tame
    notBottom kind (follower.expr _ isTest condition) run
  · apply following_otherwise
    intro notNull
    apply follower.exec b _ (isAlternate notNull) (alternate notNull)
  · intro holds ρ es c ρ' chosen
    cases holds with
    | true => apply inside nodes isConsequent consequent chosen
    | false =>
      rcases chosen with ⟨notNull, runs⟩ | ⟨-, rfl, -⟩
      · apply inside nodes (isAlternate notNull) (alternate notNull) runs
      · nofun

omit nodes follower isNode in
theorem following_block {l : List Tree} (nodes : Nodes E) (follower : Follower E r) (isNode : E t)
    (kind : t.kind = .blockStatement) (body : t.get .body = .list l) (all : ∀ s ∈ l, Statement b s) :
  Following E (entering t (whole t (hoistedSequence r l))) (Runs [t])
  := by
  apply following_entering
  intro m m' tame notBottom run
  rw [hoistedSequence_eq all] at run
  obtain ⟨m1, m2, before, inner, after⟩ := whole_run run
  have parts : ∀ s ∈ l, E s ∧ Statement b s := by
    intro s member
    exact ⟨nodes.item t _ l s isNode body member (all s member).kind_ne, all s member⟩
  have follows := follower.sequence nodes parts m1 m2 (before.tame tame) inner
  obtain ⟨leads, covers⟩ := follows.between tame before after
  refine ⟨leads, ?_⟩
  intro ρ es c ρ' describes runs
  apply covers ρ es c ρ' describes (runs.of_block kind body)

theorem following_loop
    (statement : Statement b t) (kind : t.kind = .whileStatement) (initial : t.get .initial = .null)
    (update : t.get .update = .null) :
  Following E
    (entering t (whole t (guardedLoop t (loopStart r t) (loopParts r t false) patience))) (Runs [t])
  := by
  obtain ⟨condition, body⟩ := statement.of_loop kind
  have isTest := nodes.attr t .test isNode condition.kind_ne
  have isBody := nodes.attr t .body isNode body.kind_ne
  have noStart : loopStart r t = pure () := by
    rw [loopStart, initial]
    rfl
  obtain ⟨y, testing⟩ := follower.testing condition.kind_ne (follower.expr _ isTest condition)
  apply following_entering
  intro m m' tame notBottom run
  obtain ⟨m1, m2, before, inner, after⟩ := whole_run run
  rw [noStart] at inner
  have follows := guardedLoop_following testing (follower.loopBody nodes isNode body update)
    (fun ρ c es ρ' evaluates => evaluates.1.inside nodes isTest)
    (fun ρ es c ρ' runs => inside nodes isBody body runs) m1 m2 (before.tame tame) inner
  obtain ⟨leads, covers⟩ := follows.between tame before after
  refine ⟨leads, ?_⟩
  intro ρ es c ρ' describes runs
  apply covers ρ es c ρ' describes (runs.iterates kind)

theorem guardedStatement
    (statement : Statement b t) : Following E (guardedStatement r t false) (Runs [t])
  := by
  rw [Analysis.guardedStatement]
  cases statement with
  | assign kind _ assigns arithmetic =>
    rw [kind, if_neg (by decide), execStatement, kind]
    have isAssignment := nodes.attr t .expression isNode (by rw [assigns.kind]; decide)
    have changing := follower.assign _ _ isAssignment assigns arithmetic
    exact following_entering fun m m' tame notBottom run =>
      execExpression_follows kind assigns changing tame notBottom run
  | block kind body all =>
    rw [kind, if_neg (by decide), execStatement, kind, body]
    exact follower.following_block nodes isNode kind body all
  | ifThen kind _ condition consequent alternate =>
    rw [kind, if_neg (by decide), execStatement, kind]
    exact follower.following_if nodes isNode kind condition consequent
      fun notNull => (notNull alternate).elim
  | ifElse kind _ condition consequent alternate =>
    rw [kind, if_neg (by decide), execStatement, kind]
    exact follower.following_if nodes isNode kind condition consequent fun _ => alternate
  | loop kind initial update condition body =>
    rw [kind, if_pos (by decide)]
    have statement : Statement b t := .loop kind initial update condition body
    exact follower.following_loop nodes isNode statement kind initial update
  | leave kind =>
    rw [kind, if_neg (by decide), execStatement, kind]
    exact following_entering fun m m' tame _ run => execBreak_follows kind tame run

end

end Follower

theorem engine_covers (nodes : Nodes E) (n : Nat) : CoversExpressions E (engine n) := by
  induction n with
  | zero =>
    intro e _ _ m v m' _ _ run
    cases run
  | succ n ih => exact ih.evalExpr nodes

theorem guarded_follower (nodes : Nodes E) (n : Nat) : Follower E (guarded n) := by
  induction n with
  | zero =>
    refine ⟨engine_covers nodes 0, ?_, ?_, ?_⟩
    · intro e m v m' _ run
      cases run
    · intro e x _ _ _ m v m' _ _ run
      cases run
    · intro b t _ _ m m' _ run
      cases run
  | succ n ih =>
    refine ⟨engine_covers nodes (n + 1), ?_, ?_, ?_⟩
    · intro e m v m' bottom run
      have skipped : evalExpr (engine n) e m = .ok .bot m := by
        rw [evalExpr, isBottom_bind, bottom]
        rfl
      apply (EStateM.Result.ok.inj (skipped.symm.trans run)).2.symm
    · intro e x isNode assigns arithmetic
      have isRight := nodes.attr e .right isNode arithmetic.kind_ne
      exact changing_evalExpr nodes isNode assigns ((engine_covers nodes n).arithmetic isRight arithmetic)
    · intro b t isNode statement
      apply ih.guardedStatement nodes isNode statement

end Analysis

end ScriptLens
