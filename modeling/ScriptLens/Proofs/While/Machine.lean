import ScriptLens.Proofs.Analysis.Notes
import ScriptLens.Proofs.Analysis.Passive
import ScriptLens.Proofs.While.Join

/-!
# Machines that analyse the while-language

`Machine.Tame` is what holds of a machine throughout the analysis of a program of the
while-language; it depends on the set `E` of the nodes of the program.
-/

namespace ScriptLens

open While (Store Event kindOf)

def Machine.Noted (m : Machine) (e : Event) : Prop :=
  ∃ v, m.notes.valueOf e.1 = some v ∧ v.Covers (kindOf e.1) e.2

/-- A machine in the middle of a program of the language. -/
structure Machine.Tame (E : Tree → Prop) (m : Machine) : Prop where
  options : m.setting.options.cleanTopObjects = false
  state : m.state.Tame
  broken : m.session.broken.Tame
  continued : m.session.continued.isBottom = true
  returned : m.session.returned.isBottom = true
  fresh : Builtin.deferredId < m.nextId
  notes : m.notes.Well
  kinds : ∀ t v, E t → m.notes.valueOf t = some v → v.In (kindOf t)

/-- What a part of such a program leaves in force. -/
structure Machine.Leads (E : Tree → Prop) (m m' : Machine) : Prop where
  tame : m'.Tame E
  noted : ∀ e : Event, E e.1 → m.Noted e → m'.Noted e
  broken : ∀ ρ, m.session.broken.Describes ρ → m'.session.broken.Describes ρ

/-- Nothing changes that a result depends on, but values may be taken away from nodes. -/
structure Machine.Erases (m m' : Machine) : Prop where
  setting : m'.setting = m.setting
  state : m'.state = m.state
  nextId : m'.nextId = m.nextId
  broken : m'.session.broken = m.session.broken
  continued : m'.session.continued = m.session.continued
  returned : m'.session.returned = m.session.returned
  ids : ∀ (r : Nat) i, m.notes.ids[r]? = some i → m'.notes.ids[r]? = some i
  well : m.notes.Well → m'.notes.Well
  kept : m.notes.Well → ∀ t, m'.notes.valueOf t = m.notes.valueOf t ∨ m'.notes.valueOf t = none

/-- Nothing changes that a result depends on. -/
structure Machine.Quiet (m m' : Machine) : Prop extends m.Erases m' where
  values : m.notes.Well → ∀ t, m'.notes.valueOf t = m.notes.valueOf t

namespace Machine

variable {E : Tree → Prop} {m m' m'' : Machine}

theorem Tame.leads (tame : m.Tame E) : m.Leads E m
  := ⟨tame, fun _ _ noted => noted, fun _ describes => describes⟩

theorem Leads.trans (first : m.Leads E m') (second : m'.Leads E m'') : m.Leads E m''
  := ⟨second.tame, fun e inside noted => second.noted e inside (first.noted e inside noted),
    fun ρ describes => second.broken ρ (first.broken ρ describes)⟩

theorem Erases.trans (first : m.Erases m') (second : m'.Erases m'') : m.Erases m'' := by
  refine ⟨second.setting.trans first.setting, second.state.trans first.state,
    second.nextId.trans first.nextId, second.broken.trans first.broken,
    second.continued.trans first.continued, second.returned.trans first.returned,
    fun r i known => second.ids r i (first.ids r i known),
    fun well => second.well (first.well well), ?_⟩
  intro well t
  rcases second.kept (first.well well) t with same | lost
  · rw [same]
    apply first.kept well t
  · right
    apply lost

namespace Quiet

theorem aside
    (ids : ∀ (r : Nat) i, m.notes.ids[r]? = some i → m'.notes.ids[r]? = some i := by exact fun _ _ => id)
    (well : m.notes.Well → m'.notes.Well := by exact id)
    (values : m.notes.Well → ∀ t, m'.notes.valueOf t = m.notes.valueOf t := by exact fun _ _ => rfl)
    (setting : m'.setting = m.setting := by rfl) (state : m'.state = m.state := by rfl)
    (nextId : m'.nextId = m.nextId := by rfl)
    (broken : m'.session.broken = m.session.broken := by rfl)
    (continued : m'.session.continued = m.session.continued := by rfl)
    (returned : m'.session.returned = m.session.returned := by rfl) : m.Quiet m'
  := ⟨⟨setting, state, nextId, broken, continued, returned, ids, well,
    fun isWell t => .inl (values isWell t)⟩, values⟩

theorem refl (m : Machine) : m.Quiet m
  := .aside

theorem trans (first : m.Quiet m') (second : m'.Quiet m'') : m.Quiet m''
  := ⟨first.toErases.trans second.toErases,
    fun well t => (second.values (first.well well) t).trans (first.values well t)⟩

theorem noted (quiet : m.Quiet m') (well : m.notes.Well) {e : Event} (noted : m.Noted e) :
  m'.Noted e
  := by
  rw [Noted, quiet.values well]
  apply noted

theorem leads (quiet : m.Quiet m') (tame : m.Tame E) : m.Leads E m' := by
  have values := quiet.values tame.notes
  constructor
  · constructor
    · rw [quiet.setting]
      apply tame.options
    · rw [quiet.state]
      apply tame.state
    · rw [quiet.broken]
      apply tame.broken
    · rw [quiet.continued]
      apply tame.continued
    · rw [quiet.returned]
      apply tame.returned
    · rw [quiet.nextId]
      apply tame.fresh
    · apply quiet.well tame.notes
    · intro t v inside found
      rw [values] at found
      apply tame.kinds t v inside found
  · intro e _ noted
    apply quiet.noted tame.notes noted
  · intro ρ describes
    rw [quiet.broken]
    apply describes

theorem tame (quiet : m.Quiet m') (tame : m.Tame E) : m'.Tame E
  := (quiet.leads tame).tame

end Quiet

end Machine

namespace Analysis

variable {α : Type} {m m' : Machine} {t : Tree} {v : Value}

/-! ### Quiet steps -/

variable {i : Nat} {n : NoteName} {a : Note} {body : Analysis α} {u : State}

theorem quiet_nodeId (run : nodeId t m = .ok i m') : m.Quiet m' ∧ m'.notes.ids[t.ref]? = some i
  := by
  cases run
  exact ⟨.aside (fun _ _ => m.notes.mark_ids_of) (·.mark t) (·.valueOf_mark t), m.notes.mark_ids t⟩

theorem quiet_setNote (other : n ≠ .staticValue) (run : setNote t n a m = .ok () m') : m.Quiet m'
  := by
  obtain ⟨i, m1, numbered, run⟩ := bind_eq_ok.1 run
  cases run
  obtain ⟨quiet, known⟩ := quiet_nodeId numbered
  apply quiet.trans
  refine .aside (fun _ _ => id) (·.insert known _) fun _ _ => ?_
  apply Notes.valueOf_setAt_other _ _ other

instance : Chained Machine.Quiet
  := ⟨.refl, .trans⟩

instance : Marking (keeping Machine.Quiet)
  where
  reads t _ := ⟨.step fun _ => ⟨_, _, rfl, (quiet_nodeId (t := t) rfl).1⟩⟩
  writes t n free w := ⟨.step fun _ =>
    ⟨_, _, rfl, quiet_setNote (t := t) (a := w) (free.other (by decide)) rfl⟩⟩

instance (last : Session → Option Tree) (needClean : Session → Bool)
    (trace : Session → Option (Array Int)) (loops : Session → LoopContext) :
  Keeps Machine.Quiet (changeSession fun s =>
    { s with last := last s, needClean := needClean s, trace := trace s, loops := loops s })
  := .change fun _ => .aside

instance : Keeps Machine.Quiet (nodeId t)
  := .step fun _ => ⟨_, _, rfl, (quiet_nodeId rfl).1⟩

instance : Obeys (keeping Machine.Quiet) (setLive t) := by
  have set : Keeps Machine.Quiet (setAttr t .isLive (.flag true)) :=
    .change fun _ => .aside (fun _ _ => id) (·.setAttr (by decide) _)
  unfold setLive
  exact .look inferInstance

instance : Keeps Machine.Quiet (passThrough t)
  := by unfold passThrough; infer_instance

instance : Keeps Machine.Quiet (consume v) := by
  apply Keeps.change
  intro m
  split
  · apply Machine.Quiet.refl
  · exact .aside

instance : Keeps Machine.Quiet (enterStatement t)
  := by unfold enterStatement; infer_instance

theorem quiet_run [Keeps Machine.Quiet body] {b : α} (run : body m = .ok b m') : m.Quiet m'
  := Keeps.ended run

theorem note_value (well : m.notes.Well) (run : note t .staticValue m = .ok a m') :
  a.value? = m.notes.valueOf t
  := by
  obtain ⟨i, m1, numbered, run⟩ := bind_eq_ok.1 run
  cases run
  obtain ⟨quiet, known⟩ := quiet_nodeId numbered
  rw [← quiet.values well, Notes.valueOf, known]
  rfl

theorem hold_eq (s : State) (simple : v.Simple) : s.hold v = s := by
  rw [State.hold, simple.refIds_eq]
  rfl

theorem release_eq (s : State) (simple : v.Simple) : s.release v = s := by
  rw [State.release, simple.refIds_eq]
  rfl

theorem diff_eq {s c : IdSet} (empty : s.ids = []) : s.diff c = s := by
  obtain ⟨ids⟩ := s
  obtain rfl : ids = [] := empty
  rfl

theorem consuming_run {a : α} (run : consuming body m = .ok a m') :
  ∃ m1 m2, m.Quiet m1 ∧ body m1 = .ok a m2 ∧ (m2.state.pending.ids = [] → m2.Quiet m')
  := by
  obtain ⟨m3, inner, rfl⟩ := consuming_eq_ok run
  refine ⟨{ m with consumed := {} :: m.consumed }, m3, .aside, inner, fun empty => ?_⟩
  refine .aside (fun _ _ => id) id (fun _ _ => rfl) rfl ?_
  change { m3.state with pending := m3.state.pending.diff (m3.consumed.headD {}) } = m3.state
  rw [diff_eq empty]

theorem untraced_run {a : α} (run : untraced body m = .ok a m') :
  ∃ m1 m2, m.Quiet m1 ∧ body m1 = .ok a m2 ∧ m2.Quiet m'
  := by
  rw [untraced, session_bind, changeSession_bind] at run
  obtain ⟨b, m2, inner, ⟨⟩⟩ := bind_eq_ok.1 run
  refine ⟨_, m2, ?_, inner, ?_⟩
  · exact .aside
  · exact .aside

/-! ### Values and states -/

variable {E : Tree → Prop} {s : State}

theorem leads_setAt {useOr : Bool} {w : Value} (tame : m.Tame E) (inside : E t)
    (consistent : ∀ u, E u → u.ref = t.ref → kindOf u = kindOf t) (isIn : v.In (kindOf t))
    (known : m.notes.ids[t.ref]? = some i)
    (isJoin : w = ((m.notes.valueOf t).getD .absent).join useOr v)
    (joined : m' = { m with notes := m.notes.setAt i .staticValue (.value w) }) :
  m.Leads E m' ∧ ∀ c, v.Covers (kindOf t) c → m'.Noted (t, c)
  := by
  have values : ∀ u, m'.notes.valueOf u = if u.ref = t.ref then some w else m.notes.valueOf u := by
    intro u
    rw [joined]
    apply tame.notes.valueOf_setAt known w u
  have newIn : w.In (kindOf t) := by
    rw [isJoin]
    cases old : m.notes.valueOf t with
    | none => apply isIn
    | some o => apply (tame.kinds t o inside old).join useOr isIn
  have covers : ∀ c, (∃ o, m.notes.valueOf t = some o ∧ o.Covers (kindOf t) c) ∨
      v.Covers (kindOf t) c → w.Covers (kindOf t) c := by
    intro c either
    rw [isJoin]
    cases old : m.notes.valueOf t with
    | none =>
      rcases either with ⟨o, found, -⟩ | new
      · rw [old] at found
        cases found
      · apply new
    | some o =>
      apply (tame.kinds t o inside old).covers_join useOr isIn
      rcases either with ⟨o', found, before⟩ | new
      · cases old.symm.trans found
        left
        apply before
      · right
        apply new
  refine ⟨⟨?_, ?_, ?_⟩, ?_⟩
  · subst joined
    refine ⟨tame.options, tame.state, tame.broken, tame.continued, tame.returned, tame.fresh,
      tame.notes.insert known _, ?_⟩
    intro u o insideU found
    rw [values] at found
    split at found
    · rename_i same
      cases found
      rw [consistent u insideU same]
      apply newIn
    · apply tame.kinds u o insideU found
  · rintro ⟨u, c⟩ insideU ⟨o, found, before⟩
    rw [Machine.Noted, values]
    split
    · rename_i same
      have sameValue : m.notes.valueOf u = m.notes.valueOf t := by
        rw [Notes.valueOf, Notes.valueOf, same]
      rw [consistent u insideU same] at before ⊢
      use w, rfl
      apply covers
      left
      use o, sameValue.symm.trans found
    · use o
  · intro ρ describes
    rw [joined]
    apply describes
  · intro c new
    use w
    constructor
    · rw [values, if_pos rfl]
    · apply covers c (.inr new)

theorem noteValue_leads (tame : m.Tame E) (inside : E t)
    (consistent : ∀ u, E u → u.ref = t.ref → kindOf u = kindOf t) (isIn : v.In (kindOf t))
    (run : noteValue t v m = .ok () m') :
  m.Leads E m' ∧ m'.state = m.state ∧ ∀ c, v.Covers (kindOf t) c → m'.Noted (t, c)
  := by
  rw [noteValue, options_bind] at run
  obtain ⟨a, m1, asked, run⟩ := bind_eq_ok.1 run
  have old := note_value tame.notes asked
  have quiet1 := quiet_run asked
  obtain ⟨_, m2, written, run⟩ := bind_eq_ok.1 run
  obtain ⟨i, m3, numbered, written⟩ := bind_eq_ok.1 written
  obtain ⟨quiet2, known⟩ := quiet_nodeId numbered
  have quiet := quiet1.trans quiet2
  rw [← quiet.values tame.notes] at old
  have joined := (EStateM.Result.ok.inj written).2.symm
  obtain ⟨leads, noted⟩ := leads_setAt (quiet.tame tame) inside consistent isIn known
    (by rw [old]) joined
  have rest : m2.Quiet m' := by
    rw [session_bind] at run
    split at run
    · obtain ⟨b, m4, asked', run⟩ := bind_eq_ok.1 run
      obtain ⟨c, m5, ⟨⟩, run⟩ := bind_eq_ok.1 run
      have other : NoteName.contextValues ≠ .staticValue := nofun
      apply (quiet_run asked').trans (quiet_setNote other run)
    · cases run
      apply Machine.Quiet.refl
  have last := rest.leads leads.tame
  refine ⟨(quiet.leads tame).trans (leads.trans last), ?_, ?_⟩
  · rw [rest.state, joined]
    apply quiet.state
  intro c covers
  apply last.noted (t, c) inside (noted c covers)

theorem leads_setState (tame : m.Tame E) (isTame : s.Tame) : m.Leads E { m with state := s }
  := ⟨⟨tame.options, isTame, tame.broken, tame.continued, tame.returned, tame.fresh, tame.notes,
    tame.kinds⟩, fun _ _ noted => noted, fun _ describes => describes⟩

theorem leads_nextId {n : Nat} (tame : m.Tame E) (le : m.nextId ≤ n) :
  m.Leads E { m with nextId := n }
  := ⟨⟨tame.options, tame.state, tame.broken, tame.continued, tame.returned,
    Nat.lt_of_lt_of_le tame.fresh le, tame.notes, tame.kinds⟩, fun _ _ noted => noted,
    fun _ describes => describes⟩

theorem clone_leads (tame : m.Tame E) (isTame : s.Tame)
    (run : (liftM s.clone : Analysis State) m = .ok u m') :
  m.Leads E m' ∧ m'.state = m.state ∧ u.Mirrors s
  := by
  obtain ⟨n, result, rfl⟩ := lift_domain_eq_ok.1 run
  obtain ⟨mirrors, le⟩ := State.clone_mirrors isTame tame.fresh result
  exact ⟨leads_nextId tame le, rfl, mirrors⟩

theorem join_leads {t : State} (tame : m.Tame E) (tameS : s.Tame) (tameT : t.Tame)
    (run : (liftM (s.join t) : Analysis State) m = .ok u m') :
  m.Leads E m' ∧ m'.state = m.state ∧ u.Joins s t
  := by
  obtain ⟨n, result, rfl⟩ := lift_domain_eq_ok.1 run
  obtain ⟨joins, rfl⟩ := State.join_joins tameS tameT result
  exact ⟨leads_nextId tame (Nat.le_refl _), rfl, joins⟩

theorem join_bottom {t : State} (bottom : t.isBottom = true)
    (run : (liftM (s.join t) : Analysis State) m = .ok u m') : u = s ∧ m' = m
  := by
  obtain ⟨n, result, rfl⟩ := lift_domain_eq_ok.1 run
  rw [State.join, bottom] at result
  cases result
  exact ⟨rfl, rfl⟩

theorem unify_leads {t : State} (tame : m.Tame E) (tameS : s.Tame) (tameT : t.Tame)
    (run : (liftM (s.unify t) : Analysis State) m = .ok u m') :
  m.Leads E m' ∧ m'.state = m.state ∧ u.Mirrors s
  := by
  obtain ⟨n, result, rfl⟩ := lift_domain_eq_ok.1 run
  obtain ⟨mirrors, rfl⟩ := State.unify_mirrors tameS tameT result
  exact ⟨leads_nextId tame (Nat.le_refl _), rfl, mirrors⟩

theorem collectIn_leads (tame : m.Tame E) (isTame : s.Tame) (run : collectIn s m = .ok u m') :
  m.Leads E m' ∧ m'.state = m.state ∧ u.Mirrors s
  := by
  rw [collectIn, changeSession_bind, options_bind] at run
  have quiet : m.Quiet { m with session := { m.session with needClean := false } } :=
    .aside
  have first := quiet.leads tame
  split at run
  · obtain ⟨n, result, rfl⟩ := lift_domain_eq_ok.1 run
    obtain ⟨mirrors, rfl⟩ := State.cleanup_mirrors tame.options isTame result
    exact ⟨first.trans (leads_nextId first.tame (Nat.le_refl _)), rfl, mirrors⟩
  · cases run
    exact ⟨first, rfl, isTame.mirrors⟩

theorem collect_leads (tame : m.Tame E) (run : collect m = .ok () m') :
  m.Leads E m' ∧ m'.state.Mirrors m.state
  := by
  rw [collect, state_bind] at run
  obtain ⟨s, m1, collected, run⟩ := bind_eq_ok.1 run
  cases run
  obtain ⟨leads, -, mirrors⟩ := collectIn_leads tame tame.state collected
  exact ⟨leads.trans (leads_setState leads.tame mirrors.tame), mirrors⟩

end Analysis

end ScriptLens
