import ScriptLens.Proofs.Analysis.Lasting
import ScriptLens.Proofs.Analysis.Refinement
import ScriptLens.Proofs.Value.Join

/-!
# The values that expressions are noted with

Each value of an expression is joined to the value that the expression is noted with, and to the one
that it is noted with for the iterations of the loops around it.
-/

namespace ScriptLens

/-! ### Values that include others -/

namespace Atom

def includes (a b : Atom) : Bool := a == .top || a == b || a.same b

variable {a b c : Atom}

theorem includes_iff : a.includes b = true ↔ a = .top ∨ a = b ∨ a.same b = true
  := by simp [includes, or_assoc]

theorem includes_refl (a : Atom) : a.includes a = true
  := includes_iff.2 (.inr (.inl rfl))

theorem includes_of_same (alike : a.same b = true) : a.includes b = true
  := includes_iff.2 (.inr (.inr alike))

theorem includes_trans (first : a.includes b = true) (second : b.includes c = true) :
  a.includes c = true
  := by
  obtain rfl | rfl | alike := includes_iff.1 first
  · exact includes_iff.2 (.inl rfl)
  · exact second
  obtain rfl | rfl | alike' := includes_iff.1 second
  · cases a <;> first | exact includes_iff.2 (.inl rfl) | cases alike
  · exact first
  · exact includes_of_same (same_trans alike alike')

theorem eq_bot_of_includes (included : Atom.bot.includes b = true) : b = .bot := by
  obtain impossible | rfl | alike := includes_iff.1 included
  · cases impossible
  · rfl
  · cases b <;> first | rfl | cases alike

end Atom

namespace Value

def includes (v w : Value) : Bool :=
  w.choices.all fun b => b == .bot || v.choices.any fun a => a.includes b

variable {u v w : Value}

theorem includes_iff :
  v.includes w = true ↔ ∀ b ∈ w.choices, b = .bot ∨ ∃ a ∈ v.choices, a.includes b = true
  := by simp [includes]

theorem includes_refl (v : Value) : v.includes v = true
  := includes_iff.2 fun a inside => .inr ⟨a, inside, a.includes_refl⟩

theorem includes_nothing (nothing : w = .absent ∨ w = .bot) (v : Value) : v.includes w = true := by
  apply includes_iff.2
  intro b inside
  left
  obtain rfl | rfl := nothing
  · cases inside
  · exact List.mem_singleton.1 inside

theorem top_includes (v : Value) : Value.top.includes v = true
  := includes_iff.2 fun _ _ => .inr ⟨.top, List.mem_singleton_self _, Atom.includes_iff.2 (.inl rfl)⟩

theorem includes_trans (first : u.includes v = true) (second : v.includes w = true) :
  u.includes w = true
  := by
  apply includes_iff.2
  intro c inside
  obtain bot | ⟨b, insideV, above⟩ := includes_iff.1 second c inside
  · exact .inl bot
  obtain rfl | ⟨a, insideU, above'⟩ := includes_iff.1 first b insideV
  · exact .inl (Atom.eq_bot_of_includes above)
  · exact .inr ⟨a, insideU, Atom.includes_trans above' above⟩

theorem includes_of_equal (equals : v.equal w = true) : v.includes w = true := by
  apply includes_iff.2
  intro b inside
  right
  obtain ⟨a, found, alike⟩ := covered_of_equal equals inside
  exact ⟨a, found, Atom.includes_of_same alike⟩

theorem join_includes_left (useOr : Bool) (v w : Value) : (v.join useOr w).includes v = true := by
  obtain ⟨nothing, -⟩ | ⟨-, same⟩ | ⟨-, same⟩ | union := join_cases useOr v w
  · exact includes_nothing nothing _
  · rw [same]
    exact includes_refl v
  · rw [same]
    exact includes_refl v
  · rw [union, ofChoices]
    split
    · exact includes_iff.2 fun a inside =>
        .inr ⟨a, Choices.mem_union_left _ _ inside, a.includes_refl⟩
    · exact top_includes v

theorem join_includes_right (useOr : Bool) (v w : Value) : (v.join useOr w).includes w = true := by
  obtain ⟨-, same⟩ | ⟨nothing, -⟩ | ⟨equals, same⟩ | union := join_cases useOr v w
  · rw [same]
    exact includes_refl w
  · exact includes_nothing nothing _
  · rw [same]
    exact includes_of_equal equals
  · rw [union, ofChoices]
    split
    · apply includes_iff.2
      intro b inside
      right
      obtain found | ⟨a, found, alike⟩ := Choices.counted inside
      · exact ⟨b, found, b.includes_refl⟩
      · exact ⟨a, found, Atom.includes_of_same alike⟩
    · exact top_includes w

end Value

/-! ### Noting a value -/

theorem lookup_putContext (useOr : Bool) (c d : LoopContext) (v : Value)
    (l : List (LoopContext × Value)) :
  (Analysis.putContext useOr c v l).lookup d =
    if d = c then some ((l.lookup c).elim v fun w => w.join useOr v) else l.lookup d
  := lookup_put c d l (Analysis.putContext useOr c v) _ rfl fun _ _ => if_congr beq_iff_eq rfl rfl

namespace Notes

def contextsAt (s : Notes) (i : Nat) : List (LoopContext × Value) :=
  match s.getAt i .contextValues with
  | .values l => l
  | _ => []

def contextOf (s : Notes) (t : Tree) (c : LoopContext) : Option Value :=
  (s.ids[t.ref]?).bind fun i => (s.contextsAt i).lookup c

def joinValue (s : Notes) (i : Nat) (useOr : Bool) (v : Value) : Notes :=
  s.setAt i .staticValue (.value (((s.getAt i .staticValue).value?.getD .absent).join useOr v))

def joinContext (s : Notes) (i : Nat) (useOr : Bool) (c : LoopContext) (v : Value) : Notes :=
  s.setAt i .contextValues (.values (Analysis.putContext useOr c v (s.contextsAt i)))

def addValue (s : Notes) (i : Nat) (useOr : Bool) (c : Option LoopContext) (v : Value) : Notes :=
  c.elim (s.joinValue i useOr v) fun c => (s.joinValue i useOr v).joinContext i useOr c v

variable {s s' : Notes} {t : Tree} {i : Nat} {useOr : Bool} {v w : Value} {c : LoopContext}

theorem contextsAt_congr (same : s'.getAt i .contextValues = s.getAt i .contextValues) :
  s'.contextsAt i = s.contextsAt i
  := by rw [contextsAt, contextsAt, same]

section

variable (s : Notes) (i : Nat) (useOr : Bool) (c : LoopContext) (d : Option LoopContext) (v : Value)

theorem joinValue_includes :
  ∃ u, ((s.joinValue i useOr v).getAt i .staticValue).value? = some u ∧ u.includes v = true ∧
    ∀ w, (s.getAt i .staticValue).value? = some w → u.includes w = true
  := by
  rw [joinValue, getAt_setAt, if_pos ⟨rfl, rfl⟩]
  refine ⟨_, rfl, Value.join_includes_right .., fun w noted => ?_⟩
  rw [noted]
  exact Value.join_includes_left ..

theorem addValue_includes :
  ∃ u, ((s.addValue i useOr d v).getAt i .staticValue).value? = some u ∧ u.includes v = true
  := by
  obtain ⟨u, noted, includes, -⟩ := s.joinValue_includes i useOr v
  refine ⟨u, ?_, includes⟩
  cases d with
  | none => exact noted
  | some c =>
    change ((joinContext _ i useOr c v).getAt i .staticValue).value? = _
    rw [joinContext, getAt_setAt, if_neg fun both => by cases both.2]
    exact noted

theorem contextsAt_joinContext :
  (s.joinContext i useOr c v).contextsAt i = Analysis.putContext useOr c v (s.contextsAt i)
  := by rw [joinContext, contextsAt, getAt_setAt, if_pos ⟨rfl, rfl⟩]

theorem joinContext_includes :
  ∃ u, ((s.joinContext i useOr c v).contextsAt i).lookup c = some u ∧ u.includes v = true
  := by
  rw [contextsAt_joinContext, lookup_putContext, if_pos rfl]
  refine ⟨_, rfl, ?_⟩
  cases (s.contextsAt i).lookup c with
  | none => exact v.includes_refl
  | some w => exact Value.join_includes_right ..

theorem joinContext_keeps (j : Nat) {d : LoopContext} (noted : (s.contextsAt j).lookup d = some w) :
  ∃ u, ((s.joinContext i useOr c v).contextsAt j).lookup d = some u ∧ u.includes w = true
  := by
  by_cases same : j = i
  · subst same
    rw [contextsAt_joinContext, lookup_putContext]
    split
    · rename_i isC
      subst isC
      rw [noted]
      exact ⟨_, rfl, Value.join_includes_left ..⟩
    · exact ⟨w, noted, w.includes_refl⟩
  · rw [contextsAt_congr (s := s)]
    · exact ⟨w, noted, w.includes_refl⟩
    · rw [joinContext, getAt_setAt, if_neg fun both => same both.1]

end

/-- Of the values that expressions are noted with for the iterations of loops none is lost. -/
structure ContextsKept (s s' : Notes) : Prop where
  ids (r : Nat) {i : Nat} : s.ids[r]? = some i → s'.ids[r]? = some i
  kept (i : Nat) {c : LoopContext} {v : Value} : (s.contextsAt i).lookup c = some v →
    ∃ u, (s'.contextsAt i).lookup c = some u ∧ u.includes v = true

/-- The value that an expression is noted with is not lost. -/
structure ValueKept (t : Tree) (s s' : Notes) : Prop where
  ids (r : Nat) {i : Nat} : s.ids[r]? = some i → s'.ids[r]? = some i
  kept {i : Nat} {v : Value} : s.ids[t.ref]? = some i → (s.getAt i .staticValue).value? = some v →
    ∃ u, (s'.getAt i .staticValue).value? = some u ∧ u.includes v = true

theorem ContextsKept.trans {s'' : Notes} (first : s.ContextsKept s') (second : s'.ContextsKept s'') :
  s.ContextsKept s''
  := by
  refine ⟨fun r i known => second.ids r (first.ids r known), fun i c v noted => ?_⟩
  obtain ⟨u, noted, includes⟩ := first.kept i noted
  obtain ⟨w, noted, includes'⟩ := second.kept i noted
  exact ⟨w, noted, Value.includes_trans includes' includes⟩

theorem ValueKept.trans {s'' : Notes} (first : s.ValueKept t s') (second : s'.ValueKept t s'') :
  s.ValueKept t s''
  := by
  refine ⟨fun r i known => second.ids r (first.ids r known), fun {i v} known noted => ?_⟩
  obtain ⟨u, noted, includes⟩ := first.kept known noted
  obtain ⟨w, noted, includes'⟩ := second.kept (first.ids _ known) noted
  exact ⟨w, noted, Value.includes_trans includes' includes⟩

theorem contextsKept_of_agree (agree : s.Agree [.contextValues] s') : s.ContextsKept s' := by
  refine ⟨agree.ids, fun i c v noted => ⟨v, ?_, v.includes_refl⟩⟩
  rw [contextsAt_congr (agree.notes i (by decide))]
  exact noted

theorem valueKept_of_agree (t : Tree) (agree : s.Agree [.staticValue] s') : s.ValueKept t s' := by
  refine ⟨agree.ids, fun {i v} known noted => ⟨v, ?_, v.includes_refl⟩⟩
  rw [agree.notes i (by decide)]
  exact noted

theorem contextsKept_addValue (s : Notes) (i : Nat) (useOr : Bool) (c : Option LoopContext)
    (v : Value) : s.ContextsKept (s.addValue i useOr c v)
  := by
  have first : s.ContextsKept (s.joinValue i useOr v) :=
    contextsKept_of_agree (s.agree_setAt i (by decide) _)
  cases c with
  | none => exact first
  | some c =>
    apply first.trans
    exact ⟨fun _ _ known => known, fun j _ _ noted => joinContext_keeps _ i useOr c v j noted⟩

theorem valueKept_addValue (t : Tree) (s : Notes) (i : Nat) (useOr : Bool) (c : Option LoopContext)
    (v : Value) : s.ValueKept t (s.addValue i useOr c v)
  := by
  have first : s.ValueKept t (s.joinValue i useOr v) := by
    refine ⟨fun _ _ known => known, fun {j w} _ noted => ?_⟩
    by_cases same : j = i
    · subst same
      obtain ⟨u, found, -, old⟩ := s.joinValue_includes j useOr v
      exact ⟨u, found, old w noted⟩
    · rw [joinValue, getAt_setAt, if_neg fun both => same both.1]
      exact ⟨w, noted, w.includes_refl⟩
  cases c with
  | none => exact first
  | some c => exact first.trans (valueKept_of_agree t (agree_setAt _ i (by decide) _))

end Notes

abbrev contexts : Ledger where
  names := [.contextValues]
  lasting := by decide
  Sound _ := True
  Holds := Notes.ContextsKept
  trans := .trans
  agree := Notes.contextsKept_of_agree
  sound _ _ := trivial

abbrev valueAt (t : Tree) : Ledger where
  names := [.staticValue]
  lasting := by decide
  Sound _ := True
  Holds := Notes.ValueKept t
  trans := .trans
  agree := Notes.valueKept_of_agree t
  sound _ _ := trivial

/-- What tells the iterations of loops apart at the current point, inside of loops only. -/
def Machine.context? (m : Machine) : Option LoopContext :=
  if m.session.loops.isEmpty then none
  else
    let all := m.session.loops.reverse
    let n := m.setting.options.maxLoopNesting
    some (if n ≤ 0 then all.drop n.natAbs else all.drop (all.length - n.toNat))

namespace Analysis

set_option synthInstance.maxSize 100000

open Notes

variable {α : Type} {t u : Tree} {v : Value} {m m' : Machine} {F : Notes}

def withValue (m : Machine) (t : Tree) (v : Value) : Notes :=
  (m.notes.mark t).2.addValue (m.notes.mark t).1 m.setting.options.useOr m.context? v

theorem noteValue_apply (t : Tree) (v : Value) (m : Machine) :
  noteValue t v m = .ok () { m with notes := withValue m t v }
  := by
  have known := m.notes.mark_ids t
  rw [noteValue, options_bind, note_bind, bind_of_ok (setNote_known known _ _), session_bind, withValue,
    Machine.context?]
  cases loops : m.session.loops.isEmpty with
  | true => rfl
  | false =>
    simp only [Bool.not_false, if_true, Bool.false_eq_true, if_false]
    rw [bind_of_ok (note_known known _)]
    exact setNote_known known _ _

theorem noting_of_values {c : Ledger} (values : ∀ n ∈ c.names, n ∈ [NoteName.staticValue, .contextValues])
    (kept : ∀ s i useOr d v, c.Holds s (s.addValue i useOr d v)) : Noting (keeping c.Noted)
  := by
  have other {n : NoteName} (absent : n ∉ [NoteName.staticValue, .contextValues]) : n ∉ c.names :=
    fun listed => absent (values n listed)
  have targets : ∀ n ∈ [NoteName.targetBody, .targetParams, .targetsAgree],
    n ∉ [NoteName.staticValue, .contextValues] := by decide
  refine ⟨fun site x => ⟨noted_evalCode (other (by decide)) site x⟩,
    fun site => obeys_noteTarget_of fun n target w => ⟨noted_setNote site (other (targets n target)) w⟩,
    fun t v => ⟨.step fun m => ⟨(), _, noteValue_apply t v m, ?_⟩⟩⟩
  exact c.trans (c.agree (m.notes.agree_mark _ t)) (kept ..)

instance : Noting (keeping contexts.Noted)
  := noting_of_values (by decide) contextsKept_addValue

instance : Noting (keeping (valueAt t).Noted) := by
  apply noting_of_values
  · change ∀ n ∈ [NoteName.staticValue], n ∈ _
    decide
  · exact valueKept_addValue t

instance : Comparing (keeping contexts.Noted)
  := ⟨obeys_compareValues_of fun i => ⟨.change fun m =>
    contexts.agree (m.notes.agree_eraseAt i (by decide))⟩⟩

/-! ### Looking at values -/

def observed (p : Tree → Option LoopContext → Value → Bool) (t : Tree) (x : Analysis Value) :
    Analysis Value := do
  let v ← x
  let m ← get
  require (p t m.context? v)
  return v

def observing (p : Tree → Option LoopContext → Value → Bool) : Nat → Engine
  | 0 => engine 0
  | n + 1 =>
    { expr := fun t => observed p t (evalExpr (observing p n) t)
      exec := fun t hoisting => execStatement (observing p n) t hoisting
      invoke := fun callee site args this => invoke (observing p n) callee site args this
      program := fun t text => runProgram (observing p n) t text }

theorem observed_true (t : Tree) (x : Analysis Value) : observed (fun _ _ _ => true) t x = x := by
  funext m
  rw [observed]
  change EStateM.bind x _ m = _
  rw [EStateM.bind]
  split
  · rename_i ended
    exact ended.symm
  · rename_i interrupted
    exact interrupted.symm

theorem observing_true (n : Nat) : observing (fun _ _ _ => true) n = engine n := by
  induction n with
  | zero => rfl
  | succ n ih =>
    rw [observing, ih]
    simp only [observed_true]
    rfl

theorem evalExpr_noted {r : Engine} (run : evalExpr r t m = .ok v m') :
  v = .bot ∨ t.isNull = true ∨
    ∃ m1 : Machine, m1.context? = m'.context? ∧ ∀ c : Ledger, c.Holds (withValue m1 t v) m'.notes
  := by
  rw [evalExpr, isBottom_bind] at run
  split at run
  · exact .inl (pure_eq_ok.1 run).1
  right
  split at run
  · rename_i isNull
    exact .inl isNull
  right
  obtain ⟨w, m1, -, run⟩ := bind_eq_ok.1 run
  rw [bind_of_ok (noteValue_apply t w m1)] at run
  have value : v = w := by
    rw [changeState_bind] at run
    split at run
    · rw [session_bind] at run
      split at run
      · obtain ⟨_, m2, -, run⟩ := bind_eq_ok.1 run
        exact (pure_eq_ok.1 run).1
      · exact (pure_eq_ok.1 run).1
    · exact (pure_eq_ok.1 run).1
  subst value
  have around := Keeps.ended (R := Machine.Onward Eq) run
  refine ⟨m1, ?_, fun c => Keeps.ended (R := c.Noted) run⟩
  rw [Machine.context?, Machine.context?, around.setting, ← around.loops]

/-- What a test of values asks is told by the notes in the end: it passes where there is no value, and
where a value was noted that the notes in the end go back to. -/
structure Told (c : Ledger) (F : Notes) (p : Tree → Option LoopContext → Value → Bool) : Prop where
  nothing (t : Tree) (d : Option LoopContext) : p t d .bot = true
  null {t : Tree} : t.isNull = true → ∀ d v, p t d v = true
  noted (m : Machine) (t : Tree) (v : Value) : c.Holds (withValue m t v) F → p t m.context? v = true

section

variable {c : Ledger} {p : Tree → Option LoopContext → Value → Bool} [Noting (keeping c.Noted)]

theorem foresees_observed (told : Told c F p) (r r' : Engine) [(foresight c F).Follows r r']
    (t : Tree) : Foresees c F (evalExpr r t) (observed p t (evalExpr r' t))
  := by
  have inner : Foresees c F (evalExpr r t) (evalExpr r' t) :=
    (Congruence.related_evalExpr (foresight c F) r r' t).rel
  refine ⟨inner.keeps, ?_, ?_⟩
  · intro m v m' run sound holds
    have passes : p t m'.context? v = true := by
      obtain rfl | isNull | ⟨m1, context, noted⟩ := evalExpr_noted run
      · exact told.nothing t _
      · exact told.null isNull _ _
      · rw [← context]
        exact told.noted m1 t v (c.trans (noted c) holds)
    rw [observed, bind_of_ok (inner.ended run sound holds), get_bind,
      bind_of_ok (require_eq_ok.2 ⟨passes, rfl⟩)]
    rfl
  · intro m site m' run sound holds
    exact bind_of_error (inner.abandoned run sound holds)

theorem foresees_observing [Comparing (keeping c.Noted)] (told : Told c F p) (n : Nat) :
  (foresight c F).Follows (engine n) (observing p n)
  := by
  induction n with
  | zero => exact foresees_stopped
  | succ n ih =>
    refine foresees_step (engine n) (observing p n) rfl rfl
      (foresees_observed told (engine n) (observing p n)) (fun t hoisting => ?_)
      fun callee site args this => ?_
    all_goals apply foresees_of_related
    · exact Congruence.related_statement _ (engine n) (observing p n) t hoisting
    · exact foresees_invoke (engine n) (observing p n) callee site args this

end

/-! ### Values that are taken away -/

def retaining (t u : Tree) (p : LoopProgress) : Analysis Unit := do
  let before ← get
  settled (noteUnrolled u p)
  let after ← get
  require ((before.notes.valueOf t).isNone || (after.notes.valueOf t).isSome)

def loopStatement (noting : Tree → LoopProgress → Analysis Unit) (r : Engine) (t : Tree) :
    Analysis Unit := do
  let start := loopStart r t
  let parts := loopParts r t
  if ← isBottom then return ()
  enterStatement t
  whole t (if t.kind == .forInStatement then do
    setLive (t.get .left)
    setLive (t.get .right)
    loopNoting noting t start (parts true) patience
  else loopNoting noting t start (parts false) patience)

/-- The engine that follows loops in such a way that the value which `t` is noted with is not taken
away. -/
def attentive (t : Tree) : Nat → Engine
  | 0 => engine 0
  | n + 1 =>
    { expr := fun u => evalExpr (attentive t n) u
      exec := fun u hoisting =>
        if isLoop u then loopStatement (retaining t) (attentive t n) u
        else execStatement (attentive t n) u hoisting
      invoke := fun callee site args this => invoke (attentive t n) callee site args this
      program := fun u text => runProgram (attentive t n) u text }

theorem execStatement_eq_loopStatement (r : Engine) (hoisting : Bool) (loops : isLoop t = true) :
  execStatement r t hoisting = loopStatement noteUnrolled r t
  := by
  have kinds : t.kind = .whileStatement ∨ t.kind = .forStatement ∨ t.kind = .forInStatement := by
    simpa [isLoop, or_assoc] using loops
  unfold execStatement loopStatement
  obtain kind | kind | kind := kinds
  all_goals rw [kind]; rfl

/-- Values that expressions are noted with are not changed, other than taken away. -/
abbrev withdrawals : Ledger where
  names := [.staticValue]
  lasting := by decide
  Sound _ := True
  Holds s s' := (∀ r i, s.ids[r]? = some i → s'.ids[r]? = some i) ∧
    ∀ i v, (s'.getAt i .staticValue).value? = some v → (s.getAt i .staticValue).value? = some v
  trans first second := ⟨fun r i known => second.1 r i (first.1 r i known),
    fun i v noted => first.2 i v (second.2 i v noted)⟩
  agree agree := ⟨fun r i => agree.ids r, fun i v noted => by rwa [agree.notes i (by decide)] at noted⟩
  sound _ _ := trivial

instance : Comparing (keeping withdrawals.Noted) := by
  refine ⟨obeys_compareValues_of fun i => ⟨.change fun m => ⟨fun _ _ known => known, fun j v => ?_⟩⟩⟩
  rw [getAt_eraseAt]
  split
  · intro none
    cases none
  · exact id

theorem valueKept_of_isSome {s s' : Notes} (kept : withdrawals.Holds s s')
    (present : ((s.valueOf t).isNone || (s'.valueOf t).isSome) = true) : s.ValueKept t s'
  := by
  refine ⟨fun r i => kept.1 r i, fun {i v} known noted => ?_⟩
  rw [valueOf, known, Option.bind_some, noted, valueOf, kept.1 _ _ known, Option.bind_some] at present
  obtain ⟨w, noted'⟩ := Option.isSome_iff_exists.1 (by simpa using present)
  have same := kept.2 i w noted'
  rw [noted] at same
  exact ⟨w, noted', Option.some.inj same ▸ v.includes_refl⟩

theorem foresees_retaining (t u : Tree) (p : LoopProgress) :
  Foresees (valueAt t) F (retaining t u p) (noteUnrolled u p)
  := by
  have ended {m m' : Machine} (run : retaining t u p m = .ok () m') :
      noteUnrolled u p m = .ok () m' ∧ m.notes.ValueKept t m'.notes := by
    rw [retaining, get_bind] at run
    obtain ⟨_, m1, noted, run⟩ := bind_eq_ok.1 run
    obtain ⟨present, rfl⟩ := require_eq_ok.1 run
    replace noted := settled_eq_ok.1 noted
    have kept : Keeps withdrawals.Noted (noteUnrolled u p) := inferInstance
    exact ⟨noted, valueKept_of_isSome (kept.ended noted) present⟩
  have get : Steady (get : Analysis Machine) := steady_step
  have steady : Steady (retaining t u p) := by
    unfold retaining require
    infer_instance
  refine ⟨⟨fun run => (ended run).2, fun run => absurd run Steady.steady⟩, ?_, ?_⟩
  · exact fun run _ _ => (ended run).1
  · exact fun run => absurd run Steady.steady

theorem foresees_loopStatement (r r' : Engine) [(foresight (valueAt t) F).Follows r r'] (u : Tree) :
  (foresight (valueAt t) F).Related (loopStatement (retaining t) r u) (loopStatement noteUnrolled r' u)
  := by
  have noted (p : LoopProgress) : (foresight (valueAt t) F).Related (retaining t u p)
      (noteUnrolled u p) := ⟨foresees_retaining t u p⟩
  have loops (isForIn : Bool) : (foresight (valueAt t) F).Related
      (loopNoting (retaining t) u (loopStart r u) (loopParts r u isForIn) patience)
      (loopNoting noteUnrolled u (loopStart r' u) (loopParts r' u isForIn) patience) :=
    (Congruence.loops_loopParts _ r r' u isForIn).related_loopNoting u noted patience
  unfold loopStatement
  infer_instance

theorem foresees_attentive {p : Tree → Option LoopContext → Value → Bool}
    (told : Told (valueAt t) F p) (n : Nat) :
  (foresight (valueAt t) F).Follows (attentive t n) (observing p n)
  := by
  induction n with
  | zero => exact foresees_stopped
  | succ n ih =>
    refine foresees_step (attentive t n) (observing p n) rfl rfl
      (foresees_observed told (attentive t n) (observing p n)) (fun u hoisting => ?_)
      fun callee site args this => ?_
    all_goals apply foresees_of_related
    · change (foresight _ _).Related (if isLoop u then _ else _) (execStatement _ u hoisting)
      split
      · rename_i loops
        rw [execStatement_eq_loopStatement _ hoisting loops]
        exact foresees_loopStatement (attentive t n) (observing p n) u
      · rename_i other
        exact Congruence.related_statement_of _ (attentive t n) (observing p n) u hoisting
          fun loops => absurd loops other
    · exact foresees_invoke (attentive t n) (observing p n) callee site args this

/-! ### Values and the notes in the end -/

def inContext (F : Notes) (t : Tree) (d : Option LoopContext) (v : Value) : Bool :=
  v == .bot || t.isNull || d.all fun d => (F.contextOf t d).any fun w => w.includes v

def overall (t : Tree) (F : Notes) (u : Tree) (_ : Option LoopContext) (v : Value) : Bool :=
  v == .bot || u.isNull || u.ref != t.ref || (F.valueOf t).any fun w => w.includes v

theorem told_inContext (F : Notes) : Told contexts F (inContext F)
  where
  nothing t d := rfl
  null isNull d v := by rw [inContext, isNull, Bool.or_true, Bool.true_or]
  noted m t v kept := by
    rw [inContext, Bool.or_eq_true]
    right
    cases context : m.context? with
    | none => rfl
    | some d =>
      obtain ⟨u, noted, includes⟩ := joinContext_includes ((m.notes.mark t).2.joinValue
        (m.notes.mark t).1 m.setting.options.useOr v) (m.notes.mark t).1 m.setting.options.useOr d v
      rw [withValue, context] at kept
      obtain ⟨w, noted', includes'⟩ := kept.kept _ noted
      have known : F.ids[t.ref]? = some (m.notes.mark t).1 := kept.ids _ (m.notes.mark_ids t)
      rw [Option.all_some, contextOf, known, Option.bind_some, noted', Option.any_some]
      exact Value.includes_trans includes' includes

theorem told_overall (t : Tree) (F : Notes) : Told (valueAt t) F (overall t F)
  where
  nothing u d := rfl
  null isNull d v := by rw [overall, isNull, Bool.or_true, Bool.true_or, Bool.true_or]
  noted m u v kept := by
    rw [overall, Bool.or_eq_true, Bool.or_eq_true]
    by_cases same : u.ref = t.ref
    · right
      have known : (withValue m u v).ids[t.ref]? = some (m.notes.mark u).1 := by
        rw [← same, withValue]
        cases m.context? <;> exact m.notes.mark_ids u
      obtain ⟨w, noted, includes⟩ := (m.notes.mark u).2.addValue_includes (m.notes.mark u).1
        m.setting.options.useOr m.context? v
      obtain ⟨w', noted', includes'⟩ := kept.kept known noted
      rw [valueOf, kept.ids _ known, Option.bind_some, noted', Option.any_some]
      exact Value.includes_trans includes' includes
    · exact .inl (.inr (bne_iff_ne.2 same))

end Analysis

open Analysis

theorem analyze_of_attentive {options : Options} {isQuiet : Bool} {source : Text} {o : Outcome}
    {t : Tree} (retained : analyzeBy (attentive t patience) options isQuiet source = .ok o) :
  analyze options isQuiet source = .ok o
  := by
  have told : Told (valueAt t) o.machine.notes fun _ _ _ => true :=
    ⟨fun _ _ => rfl, fun _ _ _ => rfl, fun _ _ _ _ => rfl⟩
  have run := analyzeBy_foresees (c := valueAt t) (fun _ _ => trivial)
    (foresees_attentive told patience) retained
  rwa [observing_true, analyzeBy_engine] at run

/-- Each value of an expression inside of loops is included in what is noted on the expression for the
iterations of these loops.  If what is noted on an expression over all its evaluations is never taken
away, which happens where the iterations of a loop are compared with earlier ones, then each of its
values is included in that. -/
theorem evaluations_are_covered {options : Options} {isQuiet : Bool} {source : Text} {o : Outcome}
    (run : analyze options isQuiet source = .ok o) :
  analyzeBy (observing (inContext o.machine.notes) patience) options isQuiet source = .ok o ∧
    ∀ t o', analyzeBy (attentive t patience) options isQuiet source = .ok o' →
      analyzeBy (observing (overall t o.machine.notes) patience) options isQuiet source = .ok o
  := by
  constructor
  · exact analyzeBy_foresees (c := contexts) (fun _ _ => trivial)
      (foresees_observing (told_inContext _) patience) run
  · intro t o' retained
    obtain rfl : o = o' := Except.ok.inj (run.symm.trans (analyze_of_attentive retained))
    exact analyzeBy_foresees (c := valueAt t) (fun _ _ => trivial)
      (foresees_attentive (told_overall t _) patience) retained

/-! ### A loop that is run with two copies of a function -/

/-- A loop takes away the value that the result of a function is noted with. -/
def twoCopies : Text :=
  let copy := "eval('function f(x) \x7b return x; \x7d'); "
  Text.ofString ("function l(g, a) \x7b while (g(a)) \x7b\x7d \x7d " ++ copy ++ "h = f; l(f, 0); "
    ++ copy ++ "l(f, ''); h('q');")

def innerStatement (t : Tree) : Tree :=
  let f := (t.get .body).items.headD .null
  ((f.get .body).get .body).items.headD .null

def loopTestOf (o : Outcome) : Tree := (innerStatement o.tree).get .test

def copyResultOf (o : Outcome) : Tree :=
  let first := (((o.tree.get .body).items.drop 1).headD .null).get .expression
  (innerStatement ((o.machine.notes.programOf first).getD .null)).get .argument

set_option maxRecDepth 20000 in
theorem twoCopies_outcome :
  ∃ o, analyze {} true twoCopies = .ok o ∧
    (∃ o', analyzeBy (attentive (loopTestOf o) patience) {} true twoCopies = .ok o') ∧
    failure? (analyzeBy (observing (overall (copyResultOf o) o.machine.notes) patience) {} true
      twoCopies) = some (.broken "")
  := by
  have found : (analyze {} true twoCopies).toOption.any (fun o =>
      (analyzeBy (attentive (loopTestOf o) patience) {} true twoCopies).toOption.any (fun _ => true) &&
        failure? (analyzeBy (observing (overall (copyResultOf o) o.machine.notes) patience) {} true
          twoCopies) == some (.broken "")) = true := by
    simp only [twoCopies, Text.ofString, String.reduceAppend, String.reduceToList, List.map, Char.reduceToNat]
    decide +kernel
  obtain ⟨o, run, found⟩ := except_any_eq_true found
  obtain ⟨retained, failed⟩ := Bool.and_eq_true_iff.1 found
  obtain ⟨o', retained, -⟩ := except_any_eq_true retained
  exact ⟨o, run, ⟨o', retained⟩, beq_iff_eq.1 failed⟩

/-- The test of the loop is noted with all its values. -/
theorem evaluations_are_covered_twoCopies :
  ∃ o, analyze {} true twoCopies = .ok o ∧
    (∃ o', analyzeBy (attentive (loopTestOf o) patience) {} true twoCopies = .ok o') ∧
    analyzeBy (observing (inContext o.machine.notes) patience) {} true twoCopies = .ok o ∧
    analyzeBy (observing (overall (loopTestOf o) o.machine.notes) patience) {} true twoCopies = .ok o
  := by
  obtain ⟨o, run, ⟨o', retained⟩, -⟩ := twoCopies_outcome
  have covered := evaluations_are_covered run
  exact ⟨o, run, ⟨o', retained⟩, covered.1, covered.2 _ o' retained⟩

/-- The result of the first copy is not noted with all its values. -/
theorem evaluations_are_lost :
  ∃ o, analyze {} true twoCopies = .ok o ∧
    analyzeBy (observing (overall (copyResultOf o) o.machine.notes) patience) {} true twoCopies =
      .error (.broken "")
  := by
  obtain ⟨o, run, -, failed⟩ := twoCopies_outcome
  exact ⟨o, run, except_eq_error failed⟩

end ScriptLens
