import ScriptLens.Proofs.While.Expression

/-!
# Variables of the while-language

An assignment gives a variable its value.  A condition that compares a variable with a known value
narrows it to that value, where the condition holds; this keeps the stores in which it does hold.
-/

namespace ScriptLens

open While Analysis EStateM.Result

/-! ### Changes of a variable -/

namespace State

variable {s : State} {f : Obj → Obj} {ρ ρ' : Store}

theorem Shape.updateObj (shape : s.Shape) (keeps : ∀ o, o.Scope → (f o).Scope) :
  (s.updateObj 0 f).Shape
  := by
  obtain ⟨o, found, scope⟩ := shape.scope
  refine ⟨shape.notBottom, shape.gref, shape.lref, shape.frames, shape.pending, shape.value, ?_, ?_⟩
  · rw [State.updateObj, Heap.lookup_update, if_pos rfl, found]
    exact ⟨f o, rfl, keeps o scope⟩
  · intro i p positive there
    rw [State.updateObj, Heap.lookup_update, if_neg (Ne.symm positive)] at there
    apply shape.heap i p positive there

theorem Describes.updateObj (shape : s.Shape) (describes : s.Describes ρ)
    (allows : ∀ o, o.Scope → o.Allows ρ → (f o).Allows ρ') : (s.updateObj 0 f).Describes ρ'
  := by
  obtain ⟨o, found, scope⟩ := shape.scope
  use describes.1
  intro p there
  rw [State.updateObj, Heap.lookup_update, if_pos rfl, found] at there
  cases there
  apply allows o scope (describes.2 o found)

end State

namespace Analysis

variable {E : Tree → Prop} {m m' : Machine} {r : Engine} {t : Tree} {x : Text}

theorem slot_name {s : Slot} (shape : m.state.Shape) (kind : t.kind = .identifier)
    (name : t.get .name = .text x) (run : slot r t m = .ok s m') :
  s = { holder := some (.inl 0), key := some (.text x), isMember := false } ∧ m' = m
  := by
  rw [slot, slotSteps, slotWithin, kind, name] at run
  simp only [state_bind, nameKey] at run
  rw [lift_except_bind (shape.lookup_eq x), localId_bind shape.localId_eq] at run
  cases run
  exact ⟨rfl, rfl⟩

variable {v : Value} {other : Tree} {same holds : Bool} {op : Text}

theorem assign_spec {e : Tree} (tame : m.Tame E) (notBottom : m.state.isBottom = false)
    (plain : v.Plain) (kind : t.kind = .identifier) (name : t.get .name = .text x)
    (free : x ∉ reserved) (run : assign r t (some e) v m = .ok () m') :
  m.Leads E m' ∧ m'.state.isBottom = false ∧
    ∀ ρ c, m.state.Describes ρ → v.Holds c → m'.state.Describes (ρ.set x c)
  := by
  have shape := tame.state.shape notBottom
  obtain ⟨s, m1, found, after⟩ := bind_eq_ok.1 run
  obtain ⟨rfl, rfl⟩ := slot_name shape kind name found
  rw [expose, bind_assoc] at after
  obtain ⟨a, m2, asked, last⟩ := bind_eq_ok.1 after
  have quiet := quiet_run asked
  obtain rfl : m' = { m2 with state := m2.state.updateObj 0 fun o =>
      (o.drop (.text x)).setMember (some (.text x)) v } := by
    cases isTrue : a.isTrue
    all_goals
      rw [isTrue] at last
      apply (ok.inj last).2.symm
  have shape2 : m2.state.Shape := quiet.state ▸ shape
  have changed := shape2.updateObj fun o (scope : o.Scope) =>
    (scope.drop (x := x)).setMember free plain
  have leads := quiet.leads tame
  refine ⟨leads.trans (leads_setState leads.tame changed.tame), changed.notBottom, ?_⟩
  intro ρ c describes holds
  rw [← quiet.state] at describes
  apply describes.updateObj shape2
  intro o scope allows
  apply scope.allows_assign allows holds

theorem changing_evalAssignment (assigns : Assigns t x)
    (right : Changing E .data (r.expr (t.get .right)) (Tests (t.get .right)))
    (inside : ∀ ρ c es, Evaluates ρ (t.get .right) c es → ∀ e ∈ es, E e.1) :
  Changing E .data (evalAssignment r t)
    fun ρ c es ρ' => Evaluates ρ (t.get .right) c es ∧ ρ' = ρ.set x c
  := by
  have equals : ((t.get .operator).text?.getD "").extract 0 1 == "=" := by
    rw [assigns.operator]
    rfl
  rw [evalAssignment]
  apply Changing.consuming
  intro m v m' tame notBottom run
  rw [if_pos equals] at run
  obtain ⟨w, m1, evaluated, run⟩ := bind_eq_ok.1 run
  obtain ⟨leads1, stays, ⟨plain⟩, covers⟩ := right m w m1 tame notBottom evaluated
  rw [isBottom_bind, stays] at run
  obtain ⟨_, m2, consumed, run⟩ := bind_eq_ok.1 run
  have quiet := quiet_run consumed
  have leads2 := leads1.trans (quiet.leads leads1.tame)
  obtain ⟨_, m3, assigned, last⟩ := bind_eq_ok.1 run
  obtain ⟨rfl, rfl⟩ := ok.inj last
  obtain ⟨leads3, stays3, stores⟩ := assign_spec leads2.tame (quiet.state ▸ stays) plain assigns.target
    assigns.name assigns.free assigned
  refine ⟨leads2.trans leads3, stays3, .data plain, ?_⟩
  rintro ρ c es _ describes ⟨evaluates, rfl⟩
  obtain ⟨holds, still, noted⟩ := covers ρ c es ρ describes ⟨evaluates, rfl⟩
  refine ⟨holds, stores ρ c (quiet.state ▸ still) holds, fun e member => ?_⟩
  apply leads3.noted e (inside ρ c es evaluates e member)
  apply quiet.noted leads1.tame.notes (noted e member)

theorem changing_evalExpr (nodes : Nodes E) (isNode : E t) (assigns : Assigns t x)
    (right : Changing E .data (r.expr (t.get .right)) (Tests (t.get .right))) :
  Changing E .data (evalExpr r t) (Stores t x)
  := by
  have inside : ∀ ρ c es, Evaluates ρ (t.get .right) c es → ∀ e ∈ es, E e.1 := by
    intro ρ c es evaluates
    apply evaluates.inside nodes (nodes.attr _ _ isNode evaluates.kind_ne)
  have isData : kindOf t = .data := by rw [kindOf, assigns.kind]
  have isAssignment : evalPlain r t = evalAssignment r t := by rw [evalPlain, assigns.kind]
  rw [← isData]
  apply Changing.evalExpr nodes isNode (by rw [assigns.kind]; decide)
  · rintro ρ c _ _ ⟨fs, rfl, evaluates, -⟩
    exact ⟨⟨fs, rfl⟩, List.forall_mem_append.2
      ⟨inside ρ c fs evaluates, List.forall_mem_singleton.2 isNode⟩⟩
  · rw [isData, isAssignment]
    apply (changing_evalAssignment assigns right inside).mono
    rintro ρ c fs _ ⟨gs, same, stored⟩
    rw [List.append_cancel_right same]
    exact stored

/-! ### Conditions that narrow a variable -/

theorem canNarrow_spec {b : Bool} (well : m.notes.Well) (run : canNarrow t other m = .ok b m') :
  m.Quiet m' ∧ (b = true → isNarrowable t = true ∧ ∃ v, m.notes.valueOf other = some v)
  := by
  rw [canNarrow] at run
  split at run
  · rename_i narrowable
    obtain ⟨a, m1, asked, run⟩ := bind_eq_ok.1 run
    cases run
    refine ⟨quiet_run asked, fun comparable => ⟨narrowable, ?_⟩⟩
    rw [← note_value well asked]
    cases known : a.value? with
    | none =>
      rw [known] at comparable
      cases comparable
    | some v => exact ⟨v, rfl⟩
  · cases run
    exact ⟨Machine.Quiet.refl m, nofun⟩

theorem comparison_spec {o : Option (Tree × Tree)} (well : m.notes.Well)
    (run : comparison t m = .ok o m') :
  m.Quiet m' ∧ ∀ target other, o = some (target, other) →
    isNarrowable target = true ∧ (∃ v, m.notes.valueOf other = some v) ∧
    ((target = t.get .left ∧ other = t.get .right) ∨ (target = t.get .right ∧ other = t.get .left))
  := by
  obtain ⟨b, m1, first, run⟩ := bind_eq_ok.1 run
  obtain ⟨quiet1, known1⟩ := canNarrow_spec well first
  cases b with
  | true =>
    cases run
    use quiet1
    intro target other same
    cases same
    obtain ⟨narrowable, noted⟩ := known1 rfl
    exact ⟨narrowable, noted, .inl ⟨rfl, rfl⟩⟩
  | false =>
    obtain ⟨b, m2, second, run⟩ := bind_eq_ok.1 run
    obtain ⟨quiet2, known2⟩ := canNarrow_spec (quiet1.well well) second
    cases b with
    | true =>
      cases run
      use quiet1.trans quiet2
      intro target other same
      cases same
      obtain ⟨narrowable, noted⟩ := known2 rfl
      rw [quiet1.values well] at noted
      exact ⟨narrowable, noted, .inr ⟨rfl, rfl⟩⟩
    | false =>
      cases run
      exact ⟨quiet1.trans quiet2, nofun⟩

theorem excludeChoice_eq {o : Obj} {k : Key} (found : m.state.objs.get? 0 = some o)
    (plain : ∀ w, o.get? k = some w → w.isOr = false) (run : excludeChoice 0 k v m = .ok () m') :
  m' = m
  := by
  rw [excludeChoice, object_bind found] at run
  cases value : o.get? k with
  | none =>
    rw [value] at run
    apply (ok.inj run).2.symm
  | some w =>
    have notOr := plain w value
    rw [value] at run
    cases w with
    | or => cases notOr
    | _ => apply (ok.inj run).2.symm

theorem narrowSide_spec (tame : m.Tame E)
    (notBottom : m.state.isBottom = false) (kind : t.kind = .identifier)
    (name : t.get .name = .text x) (free : x ∉ reserved) (noted : m.notes.valueOf other = some v)
    (plain : v.Plain) (run : narrowSide r t other same m = .ok () m') :
  m.Leads E m' ∧ m'.state.isBottom = false ∧
    ∀ ρ, m.state.Describes ρ → (same = true → v.Holds (ρ x)) → m'.state.Describes ρ
  := by
  have shape := tame.state.shape notBottom
  obtain ⟨s, m1, found, after⟩ := bind_eq_ok.1 run
  obtain ⟨rfl, rfl⟩ := slot_name shape kind name found
  obtain ⟨a, m2, asked, last⟩ := bind_eq_ok.1 after
  have quiet := quiet_run asked
  have value := note_value tame.notes asked
  rw [value, noted] at last
  have leads := quiet.leads tame
  have shape2 : m2.state.Shape := quiet.state ▸ shape
  cases same with
  | true =>
    cases last
    have changed := shape2.updateObj fun o (scope : o.Scope) => scope.put free plain
    refine ⟨leads.trans (leads_setState leads.tame changed.tame), changed.notBottom, ?_⟩
    intro ρ describes holds
    rw [← quiet.state] at describes
    apply describes.updateObj shape2
    intro o scope allows
    apply Obj.Scope.allows_narrow allows (holds rfl)
  | false =>
    obtain ⟨o, foundO, scope⟩ := shape2.scope
    have noChoice : ∀ w, o.get? (.text x) = some w → w.isOr = false := by
      intro w found
      cases scope.plain free found <;> rfl
    obtain rfl := excludeChoice_eq foundO noChoice last
    rw [quiet.state]
    exact ⟨leads, notBottom, fun ρ describes _ => describes⟩

theorem comparison_of_operator {o : BinaryOp} (condition : Condition t)
    (operator : t.get .operator = .text op) (isOp : BinaryOp.ofText? op = some o)
    (isComparison : isComparison o = true) (notUnary : UnaryOp.ofText? op = none)
    (notLogical : ∀ b : Bool, op ≠ if b then ("||" : Text) else "&&") :
  t.kind = .binaryExpression ∧ Arithmetic (t.get .left) ∧ Arithmetic (t.get .right)
  := by
  have unary : ∀ {op' : Text} {o' : UnaryOp}, t.get .operator = .text op' →
      UnaryOp.ofText? op' ≠ some o' := by
    intro op' o' operator' isOp'
    obtain rfl := Tree.text.inj (operator.symm.trans operator')
    rw [notUnary] at isOp'
    cases isOp'
  cases condition with
  | comparison kind _ _ _ left right => exact ⟨kind, left, right⟩
  | negation _ operator' isOp' => apply (unary operator' isOp').elim
  | logical logical =>
    apply (notLogical _ (Tree.text.inj (operator.symm.trans logical.2))).elim
  | arithmetic arithmetic =>
    cases arithmetic with
    | literal _ noOperator | name _ noOperator =>
      rw [operator] at noOperator
      cases noOperator
    | unary _ operator' isOp' => apply (unary operator' isOp').elim
    | binary _ operator' isOp' arithmetic =>
      obtain rfl := Tree.text.inj (operator.symm.trans operator')
      cases isOp.symm.trans isOp'
      cases o <;> simp only [isArithmetic, While.isComparison, Bool.false_eq_true] at *

theorem get_of_isText (isText : t.isText op = true) : t = .text op := by
  cases t with
  | text s => rw [Option.some.inj (beq_iff_eq.1 isText)]
  | _ => cases isText

theorem sameSides?_eq (condition : Condition t) (answer : sameSides? t holds = some same) :
  ∃ op o, t.kind = .binaryExpression ∧ t.get .operator = .text op ∧
    BinaryOp.ofText? op = some o ∧ Arithmetic (t.get .left) ∧ Arithmetic (t.get .right) ∧
    ∀ d e, (Concrete.binary o d e).toBool = holds → d.identical e = same
  := by
  rw [sameSides?] at answer
  split at answer
  · rename_i isText
    have operator := get_of_isText isText
    have isOp : BinaryOp.ofText? "===" = some .identical := by decide
    obtain ⟨kind, left, right⟩ :=
      comparison_of_operator condition operator isOp rfl (by decide) (by decide)
    refine ⟨_, _, kind, operator, isOp, left, right, ?_⟩
    intro d e holds
    rw [← Option.some.inj answer, ← holds]
    rfl
  · split at answer
    · rename_i isText
      have operator := get_of_isText isText
      have isOp : BinaryOp.ofText? "!==" = some .different := by decide
      obtain ⟨kind, left, right⟩ :=
        comparison_of_operator condition operator isOp rfl (by decide) (by decide)
      refine ⟨_, _, kind, operator, isOp, left, right, ?_⟩
      intro d e holds
      rw [← Option.some.inj answer, ← holds]
      apply (Bool.not_not _).symm
    · cases answer

theorem name_of_isNarrowable (arithmetic : Arithmetic t) (narrowable : isNarrowable t = true) :
  ∃ x, t.kind = .identifier ∧ t.get .name = .text x ∧ x ∉ reserved
  := by
  cases arithmetic with
  | name kind _ name free => exact ⟨_, kind, name, free⟩
  | literal kind | unary kind | binary kind =>
    rw [isNarrowable, kind] at narrowable
    cases narrowable

theorem holds_of_noted {ρ : Store} {c : Concrete} {es : List Event}
    (arithmetic : Arithmetic t) (evaluates : Evaluates ρ t c es) (noted : ∀ e ∈ es, m.Noted e)
    (value : m.notes.valueOf t = some v) : v.Holds c
  := by
  obtain ⟨fs, rfl⟩ := evaluates.last
  obtain ⟨w, value', covers⟩ := noted (t, c) (List.mem_append_right _ List.mem_cons_self)
  cases value.symm.trans value'
  rw [arithmetic.kindOf_eq] at covers
  apply covers

theorem narrowTo_spec (nodes : Nodes E) (isNode : E t) (condition : Condition t)
    (tame : m.Tame E) (notBottom : m.state.isBottom = false)
    (run : narrowTo r t holds m = .ok () m') :
  m.Leads E m' ∧ m'.state.isBottom = false ∧
    ∀ ρ c es, m.state.Describes ρ → Evaluates ρ t c es → (∀ e ∈ es, m.Noted e) →
      c.toBool = holds → m'.state.Describes ρ
  := by
  have unchanged : m' = m → m.Leads E m' ∧ m'.state.isBottom = false ∧
      ∀ ρ c es, m.state.Describes ρ → Evaluates ρ t c es → (∀ e ∈ es, m.Noted e) →
        c.toBool = holds → m'.state.Describes ρ := by
    rintro rfl
    exact ⟨tame.leads, notBottom, fun _ _ _ describes _ _ _ => describes⟩
  rw [narrowTo, options_bind] at run
  split at run
  · apply unchanged (ok.inj run).2.symm
  cases answer : sameSides? t holds with
  | none =>
    rw [answer] at run
    apply unchanged (ok.inj run).2.symm
  | some same =>
    rw [answer] at run
    obtain ⟨op, o, kind, operator, isOp, left, right, identical⟩ := sameSides?_eq condition answer
    obtain ⟨sides, m1, compared, run⟩ := bind_eq_ok.1 run
    obtain ⟨quiet, found⟩ := comparison_spec tame.notes compared
    have leads := quiet.leads tame
    cases sides with
    | none =>
      cases run
      rw [quiet.state]
      exact ⟨leads, notBottom, fun _ _ _ describes _ _ _ => describes⟩
    | some sides =>
      obtain ⟨target, other⟩ := sides
      obtain ⟨narrowable, ⟨v, noted⟩, isSides⟩ := found target other rfl
      have arithmetic : Arithmetic target ∧ Arithmetic other := by
        rcases isSides with ⟨rfl, rfl⟩ | ⟨rfl, rfl⟩
        · exact ⟨left, right⟩
        · exact ⟨right, left⟩
      have isNode' : E other := by
        rcases isSides with ⟨-, rfl⟩ | ⟨-, rfl⟩
        · apply nodes.attr _ _ isNode right.kind_ne
        · apply nodes.attr _ _ isNode left.kind_ne
      obtain ⟨x, isName, name, free⟩ := name_of_isNarrowable arithmetic.1 narrowable
      have plain : v.Plain := by
        have isIn := tame.kinds other v isNode' noted
        rw [arithmetic.2.kindOf_eq] at isIn
        cases isIn with
        | data plain => apply plain
      obtain ⟨leads2, stays, narrows⟩ := narrowSide_spec leads.tame (quiet.state ▸ notBottom) isName
        name free ((quiet.values tame.notes other).trans noted) plain run
      refine ⟨leads.trans leads2, stays, ?_⟩
      intro ρ c es describes evaluates allNoted isTrue
      rw [← quiet.state] at describes
      apply narrows ρ describes
      rintro rfl
      obtain ⟨fs, rfl⟩ := evaluates.last
      obtain ⟨d, e, gs, hs, rfl, first, second, rfl⟩ := evaluates.of_binary kind operator isOp
      have alike := Concrete.alike_of_identical (identical d e isTrue)
      obtain ⟨notedParts, -⟩ := List.forall_mem_append.1 allNoted
      obtain ⟨notedLeft, notedRight⟩ := List.forall_mem_append.1 notedParts
      rcases isSides with ⟨rfl, rfl⟩ | ⟨rfl, rfl⟩
      · rw [← first.eq_of_name isName name]
        apply (holds_of_noted right second notedRight noted).trans alike.symm
      · rw [← second.eq_of_name isName name]
        apply (holds_of_noted left first notedLeft noted).trans alike

end Analysis

end ScriptLens
