import ScriptLens.Proofs.While.Machine

/-!
# Expressions of the while-language

The analysis of an expression of the while-language is sound: the value that it finds covers every
value that the expression has in a store that the current state stands for, and all values that its
parts take are noted on them.
-/

namespace ScriptLens

open While Analysis List

/-- The nodes of a program: nodes with the same number have values of the same kind, and the parts
of a node are nodes. -/
structure While.Nodes (E : Tree → Prop) : Prop where
  consistent : ∀ t u, E t → E u → u.ref = t.ref → kindOf u = kindOf t
  attr : ∀ t a, E t → (t.get a).kind ≠ .record → E (t.get a)
  item : ∀ t a l s, E t → t.get a = .list l → s ∈ l → s.kind ≠ .record → E s

def Analysis.Changing (E : Tree → Prop) (k : Value.Kind) (x : Analysis Value)
    (T : Store → Concrete → List Event → Store → Prop) : Prop :=
  ∀ m v m', m.Tame E → m.state.isBottom = false → x m = .ok v m' →
    m.Leads E m' ∧ m'.state.isBottom = false ∧ v.In k ∧
    ∀ ρ c es ρ', m.state.Describes ρ → T ρ c es ρ' →
      v.Covers k c ∧ m'.state.Describes ρ' ∧ ∀ e ∈ es, m'.Noted e

namespace While

variable {E : Tree → Prop} {ρ : Store} {t : Tree} {c : Concrete} {es : List Event}

/-- The value of an expression itself is taken last; before it are those of its parts. -/
def Before (t : Tree) (T : Store → Concrete → List Event → Store → Prop) (ρ : Store) (c : Concrete)
    (fs : List Event) (ρ' : Store) : Prop :=
  T ρ c (fs ++ [(t, c)]) ρ'

theorem Condition.kind_plain (condition : Condition t) :
  t.kind ≠ .record ∧ t.kind ≠ .awaitExpression ∧ t.kind ≠ .callExpression
  := by
  cases condition with
  | comparison kind | negation kind => rw [kind]; decide
  | logical logical => rw [logical.1]; decide
  | arithmetic arithmetic =>
    cases arithmetic with
    | literal kind | name kind | unary kind | binary kind => rw [kind]; decide

theorem Condition.kind_ne (condition : Condition t) : t.kind ≠ .record
  := condition.kind_plain.1

theorem Arithmetic.kind_ne (arithmetic : Arithmetic t) : t.kind ≠ .record
  := (Condition.arithmetic arithmetic).kind_ne

variable {op x : Text} {o : UnaryOp}

theorem kindOf_unary (kind : t.kind = .unaryExpression)
    (operator : t.get .operator = .text op) (isOp : UnaryOp.ofText? op = some o) : kindOf t = o.kind
  := by
  rw [kindOf, kind, operator]
  simp only [Tree.text?, Option.getD_some, isOp, Option.map_some]

theorem kindOf_binary {o : BinaryOp} (kind : t.kind = .binaryExpression)
    (operator : t.get .operator = .text op) (isOp : BinaryOp.ofText? op = some o) :
  kindOf t = o.kind
  := by
  rw [kindOf, kind, operator]
  simp only [Tree.text?, Option.getD_some, isOp, Option.map_some]

theorem Arithmetic.kindOf_eq (arithmetic : Arithmetic t) : kindOf t = .data := by
  cases arithmetic with
  | literal kind | name kind => rw [kindOf, kind]
  | @unary _ _ o kind operator isOp differs =>
    rw [kindOf_unary kind operator isOp]
    cases o with
    | not => apply (differs rfl).elim
    | _ => rfl
  | @binary _ _ o kind operator isOp arithmetic =>
    rw [kindOf_binary kind operator isOp]
    cases o <;> first | rfl | cases arithmetic

theorem Evaluates.last (evaluates : Evaluates ρ t c es) : ∃ fs, es = fs ++ [(t, c)] := by
  cases evaluates with
  | literal | name => use []; rfl
  | unary | stop => refine ⟨_, rfl⟩
  | binary | goOn => refine ⟨_, rfl⟩

theorem Evaluates.kind_ne (evaluates : Evaluates ρ t c es) : t.kind ≠ .record := by
  cases evaluates with
  | literal kind | name kind | unary kind | binary kind => rw [kind]; nofun
  | stop logical | goOn logical => rw [logical.1]; nofun

theorem Evaluates.inside (nodes : Nodes E) (evaluates : Evaluates ρ t c es) : E t → ∀ e ∈ es, E e.1
  := by
  have joined : ∀ (es fs : List Event) (t : Tree) (c : Concrete), E t → (∀ e ∈ es, E e.1) → (∀ e ∈ fs, E e.1) →
      ∀ e ∈ es ++ fs ++ [(t, c)], E e.1 := by
    intro es fs t c isNode left right e member
    rcases mem_append.1 member with parts | itself
    · rcases mem_append.1 parts with inLeft | inRight
      · apply left e inLeft
      · apply right e inRight
    · obtain rfl := mem_singleton.1 itself
      apply isNode
  induction evaluates with
  | literal | name =>
    intro isNode e member
    obtain rfl := mem_singleton.1 member
    apply isNode
  | unary _ _ _ operand ih | stop _ operand _ ih =>
    intro isNode
    have parts := ih (nodes.attr _ _ isNode operand.kind_ne)
    apply joined [] _ _ _ isNode nofun parts
  | binary _ _ _ left right ihLeft ihRight | goOn _ left _ right ihLeft ihRight =>
    intro isNode
    apply joined _ _ _ _ isNode (ihLeft (nodes.attr _ _ isNode left.kind_ne))
    apply ihRight (nodes.attr _ _ isNode right.kind_ne)

/-! ### What the parts of an expression evaluate to -/

variable {fs : List Event}

theorem Evaluates.of_literal {v : Concrete} (kind : t.kind = .literal)
    (value : literal? (t.get .value) = some v) (evaluates : Evaluates ρ t c (fs ++ [(t, c)])) :
  c = v ∧ fs = []
  := by
  generalize whole : fs ++ [(t, c)] = es at evaluates
  cases evaluates with
  | literal _ value' =>
    cases value.symm.trans value'
    use rfl
    apply append_cancel_right (whole.trans (nil_append _).symm)
  | _ => simp_all [Logical]

theorem Evaluates.of_name (kind : t.kind = .identifier) (name : t.get .name = .text x)
    (evaluates : Evaluates ρ t c (fs ++ [(t, c)])) : c = ρ x ∧ fs = []
  := by
  generalize whole : fs ++ [(t, c)] = es at evaluates
  cases evaluates with
  | name _ name' =>
    obtain rfl := Tree.text.inj (name.symm.trans name')
    use rfl
    apply append_cancel_right (whole.trans (nil_append _).symm)
  | _ => simp_all [Logical]

theorem Evaluates.eq_of_name (kind : t.kind = .identifier) (name : t.get .name = .text x)
    (evaluates : Evaluates ρ t c es) : c = ρ x
  := by
  obtain ⟨fs, rfl⟩ := evaluates.last
  apply (evaluates.of_name kind name).1

theorem Evaluates.of_unary (kind : t.kind = .unaryExpression)
    (operator : t.get .operator = .text op) (isOp : UnaryOp.ofText? op = some o)
    (evaluates : Evaluates ρ t c (fs ++ [(t, c)])) :
  ∃ d, c = .unary o d ∧ Evaluates ρ (t.get .argument) d fs
  := by
  generalize whole : fs ++ [(t, c)] = es at evaluates
  cases evaluates with
  | unary _ operator' isOp' argument =>
    obtain rfl := Tree.text.inj (operator.symm.trans operator')
    cases isOp.symm.trans isOp'
    obtain rfl := append_cancel_right whole
    refine ⟨_, rfl, argument⟩
  | _ => simp_all [Logical]

theorem Evaluates.of_binary {o : BinaryOp} (kind : t.kind = .binaryExpression)
    (operator : t.get .operator = .text op) (isOp : BinaryOp.ofText? op = some o)
    (evaluates : Evaluates ρ t c (fs ++ [(t, c)])) :
  ∃ d e gs hs, c = .binary o d e ∧ Evaluates ρ (t.get .left) d gs ∧
    Evaluates ρ (t.get .right) e hs ∧ fs = gs ++ hs
  := by
  generalize whole : fs ++ [(t, c)] = es at evaluates
  cases evaluates with
  | binary _ operator' isOp' left right =>
    obtain rfl := Tree.text.inj (operator.symm.trans operator')
    cases isOp.symm.trans isOp'
    obtain rfl := append_cancel_right whole
    refine ⟨_, _, _, _, rfl, left, right, rfl⟩
  | _ => simp_all [Logical]

theorem Evaluates.of_logical {b : Bool} (logical : Logical t b)
    (evaluates : Evaluates ρ t c (fs ++ [(t, c)])) :
  ∃ d gs, Evaluates ρ (t.get .left) d gs ∧
    ((d.toBool = b ∧ c = d ∧ fs = gs) ∨
      (d.toBool = !b ∧ ∃ hs, Evaluates ρ (t.get .right) c hs ∧ fs = gs ++ hs))
  := by
  have only : ∀ b', Logical t b' → b' = b := by
    intro b' logical'
    have same := logical.2.symm.trans logical'.2
    cases b <;> cases b' <;> first | rfl | cases same
  generalize whole : fs ++ [(t, c)] = es at evaluates
  cases evaluates with
  | stop logical' left decides =>
    obtain rfl := only _ logical'
    obtain rfl := append_cancel_right whole
    refine ⟨_, _, left, .inl ⟨decides, rfl, rfl⟩⟩
  | goOn logical' left decides right =>
    obtain rfl := only _ logical'
    obtain rfl := append_cancel_right whole
    refine ⟨_, _, left, .inr ⟨decides, _, right, rfl⟩⟩
  | _ => simp_all [Logical]

end While

namespace Analysis

variable {E : Tree → Prop} {k l : Value.Kind} {x : Analysis Value} {t e : Tree}
  {S T : Store → Concrete → List Event → Store → Prop}

theorem Changing.mono (changing : Changing E k x T) (less : ∀ ρ c es ρ', S ρ c es ρ' → T ρ c es ρ') :
  Changing E k x S
  := by
  intro m v m' tame notBottom run
  obtain ⟨leads, stays, isIn, covers⟩ := changing m v m' tame notBottom run
  exact ⟨leads, stays, isIn, fun ρ c es ρ' describes evaluates =>
    covers ρ c es ρ' describes (less ρ c es ρ' evaluates)⟩

theorem Changing.mixed (changing : Changing E k x T) : Changing E .mixed x T := by
  intro m v m' tame notBottom run
  obtain ⟨leads, stays, isIn, covers⟩ := changing m v m' tame notBottom run
  refine ⟨leads, stays, .mixed isIn.simple, fun ρ c es ρ' describes evaluates => ?_⟩
  obtain ⟨isCovered, after⟩ := covers ρ c es ρ' describes evaluates
  exact ⟨isCovered.admits, after⟩

theorem Changing.result (results : ∀ m w m', x m = .ok w m' →
      m.Quiet m' ∧ w.In k ∧ ∀ ρ c es ρ', T ρ c es ρ' → w.Covers k c ∧ es = [] ∧ ρ' = ρ) :
  Changing E k x T
  := by
  intro m w m' tame notBottom run
  obtain ⟨quiet, isIn, covers⟩ := results m w m' run
  refine ⟨quiet.leads tame, quiet.state ▸ notBottom, isIn, fun ρ c es ρ' describes evaluates => ?_⟩
  obtain ⟨isCovered, rfl, rfl⟩ := covers ρ c es ρ' evaluates
  exact ⟨isCovered, quiet.state ▸ describes, nofun⟩

theorem Changing.followed {f : Value → Analysis Unit} [∀ v, Keeps Machine.Quiet (f v)]
    (changing : Changing E k x T) : Changing E k (do let v ← x; f v; return v) T
  := by
  intro m v m' tame notBottom run
  obtain ⟨w, m1, evaluated, run⟩ := bind_eq_ok.1 run
  obtain ⟨_, m2, followed, run⟩ := bind_eq_ok.1 run
  obtain ⟨rfl, rfl⟩ := EStateM.Result.ok.inj run
  obtain ⟨leads, stays, isIn, covers⟩ := changing m w m1 tame notBottom evaluated
  have quiet := quiet_run followed
  refine ⟨leads.trans (quiet.leads leads.tame), quiet.state ▸ stays, isIn, ?_⟩
  intro ρ c es ρ' describes evaluates
  obtain ⟨isCovered, still, noted⟩ := covers ρ c es ρ' describes evaluates
  refine ⟨isCovered, quiet.state ▸ still, fun e member => ?_⟩
  apply quiet.noted leads.tame.notes (noted e member)

theorem Changing.consuming (changing : Changing E k x T) : Changing E k (consuming x) T := by
  intro m v m' tame notBottom run
  obtain ⟨m1, m2, before, inner, after⟩ := consuming_run run
  rw [← before.state] at notBottom
  obtain ⟨leads, stays, isIn, covers⟩ := changing m1 v m2 (before.tame tame) notBottom inner
  have quiet := after leads.tame.state.pending
  refine ⟨(before.leads tame).trans (leads.trans (quiet.leads leads.tame)), quiet.state ▸ stays, isIn, ?_⟩
  intro ρ c es ρ' describes evaluates
  obtain ⟨isCovered, still, noted⟩ := covers ρ c es ρ' (before.state ▸ describes) evaluates
  refine ⟨isCovered, quiet.state ▸ still, fun e member => ?_⟩
  apply quiet.noted leads.tame.notes (noted e member)

theorem Changing.then {y : Value → Analysis Value}
    {V : Concrete → Store → Concrete → List Event → Store → Prop} (nodes : Nodes E) (isNode : E e)
    (first : Changing E l x (Tests e))
    (rest : ∀ v, v.In l → Changing E k (y v) fun ρ c hs ρ' => ∃ d, v.Covers l d ∧ V d ρ c hs ρ')
    (parts : ∀ ρ c es ρ', T ρ c es ρ' →
      ∃ d gs hs, Evaluates ρ e d gs ∧ es = gs ++ hs ∧ V d ρ c hs ρ') :
  Changing E k (do let v ← x; consume v; y v) T
  := by
  intro m w m' tame notBottom run
  obtain ⟨v, m1, evaluated, run⟩ := bind_eq_ok.1 run
  obtain ⟨leads1, stays1, isIn, covers⟩ := first m v m1 tame notBottom evaluated
  obtain ⟨_, m2, consumed, run⟩ := bind_eq_ok.1 run
  have quiet := quiet_run consumed
  have leads := leads1.trans (quiet.leads leads1.tame)
  obtain ⟨leads2, stays2, resultIn, covers2⟩ :=
    rest v isIn m2 w m' leads.tame (quiet.state ▸ stays1) run
  refine ⟨leads.trans leads2, stays2, resultIn, ?_⟩
  intro ρ c es ρ' describes evaluates
  obtain ⟨d, gs, hs, part, rfl, left⟩ := parts ρ c es ρ' evaluates
  obtain ⟨isCovered, still, noted⟩ := covers ρ d gs ρ describes ⟨part, rfl⟩
  obtain ⟨isCovered2, still2, noted2⟩ :=
    covers2 ρ c hs ρ' (quiet.state ▸ still) ⟨d, isCovered, left⟩
  refine ⟨isCovered2, still2, forall_mem_append.2 ⟨fun e member => ?_, noted2⟩⟩
  apply leads2.noted e (part.inside nodes isNode e member)
  apply quiet.noted leads1.tame.notes (noted e member)

/-- If the value of an expression that is nothing special is covered, then it is so after it was noted. -/
theorem Changing.evalExpr {r : Engine} (nodes : Nodes E) (isNode : E t)
    (plain : t.kind ≠ .record ∧ t.kind ≠ .awaitExpression ∧ t.kind ≠ .callExpression)
    (last : ∀ ρ c es ρ', T ρ c es ρ' → (∃ fs, es = fs ++ [(t, c)]) ∧ ∀ e ∈ es, E e.1)
    (changing : Changing E (kindOf t) (evalPlain r t) (Before t T)) :
  Changing E (kindOf t) (evalExpr r t) T
  := by
  obtain ⟨notRecord, notAwait, notCall⟩ := plain
  have same : evalAwaited r t = evalPlain r t ∧ t.isNull = false := by
    cases t with
    | node n l as =>
      refine ⟨?_, rfl⟩
      rw [evalAwaited]
      · rfl
      · rintro n' as' same
        apply notAwait (Tree.node.inj same).2.1
    | _ => apply (notRecord rfl).elim
  intro m v m' tame notBottom run
  rw [Analysis.evalExpr, isBottom_bind, notBottom, same.2, same.1, beq_false_of_ne notCall] at run
  simp only [Bool.false_eq_true, if_false] at run
  obtain ⟨w, m1, evaluated, run⟩ := bind_eq_ok.1 run
  obtain ⟨_, m2, annotated, run⟩ := bind_eq_ok.1 run
  obtain ⟨leads1, stays, isIn, covers⟩ := changing m w m1 tame notBottom evaluated
  obtain ⟨leads2, sameState, noted⟩ := noteValue_leads leads1.tame isNode
    (fun u insideU => nodes.consistent t u isNode insideU) isIn annotated
  rw [changeState_bind, hold_eq m2.state isIn.simple] at run
  obtain ⟨rfl, rfl⟩ := EStateM.Result.ok.inj run
  refine ⟨leads1.trans leads2, sameState ▸ stays, isIn, ?_⟩
  intro ρ c es ρ' describes evaluates
  obtain ⟨⟨fs, rfl⟩, inside⟩ := last ρ c es ρ' evaluates
  obtain ⟨isCovered, still, parts⟩ := covers ρ c fs ρ' describes evaluates
  refine ⟨isCovered, sameState ▸ still, forall_mem_append.2 ⟨fun e member => ?_, ?_⟩⟩
  · apply leads2.noted e (inside e (mem_append_left _ member)) (parts e member)
  · exact forall_mem_singleton.2 (noted c isCovered)

/-! ### The expressions one by one -/

variable {r : Engine}

theorem literalValue_plain {x : Tree} {c : Concrete} (value : literal? x = some c)
    (isLiteral : IsLiteral c) : (literalValue x).Plain ∧ (literalValue x).Holds c
  := by
  cases x <;> try cases value
  · exact ⟨.null, Value.holds_of_known rfl (.refl _)⟩
  · exact ⟨.num isLiteral, Value.holds_of_known rfl (.refl _)⟩
  · exact ⟨.num isLiteral, Value.holds_of_known rfl (.refl _)⟩
  · exact ⟨.text isLiteral, Value.holds_of_known rfl (.refl _)⟩

theorem changing_literal {v : Concrete} (kind : t.kind = .literal)
    (value : literal? (t.get .value) = some v) (isLiteral : IsLiteral v) :
  Changing E .data (evalPlain r t) (Before t (Tests t))
  := by
  apply Changing.result
  intro m w m' run
  rw [evalPlain, kind] at run
  cases run
  obtain ⟨plain, holds⟩ := literalValue_plain value isLiteral
  refine ⟨.refl m, .data plain, ?_⟩
  rintro ρ c fs _ ⟨evaluates, rfl⟩
  obtain ⟨rfl, rfl⟩ := evaluates.of_literal kind value
  exact ⟨holds, rfl, rfl⟩

theorem changing_name {x : Text} (kind : t.kind = .identifier) (name : t.get .name = .text x)
    (free : x ∉ reserved) : Changing E .data (evalPlain r t) (Before t (Tests t))
  := by
  intro m w m' tame notBottom run
  have shape := tame.state.shape notBottom
  obtain ⟨o, found, scope⟩ := shape.scope
  have defined : (Tree.text x).isText "undefined" = false := by
    rw [Tree.isText, beq_eq_false_iff_ne]
    intro same
    cases same
    apply free
    decide
  rw [evalPlain, kind] at run
  simp only [evalIdentifier, attr_bind, state_bind, tame.notes.attr_name, name, nameKey, defined,
    Bool.false_eq_true, if_false, lift_except_bind (shape.lookup_eq x), object_bind found,
    localId_bind shape.localId_eq, bne_self_eq_false] at run
  cases run
  refine ⟨tame.leads, notBottom, ?_, ?_⟩
  · apply Value.In.data
    cases present : o.get? (.text x) with
    | none => apply Value.Plain.top
    | some v => apply scope.plain free present
  · rintro ρ c fs _ describes ⟨evaluates, rfl⟩
    obtain ⟨rfl, rfl⟩ := evaluates.of_name kind name
    refine ⟨?_, describes, fun _ member => (not_mem_nil member).elim⟩
    cases present : o.get? (.text x) with
    | none => apply Value.holds_top
    | some v => apply describes.2 o found x v free present

variable {v : Value} {op : Text} {b : Bool}

theorem changing_unary {o : UnaryOp} (nodes : Nodes E) (kind : t.kind = .unaryExpression)
    (operator : t.get .operator = .text op) (isOp : UnaryOp.ofText? op = some o)
    (suits : o = .not ∨ kindOf (t.get .argument) = .data) (isNode : E (t.get .argument))
    (argument : Changing E (kindOf (t.get .argument)) (r.expr (t.get .argument))
      (Tests (t.get .argument))) :
  Changing E o.kind (evalPlain r t) (Before t (Tests t))
  := by
  have same : evalPlain r t = evalUnary r t := by rw [evalPlain, kind]
  rw [same, evalUnary]
  apply Changing.consuming
  apply argument.then nodes isNode (V := fun d ρ c hs ρ' => c = .unary o d ∧ hs = [] ∧ ρ' = ρ)
  · intro v isIn
    apply Changing.result
    intro m w m' run
    rw [scene_bind, options_bind, operator] at run
    obtain ⟨u, result, run⟩ := lift_except_bind_eq_ok.1 run
    obtain ⟨resultIn, sound⟩ := Scene.unary_sound isOp isIn suits result
    obtain ⟨_, m2, consumed, run⟩ := bind_eq_ok.1 run
    obtain ⟨rfl, rfl⟩ := EStateM.Result.ok.inj run
    refine ⟨Machine.Quiet.trans .aside (quiet_run consumed), resultIn, ?_⟩
    rintro ρ _ hs ρ' ⟨d, isCovered, rfl, rfl, rfl⟩
    exact ⟨(sound d isCovered).covers, rfl, rfl⟩
  · rintro ρ c fs _ ⟨evaluates, rfl⟩
    obtain ⟨d, rfl, part⟩ := evaluates.of_unary kind operator isOp
    exact ⟨d, fs, [], part, (append_nil fs).symm, rfl, rfl, rfl⟩

theorem changing_binary {o : BinaryOp} (nodes : Nodes E) (kind : t.kind = .binaryExpression)
    (operator : t.get .operator = .text op) (isOp : BinaryOp.ofText? op = some o) (noDivision : o ≠ .div)
    (isLeft : E (t.get .left)) (isRight : E (t.get .right))
    (left : Changing E .data (r.expr (t.get .left)) (Tests (t.get .left)))
    (right : Changing E .data (r.expr (t.get .right)) (Tests (t.get .right))) :
  Changing E o.kind (evalPlain r t) (Before t (Tests t))
  := by
  have same : evalPlain r t = evalBinary r t := by rw [evalPlain, kind]
  have notLogical : ∀ b : Bool, (op == Text.ofString (if b then "||" else "&&")) = false := by
    intro b
    rw [beq_eq_false_iff_ne]
    rintro rfl
    have noOp : BinaryOp.ofText? (if b then "||" else "&&" : String) = none := by
      cases b <;> decide
    rw [noOp] at isOp
    cases isOp
  have notAnd : (op == Text.ofString "&&") = false := notLogical false
  have notOr : (op == Text.ofString "||") = false := notLogical true
  rw [same, evalBinary, operator]
  simp only [Tree.text?, Option.getD_some, notAnd, notOr, Bool.false_eq_true, if_false]
  apply Changing.consuming
  apply left.then nodes isLeft
    (V := fun d ρ c hs ρ' => ∃ e, c = .binary o d e ∧ Evaluates ρ (t.get .right) e hs ∧ ρ' = ρ)
  · rintro v ⟨plain⟩
    apply right.then nodes isRight
      (V := fun e ρ c hs ρ' => (∃ d, v.Holds d ∧ c = .binary o d e) ∧ hs = [] ∧ ρ' = ρ)
    · rintro w ⟨plain'⟩
      apply Changing.result
      intro m u m' run
      rw [scene_bind, options_bind] at run
      obtain ⟨result, rfl⟩ := lift_except_eq_ok.1 run
      obtain ⟨resultIn, sound⟩ := Scene.binary_sound isOp noDivision plain plain' result
      refine ⟨.aside, resultIn, ?_⟩
      rintro ρ _ hs ρ' ⟨e, holds', ⟨d, holds, rfl⟩, rfl, rfl⟩
      exact ⟨(sound d e holds holds').covers, rfl, rfl⟩
    · rintro ρ _ hs _ ⟨d, holds, e, rfl, second, rfl⟩
      exact ⟨e, hs, [], second, (append_nil hs).symm, ⟨d, holds, rfl⟩, rfl, rfl⟩
  · rintro ρ c fs _ ⟨evaluates, rfl⟩
    obtain ⟨d, e, gs, hs, rfl, first, second, rfl⟩ := evaluates.of_binary kind operator isOp
    exact ⟨d, gs, hs, first, rfl, e, rfl, second, rfl⟩

theorem maybe_leads {m m' : Machine} (nodes : Nodes E) (isNode : E e) (tame : m.Tame E)
    (notBottom : m.state.isBottom = false)
    (changing : Changing E k (r.expr e) (Tests e)) (run : maybe r e m = .ok () m') :
  m.Leads E m' ∧ m'.state.isBottom = false ∧ ∀ ρ, m.state.Describes ρ → m'.state.Describes ρ ∧
    ∀ c es, Evaluates ρ e c es → ∀ ev ∈ es, m'.Noted ev
  := by
  rw [maybe, state_bind] at run
  obtain ⟨s, m1, cloned, run⟩ := bind_eq_ok.1 run
  obtain ⟨leads1, same1, mirrors⟩ := clone_leads tame tame.state cloned
  obtain ⟨⟨u, other⟩, m2, evaluated, run⟩ := bind_eq_ok.1 run
  obtain ⟨m3, inner, rfl, rfl⟩ := onState_eq_ok evaluated
  obtain ⟨v, m4, valued, consumed⟩ := bind_eq_ok.1 inner
  have onCopy := leads_setState leads1.tame mirrors.tame
  obtain ⟨leads2, stays, -, covers⟩ := changing _ v m4 onCopy.tame
    (mirrors.isBottom.trans notBottom) valued
  have quiet := quiet_run consumed
  have leads3 := quiet.leads leads2.tame
  have back := leads_setState leads3.tame leads1.tame.state
  simp only [state_bind] at run
  obtain ⟨joined, m5, result, run⟩ := bind_eq_ok.1 run
  cases run
  obtain ⟨leads4, -, joins⟩ := join_leads back.tame back.tame.state leads3.tame.state result
  have last := leads_setState leads4.tame joins.tame
  have later := leads3.trans (back.trans (leads4.trans last))
  refine ⟨leads1.trans (onCopy.trans (leads2.trans later)), ?_, ?_⟩
  · rw [joins.isBottom]
    change (m1.state.isBottom && _) = false
    rw [same1, notBottom]
    rfl
  · intro ρ describes
    constructor
    · apply joins.describes ρ
      left
      change m1.state.Describes ρ
      rw [same1]
      apply describes
    · intro c es evaluates ev member
      obtain ⟨-, -, noted⟩ := covers ρ c es ρ ((mirrors.describes ρ).2 describes) ⟨evaluates, rfl⟩
      apply later.noted ev (evaluates.inside nodes isNode ev member) (noted ev member)

/-- What remains of a logical operator after a value of its first operand. -/
def Rest (t : Tree) (b : Bool) (d : Concrete) (ρ : Store) (c : Concrete) (hs : List Event) (ρ' : Store) :
    Prop :=
  ((d.toBool = b ∧ c = d ∧ hs = []) ∨ (d.toBool = !b ∧ Evaluates ρ (t.get .right) c hs)) ∧ ρ' = ρ

theorem changing_undecided (nodes : Nodes E) (isNode : E (t.get .right))
    (right : Changing E k (r.expr (t.get .right)) (Tests (t.get .right))) :
  Changing E .mixed (do maybe r (t.get .right); return .top)
    fun ρ c hs ρ' => ∃ d, v.Covers l d ∧ Rest t b d ρ c hs ρ'
  := by
  intro m w m' tame notBottom run
  obtain ⟨_, m1, evaluated, run⟩ := bind_eq_ok.1 run
  cases run
  obtain ⟨leads, stays, covers⟩ := maybe_leads nodes isNode tame notBottom right evaluated
  refine ⟨leads, stays, .top _, ?_⟩
  rintro ρ c hs _ describes ⟨d, -, cases, rfl⟩
  obtain ⟨still, noted⟩ := covers _ describes
  refine ⟨Value.covers_top _ _, still, ?_⟩
  rcases cases with ⟨-, -, rfl⟩ | ⟨-, evaluates⟩
  · nofun
  · apply noted c hs evaluates

theorem changing_decided {truth : Bool} (isIn : v.In l) (isTruth : v.truth = .ok truth)
    (right : Changing E k (r.expr (t.get .right)) (Tests (t.get .right))) :
  Changing E .mixed
    (if truth = b then return v
      else do
        let w ← r.expr (t.get .right)
        consume w
        return w)
    fun ρ c hs ρ' => ∃ d, v.Covers l d ∧ Rest t b d ρ c hs ρ'
  := by
  split
  · rename_i stops
    subst stops
    apply Changing.result
    intro m w m' run
    cases run
    refine ⟨.refl m, .mixed isIn.simple, ?_⟩
    rintro ρ c hs _ ⟨d, covers, cases, rfl⟩
    have decided := isIn.toBool_of_truth covers isTruth
    rcases cases with ⟨-, rfl, rfl⟩ | ⟨other, -⟩
    · exact ⟨covers.admits, rfl, rfl⟩
    · rw [decided] at other
      cases truth <;> cases other
  · rename_i goesOn
    apply right.followed.mixed.mono
    rintro ρ c hs _ ⟨d, covers, ⟨same, -⟩ | ⟨-, evaluates⟩, rfl⟩
    · apply (goesOn ((isIn.toBool_of_truth covers isTruth).symm.trans same)).elim
    · exact ⟨evaluates, rfl⟩

theorem changing_logical (nodes : Nodes E) (logical : Logical t b) (isLeft : E (t.get .left))
    (isRight : E (t.get .right)) (left : Changing E l (r.expr (t.get .left)) (Tests (t.get .left)))
    (right : Changing E k (r.expr (t.get .right)) (Tests (t.get .right))) :
  Changing E .mixed (evalPlain r t) (Before t (Tests t))
  := by
  have same : evalPlain r t = evalBinary r t := by rw [evalPlain, logical.1]
  rw [same, evalBinary, logical.2]
  apply Changing.consuming
  apply left.then nodes isLeft (V := Rest t b)
  · intro v isIn m w m' tame notBottom run
    have notOr : v.isOr = false := by
      obtain ⟨a, rfl, -⟩ := isIn.simple.atom
      rfl
    suffices same : ∃ x, Changing E .mixed x (fun ρ c hs ρ' => ∃ d, v.Covers l d ∧ Rest t b d ρ c hs ρ') ∧
        x m = .ok w m' by
      obtain ⟨x, changing, run⟩ := same
      exact changing m w m' tame notBottom run
    cases b with
    | true =>
      simp only [if_true, Tree.text?, Option.getD_some] at run
      rw [if_neg (by decide), if_pos (by decide)] at run
      split at run
      · exact ⟨_, changing_undecided nodes isRight right, run⟩
      · obtain ⟨truth, isTruth, after⟩ := lift_except_bind_eq_ok.1 run
        exact ⟨_, changing_decided isIn isTruth right, after⟩
    | false =>
      simp only [Bool.false_eq_true, if_false, Tree.text?, Option.getD_some] at run
      rw [if_pos (by decide), notOr, Bool.or_false] at run
      split at run
      · exact ⟨_, changing_undecided nodes isRight right, run⟩
      · obtain ⟨truth, isTruth, after⟩ := lift_except_bind_eq_ok.1 run
        exact ⟨_, changing_decided isIn isTruth right, by cases truth <;> apply after⟩
  · rintro ρ c fs _ ⟨evaluates, rfl⟩
    obtain ⟨d, gs, first, ⟨stops, rfl, rfl⟩ | ⟨goesOn, hs, second, rfl⟩⟩ := evaluates.of_logical logical
    · exact ⟨c, fs, [], first, (append_nil fs).symm, .inl ⟨stops, rfl, rfl⟩, rfl⟩
    · exact ⟨d, gs, hs, first, rfl, .inr ⟨goesOn, second⟩, rfl⟩

def CoversExpressions (E : Tree → Prop) (r : Engine) : Prop :=
  ∀ e, E e → Condition e → Changing E (kindOf e) (r.expr e) (Tests e)

theorem CoversExpressions.arithmetic (covers : CoversExpressions E r) (isNode : E e)
    (arithmetic : Arithmetic e) : Changing E .data (r.expr e) (Tests e)
  := by
  rw [← arithmetic.kindOf_eq]
  apply covers e isNode (.arithmetic arithmetic)

theorem CoversExpressions.evalExpr (nodes : Nodes E) (covers : CoversExpressions E r) (e : Tree)
    (isNode : E e) (condition : Condition e) :
  Changing E (kindOf e) (evalExpr r e) (Tests e)
  := by
  apply Changing.evalExpr nodes isNode condition.kind_plain
    (fun ρ c es ρ' tests => ⟨tests.1.last, tests.1.inside nodes isNode⟩)
  have binary : ∀ {op : Text} {o : BinaryOp}, e.kind = .binaryExpression →
      e.get .operator = .text op → BinaryOp.ofText? op = some o → o ≠ .div →
      Arithmetic (e.get .left) → Arithmetic (e.get .right) →
      Changing E (kindOf e) (evalPlain r e) (Before e (Tests e)) := by
    intro op o kind operator isOp noDivision left right
    have isLeft := nodes.attr _ _ isNode left.kind_ne
    have isRight := nodes.attr _ _ isNode right.kind_ne
    rw [kindOf_binary kind operator isOp]
    apply changing_binary nodes kind operator isOp noDivision isLeft isRight
    · apply covers.arithmetic isLeft left
    · apply covers.arithmetic isRight right
  cases condition with
  | arithmetic arithmetic =>
    have isData := arithmetic.kindOf_eq
    cases arithmetic with
    | literal kind _ value isLiteral =>
      rw [isData]
      apply changing_literal kind value isLiteral
    | name kind _ name free =>
      rw [isData]
      apply changing_name kind name free
    | unary kind operator isOp differs argument =>
      have isArgument := nodes.attr _ _ isNode argument.kind_ne
      rw [kindOf_unary kind operator isOp]
      apply changing_unary nodes kind operator isOp (.inr argument.kindOf_eq) isArgument
      apply covers _ isArgument (.arithmetic argument)
    | binary kind operator isOp arithmetic left right =>
      apply binary kind operator isOp _ left right
      rintro rfl
      cases arithmetic
  | comparison kind operator isOp comparison left right =>
    apply binary kind operator isOp _ left right
    rintro rfl
    cases comparison
  | negation kind operator isOp argument =>
    have isArgument := nodes.attr _ _ isNode argument.kind_ne
    rw [kindOf_unary kind operator isOp]
    apply changing_unary nodes kind operator isOp (.inl rfl) isArgument
    apply covers _ isArgument argument
  | logical logical left right =>
    have isMixed : kindOf e = .mixed := by rw [kindOf, logical.1]
    have isLeft := nodes.attr _ _ isNode left.kind_ne
    have isRight := nodes.attr _ _ isNode right.kind_ne
    rw [isMixed]
    apply changing_logical nodes logical isLeft isRight
    · apply covers _ isLeft left
    · apply covers _ isRight right

end Analysis

end ScriptLens
