import ScriptLens.Proofs.Pass.Tour

/-!
# Walks in step

Two passes may keep different states, and one may change what the other one leaves alone.
-/

namespace ScriptLens

open Edit

/-- What walks find in a draft they find in another one. -/
structure Draft.Alike (d e : Draft) : Prop where
  record : ∀ p r, d.recordAt? p = some r → ∃ r', e.recordAt? p = some r' ∧ r'.kind = r.kind ∧
    ∀ a : Attr, a.Plain → r'.attrs.lookup a = r.attrs.lookup a
  list : ∀ l, e.listAt l = d.listAt l

namespace Draft.Alike

variable {d d' e : Draft} {p : Nat} {a : Attr} {x : Item} (alike : d.Alike e)

include alike

theorem kind {k : Kind} (run : kind p d = .ok k d') : kind p e = .ok k e := by
  obtain ⟨r, d1, found, ended⟩ := bind_eq_ok.1 run
  obtain ⟨isRecord, rfl⟩ := record_eq_ok.1 found
  cases ended
  obtain ⟨r', isRecord', kind, -⟩ := alike.record p r isRecord
  apply bind_eq_ok.2
  exact ⟨r', e, record_eq_ok.2 ⟨isRecord', rfl⟩, pure_eq_ok.2 ⟨kind.symm, rfl⟩⟩

theorem attr (plain : a.Plain) (run : attr p a d = .ok x d') : attr p a e = .ok x e := by
  obtain ⟨r, d1, found, ended⟩ := bind_eq_ok.1 run
  obtain ⟨isRecord, rfl⟩ := record_eq_ok.1 found
  cases ended
  obtain ⟨r', isRecord', -, attrs⟩ := alike.record p r isRecord
  apply bind_eq_ok.2
  refine ⟨r', e, record_eq_ok.2 ⟨isRecord', rfl⟩, pure_eq_ok.2 ⟨?_, rfl⟩⟩
  rw [attrs a plain]

theorem child {q : Nat} (plain : a.Plain) (run : child p a d = .ok q d') :
  child p a e = .ok q e
  := by
  obtain ⟨x, d1, read, ended⟩ := bind_eq_ok.1 run
  refine bind_eq_ok.2 ⟨x, e, alike.attr plain read, ?_⟩
  cases x with
  | place q' =>
    cases ended
    rfl
  | _ => cases ended

theorem isTrue {b : Bool} (plain : a.Plain) (run : isTrue p a d = .ok b d') :
  isTrue p a e = .ok b e
  := by
  obtain ⟨x, d1, read, ended⟩ := bind_eq_ok.1 run
  refine bind_eq_ok.2 ⟨x, e, alike.attr plain read, ?_⟩
  cases x with
  | _ =>
    cases ended
    rfl

theorem itemsOf {xs : List Item} (plain : a.Plain) (run : itemsOf p a d = .ok xs d') :
  itemsOf p a e = .ok xs e
  := by
  obtain ⟨x, d1, read, ended⟩ := bind_eq_ok.1 run
  obtain ⟨-, rfl⟩ := attr_eq_ok read
  refine bind_eq_ok.2 ⟨x, e, alike.attr plain read, ?_⟩
  cases x with
  | list l =>
    obtain ⟨rfl, -⟩ := items_eq_ok ended
    rw [← alike.list l]
    rfl
  | _ => cases ended

end Draft.Alike

namespace Pass

variable {σ τ α β γ δ : Type}

/-- What relates the states and drafts of two passes.  The first pass is lost in states that it does not
get out of again; what it does then says nothing about the second pass. -/
structure Lockstep (σ τ : Type) where
  rel : σ → Draft → τ → Draft → Prop
  lost : σ → Prop
  alike : ∀ {s d t e}, rel s d t e → d.Alike e

/-- Where the first computation ends, the second one ends, with a result that goes together with that of
the first one, unless the first one got lost. -/
structure Steps (L : Lockstep σ τ) (out : α → β → Prop) (x : Walk σ α) (y : Walk τ β) : Prop where
  lost {s : σ} {d : Draft} {a : α} {s' : σ} {d' : Draft} : L.lost s → x s d = .ok (a, s') d' → L.lost s'
  steps {s : σ} {d : Draft} {t : τ} {e : Draft} {a : α} {s' : σ} {d' : Draft} : L.rel s d t e →
    x s d = .ok (a, s') d' →
    (∃ b t' e', y t e = .ok (b, t') e' ∧ L.rel s' d' t' e' ∧ out a b) ∨ L.lost s'

def whatever (_ : α) (_ : β) : Prop := True

namespace Steps

variable {L : Lockstep σ τ} {out : γ → δ → Prop}

theorem pure {a : α} {b : β} {out : α → β → Prop} (result : out a b) :
  Steps L out (pure a : Walk σ α) (pure b : Walk τ β)
  := by
  constructor
  · intro s d a' s' d' lost run
    cases run
    exact lost
  · intro s d t e a' s' d' rel run
    cases run
    exact .inl ⟨b, t, e, rfl, rel, result⟩

theorem bind {out1 : α → β → Prop} {x : Walk σ α} {y : Walk τ β} {f : α → Walk σ γ} {g : β → Walk τ δ}
    (first : Steps L out1 x y) (rest : ∀ a b, out1 a b → Steps L out (f a) (g b))
    (loses : ∀ a, ∃ b, Steps L out (f a) (g b)) : Steps L out (x >>= f) (y >>= g)
  := by
  constructor
  · intro s d c s' d' lost run
    obtain ⟨a, s1, d1, run1, run2⟩ := bind_eq_ok.1 run
    obtain ⟨b, second⟩ := loses a
    exact second.lost (first.lost lost run1) run2
  · intro s d t e c s' d' rel run
    obtain ⟨a, s1, d1, run1, run2⟩ := bind_eq_ok.1 run
    obtain ⟨b, t1, e1, follows, rel1, result⟩ | lost := first.steps rel run1
    · obtain ⟨b', t', e', follows', rel', result'⟩ | lost := (rest a b result).steps rel1 run2
      · exact .inl ⟨b', t', e', bind_eq_ok.2 ⟨b, t1, e1, follows, follows'⟩, rel', result'⟩
      · exact .inr lost
    · obtain ⟨b, second⟩ := loses a
      exact .inr (second.lost lost run2)

variable {x : Walk σ α} {f : α → Walk σ γ}

theorem same {y : Walk τ α} {g : α → Walk τ δ} (first : Steps L Eq x y)
    (rest : ∀ a, Steps L out (f a) (g a)) : Steps L out (x >>= f) (y >>= g)
  := by
  refine bind first ?_ fun a => ⟨a, rest a⟩
  rintro a _ rfl
  exact rest a

theorem any [Inhabited β] {y : Walk τ β} {g : β → Walk τ δ}
    (first : Steps L whatever x y) (rest : ∀ a b, Steps L out (f a) (g b)) :
  Steps L out (x >>= f) (y >>= g)
  := bind first (fun a b _ => rest a b) fun a => ⟨default, rest a default⟩

theorem last [Inhabited β] {f : α → γ} {y : Walk τ β} {g : β → δ} (first : Steps L whatever x y) :
  Steps L whatever (do return f (← x)) (do return g (← y))
  := .any first fun _ _ => .pure trivial

theorem ite {c : Prop} [Decidable c] {x x' : Walk σ γ} {y y' : Walk τ δ} (yes : Steps L out x y)
    (no : Steps L out x' y') : Steps L out (if c then x else x') (if c then y else y')
  := by
  split
  · exact yes
  · exact no

theorem read {x : Edit α} (reads : ∀ {d e a d'}, d.Alike e → x d = .ok a d' → d' = d ∧ x e = .ok a e) :
  Steps L Eq (liftM x : Walk σ α) (liftM x : Walk τ α)
  := by
  constructor
  · intro s d a s' d' lost run
    obtain ⟨-, rfl⟩ := lift_eq_ok.1 run
    exact lost
  · intro s d t e a s' d' rel run
    obtain ⟨isRead, rfl⟩ := lift_eq_ok.1 run
    obtain ⟨rfl, follows⟩ := reads (L.alike rel) isRead
    exact .inl ⟨a, t, e, lift_eq_ok.2 ⟨follows, rfl⟩, rel, rfl⟩

variable {p : Nat} {a : Attr}

theorem kind : Steps L Eq (liftM (kind p) : Walk σ Kind) (liftM (kind p) : Walk τ Kind)
  := read fun alike isRead => ⟨(kind_eq_ok isRead).2, alike.kind isRead⟩

theorem attr (plain : a.Plain := by decide) :
  Steps L Eq (liftM (attr p a) : Walk σ Item) (liftM (attr p a) : Walk τ Item)
  := read fun alike isRead => ⟨(attr_eq_ok isRead).2, alike.attr plain isRead⟩

theorem child (plain : a.Plain := by decide) :
  Steps L Eq (liftM (child p a) : Walk σ Nat) (liftM (child p a) : Walk τ Nat)
  := read fun alike isRead => ⟨(child_eq_ok isRead).2, alike.child plain isRead⟩

theorem isTrue (plain : a.Plain := by decide) :
  Steps L Eq (liftM (isTrue p a) : Walk σ Bool) (liftM (isTrue p a) : Walk τ Bool)
  := read fun alike isRead => ⟨(isTrue_eq_ok isRead).2, alike.isTrue plain isRead⟩

theorem itemsOf (plain : a.Plain := by decide) :
  Steps L Eq (liftM (itemsOf p a) : Walk σ (List Item)) (liftM (itemsOf p a) : Walk τ (List Item))
  := read fun alike isRead => ⟨(itemsOf_eq_ok isRead).2.2, alike.itemsOf plain isRead⟩

theorem placeOf {x : Item} : Steps L Eq (placeOf x : Walk σ Nat) (placeOf x : Walk τ Nat) := by
  cases x with
  | place q => exact .pure rfl
  | _ =>
    constructor
    · intro s d a s' d' lost run
      cases run
    · intro s d t e a s' d' rel run
      cases run

end Steps

/-! ### Walks -/

/-- Two ways to walk go together. -/
structure Walker.Steps (L : Lockstep σ τ) (w : Walker σ) (v : Walker τ) : Prop where
  expr : ∀ x, Pass.Steps L whatever (w.expr x) (v.expr x)
  stmt : ∀ x, Pass.Steps L whatever (w.stmt x) (v.stmt x)

section

variable {L : Lockstep σ τ} {w : Walker σ} {v : Walker τ} {p : Nat}

variable {f : Item → Walk σ Effects} {g : Item → Walk τ Effects}

theorem steps_each (walks : ∀ x, Steps L whatever (f x) (g x)) (l : List Item) :
  Steps L whatever (each f l) (each g l)
  := by
  induction l with
  | nil => exact .pure trivial
  | cons x l ih => exact .any (walks x) fun _ _ => .last ih

theorem steps_optional {a : Attr} (walks : ∀ x, Steps L whatever (f x) (g x))
    (plain : a.Plain := by decide) :
  Steps L whatever (optional f p a) (optional g p a)
  := .same (.attr plain) fun x => .ite (.pure trivial) (.last (walks x))

variable (walks : w.Steps L v)

include walks

theorem steps_properties (l : List Item) : Steps L whatever (properties w l) (properties v l) := by
  induction l with
  | nil => exact .pure trivial
  | cons x l ih =>
    refine .same .placeOf fun q => .any ?_ fun _ _ => .last ih
    refine .same .isTrue fun _ => .ite ?_ (.same .kind fun _ => .ite ?_ (.pure trivial))
    · exact .same .attr fun x => .last (walks.expr x)
    · exact .same .attr fun x => .last (walks.expr x)

theorem steps_arguments (l : List Item) : Steps L whatever (arguments w l) (arguments v l) := by
  induction l with
  | nil => exact .pure trivial
  | cons x l ih =>
    refine .same .placeOf fun q => .any (.same .kind fun _ => .ite ?_ (.pure trivial)) fun _ _ => ?_
    · exact .last (walks.stmt x)
    · exact .any (walks.expr x) fun _ _ => .last ih

theorem steps_member :
  Steps L whatever
    (do
      let o ← w.expr (← attr p .object)
      if ← isTrue p .computed then return [o, ← w.expr (← attr p .property)]
      else return [o])
    (do
      let o ← v.expr (← attr p .object)
      if ← isTrue p .computed then return [o, ← v.expr (← attr p .property)]
      else return [o])
  := by
  refine .same .attr fun x => .any (walks.expr x) fun _ _ => ?_
  refine .same .isTrue fun _ => .ite ?_ (.pure trivial)
  exact .same .attr fun x => .last (walks.expr x)

theorem steps_assignmentParts : Steps L whatever (assignmentParts w p) (assignmentParts v p) := by
  refine .same .child fun q => .any ?_ fun _ _ => ?_
  · exact .same .kind fun _ => .ite (steps_member walks) (.pure trivial)
  · exact .same .attr fun x => .last (walks.expr x)

theorem steps_parts (as : List Attr) (plain : ∀ a ∈ as, a.Plain := by decide) :
  Steps L whatever (parts w p as) (parts v p as)
  := by
  induction as with
  | nil => exact .pure trivial
  | cons a as ih =>
    refine .same (.attr (plain a List.mem_cons_self)) fun x => .any (walks.expr x) fun _ _ => ?_
    exact .last (ih fun b member => plain b (List.mem_cons_of_mem _ member))

theorem steps_exprParts (p : Nat) : Steps L whatever (exprParts w p) (exprParts v p) := by
  have list (a : Attr) (plain : a.Plain) : Steps L whatever
      (liftM (itemsOf p a) >>= each w.expr) (liftM (itemsOf p a) >>= each v.expr) :=
    .same (.itemsOf plain) fun l => steps_each walks.expr l
  have body : Steps L whatever (do return [← w.stmt (← attr p .body)])
      (do return [← v.stmt (← attr p .body)]) :=
    .same .attr fun x => .last (walks.stmt x)
  refine .same .kind fun k => ?_
  cases k with
  | unaryExpression | updateExpression | awaitExpression => exact steps_parts walks [.argument]
  | binaryExpression | logicalExpression => exact steps_parts walks [.left, .right]
  | conditionalExpression => exact steps_parts walks [.test, .consequent, .alternate]
  | sequenceExpression | arrayExpression => exact list _ (by decide)
  | memberExpression => exact steps_member walks
  | assignmentExpression => exact steps_assignmentParts walks
  | objectExpression => exact .same .itemsOf (steps_properties walks)
  | newExpression =>
    exact .same .attr fun x => .any (walks.expr x) fun _ _ => list _ (by decide)
  | functionExpression => exact body
  | arrowFunctionExpression =>
    refine .same .isTrue fun _ => .ite ?_ body
    exact .same .attr fun x => .last (walks.expr x)
  | callExpression =>
    refine .same .attr fun x => .any (walks.expr x) fun _ _ => ?_
    exact .same .itemsOf fun l => .last (steps_arguments walks l)
  | _ => exact .pure trivial

theorem steps_declarations (l : List Item) : Steps L whatever (declarations w l) (declarations v l)
  := by
  induction l with
  | nil => exact .pure trivial
  | cons x l ih =>
    refine .same .placeOf fun q => .same .child fun i => .any ?_ fun _ _ => ?_
    · refine .same .kind fun _ => .ite ?_ (.pure trivial)
      exact .same .itemsOf (steps_properties walks)
    · refine .same .attr fun x => .any ?_ fun _ _ => .last ih
      exact .ite (.pure trivial) (.last (walks.expr x))

theorem steps_headPart (x : Item) : Steps L whatever (headPart w x) (headPart v x) := by
  cases x with
  | place q =>
    refine .same .kind fun _ => .ite ?_ ?_
    · exact .last (walks.stmt _)
    · exact .last (walks.expr _)
  | _ => exact .pure trivial

theorem steps_cases (l : List Item) (last : Nat) :
  Steps L (fun a b => a.1 = b.1) (cases w last l) (cases v last l)
  := by
  induction l generalizing last with
  | nil => exact .pure rfl
  | cons x l ih =>
    refine .same .placeOf fun q => .same .attr fun x => .any (walks.expr x) fun _ _ => ?_
    refine .same .itemsOf fun body => .any (steps_each walks.stmt body) fun _ _ => ?_
    refine .bind (ih _) ?_ ?_
    · rintro ⟨last, rs⟩ ⟨_, rs'⟩ rfl
      exact .pure rfl
    · exact fun found => ⟨(found.1, []), .pure rfl⟩

theorem steps_stmtParts (p : Nat) : Steps L (fun a b => a.1 = b.1) (stmtParts w p) (stmtParts v p)
  := by
  have stmt (a : Attr) (plain : a.Plain) : Steps L (fun a b => a.1 = b.1)
      (do return (p, [← w.stmt (← attr p a)])) (do return (p, [← v.stmt (← attr p a)])) :=
    .same (.attr plain) fun x => .any (walks.stmt x) fun _ _ => .pure rfl
  have stmts : Steps L (fun a b => a.1 = b.1)
      (do return (p, ← each w.stmt (← itemsOf p .body)))
      (do return (p, ← each v.stmt (← itemsOf p .body))) :=
    .same .itemsOf fun l => .any (steps_each walks.stmt l) fun _ _ => .pure rfl
  have loop (rs rs' : List Effects) : Steps L (fun a b => a.1 = b.1)
      (do return (p, rs ++ [← w.stmt (← attr p .body)]))
      (do return (p, rs' ++ [← v.stmt (← attr p .body)])) :=
    .same .attr fun x => .any (walks.stmt x) fun _ _ => .pure rfl
  refine .same .kind fun k => ?_
  cases k with
  | variableDeclaration =>
    exact .same .itemsOf fun l => .any (steps_declarations walks l) fun _ _ => .pure rfl
  | expressionStatement =>
    exact .any (steps_parts walks [.expression]) fun _ _ => .pure rfl
  | throwStatement => exact .any (steps_parts walks [.argument]) fun _ _ => .pure rfl
  | returnStatement => exact .any (steps_optional walks.expr) fun _ _ => .pure rfl
  | functionDeclaration | tryStatement | classDeclaration => exact stmt _ (by decide)
  | blockStatement | classBody => exact stmts
  | ifStatement =>
    refine .same .attr fun x => .any (walks.expr x) fun _ _ => ?_
    refine .same .attr fun x => .any (walks.stmt x) fun _ _ => ?_
    exact .any (steps_optional walks.stmt) fun _ _ => .pure rfl
  | whileStatement =>
    refine .same .attr fun x => .any (walks.expr x) fun r r' => ?_
    exact loop [r] [r']
  | forStatement =>
    refine .any (steps_optional (steps_headPart walks)) fun _ _ => ?_
    refine .any (steps_optional walks.expr) fun _ _ => ?_
    exact .any (steps_optional (steps_headPart walks)) fun _ _ => loop _ _
  | switchStatement =>
    refine .same .attr fun x => .any (walks.expr x) fun _ _ => ?_
    refine .same .itemsOf fun l => .bind (steps_cases walks l p) ?_ ?_
    · rintro ⟨last, rs⟩ ⟨_, rs'⟩ rfl
      exact .pure rfl
    · exact fun found => ⟨(found.1, []), .pure rfl⟩
  | methodDefinition =>
    refine .same .child fun key => .any ?_ fun _ _ => ?_
    · exact .same .kind fun _ => .ite (.last (walks.expr _)) (.pure trivial)
    · refine .same .child fun q => .same .attr fun x => ?_
      exact .any (walks.stmt x) fun _ _ => .pure rfl
  | forInStatement =>
    refine .same .attr fun x => .any (steps_headPart walks x) fun l l' => ?_
    exact .same .attr fun x => .any (steps_headPart walks x) fun r r' => loop [l, r] [l', r']
  | _ => exact .pure rfl

end

/-- What two passes do at a place goes together. -/
structure InStep (L : Lockstep σ τ) (pass : Pass σ) (pass' : Pass τ) : Prop where
  beforeExpr : ∀ p, Steps L Eq (pass.beforeExpr p) (pass'.beforeExpr p)
  beforeStmt : ∀ p, Steps L Eq (pass.beforeStmt p) (pass'.beforeStmt p)
  afterExpr : ∀ p rs rs', Steps L whatever (pass.afterExpr p rs) (pass'.afterExpr p rs')
  afterStmt : ∀ p rs rs', Steps L whatever (pass.afterStmt p rs) (pass'.afterStmt p rs')
  afterProgram : ∀ l, Steps L whatever (pass.afterProgram l) (pass'.afterProgram l)

namespace InStep

variable {L : Lockstep σ τ} {pass : Pass σ} {pass' : Pass τ} (inStep : InStep L pass pass')

include inStep

theorem steps_walker (n : Nat) : (walker pass n).Steps L (walker pass' n) := by
  induction n with
  | zero => constructor <;> intro x <;> constructor <;> intros <;> contradiction
  | succ n ih =>
    constructor
    · intro x
      cases x with
      | place p =>
        refine .same (inStep.beforeExpr p) fun b => ?_
        cases b with
        | false => exact .pure trivial
        | true => exact .any (steps_exprParts ih p) (inStep.afterExpr p)
      | _ => exact .pure trivial
    · intro x
      refine .same .placeOf fun p => .same (inStep.beforeStmt p) fun b => ?_
      cases b with
      | false => exact .pure trivial
      | true =>
        refine .bind (steps_stmtParts ih p) ?_ ?_
        · rintro ⟨last, rs⟩ ⟨_, rs'⟩ rfl
          exact inStep.afterStmt last rs rs'
        · exact fun found => ⟨(found.1, []), inStep.afterStmt found.1 found.2 []⟩

theorem run {program : Nat} {s s' : σ} {t : τ} {d d' e : Draft} (rel : L.rel s d t e)
    (run : pass.run program s d = .ok s' d') :
  (∃ t' e', pass'.run program t e = .ok t' e' ∧ L.rel s' d' t' e') ∨ L.lost s'
  := by
  have inStep : Steps L whatever (overProgram pass program) (overProgram pass' program) := by
    refine .same .itemsOf fun l => ?_
    refine .any (steps_each (inStep.steps_walker patience).stmt l) fun _ _ => ?_
    refine .same .attr fun x => ?_
    cases x with
    | list n => exact inStep.afterProgram n
    | _ => exact .pure trivial
  obtain ⟨⟨u, s1⟩, d1, walked, ⟨⟩⟩ := Edit.bind_eq_ok.1 run
  obtain ⟨u', t', e', follows, rel', -⟩ | lost := inStep.steps rel walked
  · exact .inl ⟨t', e', Edit.bind_eq_ok.2 ⟨(u', t'), e', follows, rfl⟩, rel'⟩
  · exact .inr lost

end InStep

end Pass

end ScriptLens
