import Mathlib.Data.List.Basic
import ScriptLens.Builtin.Table
import ScriptLens.Proofs.Operator.Alike

/-!
# A while-language and its runs

The programs of a small language among those that can be parsed: assignments to global variables,
blocks, conditional statements, loops and `break`.
-/

namespace ScriptLens.While

/-! ### Syntax -/

def reserved : List Text :=
  "undefined" :: "__closure" :: Builtin.deferredName :: Builtin.symbols.map fun p => (p.1 : Text)

def isArithmetic : BinaryOp → Bool
  | .add | .sub | .mul | .rem | .xor | .or | .and | .shiftLeft | .shiftRight => true
  | _ => false

def isComparison : BinaryOp → Bool
  | .gt | .lt | .ge | .le | .eq | .ne | .identical | .different => true
  | _ => false

def literal? : Tree → Option Concrete
  | .int n => some (.num (.ofInt n))
  | .real x => some (.num x)
  | .text t => some (.text t)
  | .null => some .null
  | _ => none

def IsLiteral : Concrete → Prop
  | .num x => x.isNaN = false
  | .text t => t.NulFree
  | _ => True

def Logical (t : Tree) (stop : Bool) : Prop :=
  t.kind = .logicalExpression ∧ t.get .operator = .text (if stop then "||" else "&&")

/-- The expressions that compute numbers and texts. -/
inductive Arithmetic : Tree → Prop
  | literal {t : Tree} {v : Concrete} : t.kind = .literal → t.get .operator = .null →
      literal? (t.get .value) = some v → IsLiteral v → Arithmetic t
  | name {t : Tree} {x : Text} : t.kind = .identifier → t.get .operator = .null →
      t.get .name = .text x → x ∉ reserved → Arithmetic t
  | unary {t : Tree} {op : Text} {o : UnaryOp} : t.kind = .unaryExpression →
      t.get .operator = .text op → UnaryOp.ofText? op = some o → o ≠ .not →
      Arithmetic (t.get .argument) → Arithmetic t
  | binary {t : Tree} {op : Text} {o : BinaryOp} : t.kind = .binaryExpression →
      t.get .operator = .text op → BinaryOp.ofText? op = some o → isArithmetic o = true →
      Arithmetic (t.get .left) → Arithmetic (t.get .right) → Arithmetic t

/-- The expressions that conditions are made of. -/
inductive Condition : Tree → Prop
  | arithmetic {t : Tree} : Arithmetic t → Condition t
  | comparison {t : Tree} {op : Text} {o : BinaryOp} : t.kind = .binaryExpression →
      t.get .operator = .text op → BinaryOp.ofText? op = some o → isComparison o = true →
      Arithmetic (t.get .left) → Arithmetic (t.get .right) → Condition t
  | negation {t : Tree} {op : Text} : t.kind = .unaryExpression → t.get .operator = .text op →
      UnaryOp.ofText? op = some .not → Condition (t.get .argument) → Condition t
  | logical {t : Tree} {stop : Bool} : Logical t stop → Condition (t.get .left) →
      Condition (t.get .right) → Condition t

/-- An expression that assigns a value to a variable. -/
structure Assigns (e : Tree) (x : Text) : Prop where
  kind : e.kind = .assignmentExpression
  operator : e.get .operator = .text "="
  target : (e.get .left).kind = .identifier
  name : (e.get .left).get .name = .text x
  free : x ∉ reserved

/-- The statements of the language; the first argument says whether they stand in a loop. -/
inductive Statement : Bool → Tree → Prop
  | assign {b : Bool} {t : Tree} {x : Text} : t.kind = .expressionStatement → t.get .body = .null →
      Assigns (t.get .expression) x → Arithmetic ((t.get .expression).get .right) → Statement b t
  | block {b : Bool} {t : Tree} {l : List Tree} : t.kind = .blockStatement →
      t.get .body = .list l → (∀ s ∈ l, Statement b s) → Statement b t
  | ifThen {b : Bool} {t : Tree} : t.kind = .ifStatement → t.get .body = .null →
      Condition (t.get .test) → Statement b (t.get .consequent) → t.get .alternate = .null →
      Statement b t
  | ifElse {b : Bool} {t : Tree} : t.kind = .ifStatement → t.get .body = .null →
      Condition (t.get .test) → Statement b (t.get .consequent) → Statement b (t.get .alternate) →
      Statement b t
  | loop {b : Bool} {t : Tree} : t.kind = .whileStatement → t.get .initial = .null →
      t.get .update = .null → Condition (t.get .test) → Statement true (t.get .body) →
      Statement b t
  | leave {t : Tree} : t.kind = .breakStatement → t.get .body = .null → t.get .label = .null →
      Statement true t

variable {b : Bool} {t : Tree} {l : List Tree} {ρ ρ' : Store} {es : List Event}

section

variable (statement : Statement b t)

include statement

theorem Statement.kind_ne : t.kind ≠ .record := by
  cases statement with
  | assign kind | block kind | ifThen kind | ifElse kind | loop kind | leave kind => rw [kind]; nofun

theorem Statement.of_block
    (kind : t.kind = .blockStatement) (body : t.get .body = .list l) : ∀ s ∈ l, Statement b s
  := by
  cases statement with
  | block _ body' all =>
    obtain rfl := Tree.list.inj (body.symm.trans body')
    apply all
  | _ => simp_all

theorem Statement.of_if (kind : t.kind = .ifStatement) :
  Condition (t.get .test) ∧ Statement b (t.get .consequent) ∧
    (t.get .alternate = .null ∨ Statement b (t.get .alternate))
  := by
  cases statement with
  | ifThen _ _ condition consequent alternate => exact ⟨condition, consequent, .inl alternate⟩
  | ifElse _ _ condition consequent alternate => exact ⟨condition, consequent, .inr alternate⟩
  | _ => simp_all

theorem Statement.of_loop (kind : t.kind = .whileStatement) :
  Condition (t.get .test) ∧ Statement true (t.get .body)
  := by
  cases statement with
  | loop _ _ _ condition body => exact ⟨condition, body⟩
  | _ => simp_all

end

def Program (t : Tree) : Prop := ∀ s ∈ (t.get .body).items, Statement false s

/-! ### Runs -/

abbrev Store := Text → Concrete

def Store.set (ρ : Store) (x : Text) (v : Concrete) : Store := fun y => if y = x then v else ρ y

abbrev Event := Tree × Concrete

/-- The value of an expression, and the values that it and its parts take. -/
inductive Evaluates (ρ : Store) : Tree → Concrete → List Event → Prop
  | literal {t : Tree} {v : Concrete} : t.kind = .literal → literal? (t.get .value) = some v →
      Evaluates ρ t v [(t, v)]
  | name {t : Tree} {x : Text} : t.kind = .identifier → t.get .name = .text x →
      Evaluates ρ t (ρ x) [(t, ρ x)]
  | unary {t : Tree} {op : Text} {o : UnaryOp} {v : Concrete} {es : List Event} :
      t.kind = .unaryExpression → t.get .operator = .text op → UnaryOp.ofText? op = some o →
      Evaluates ρ (t.get .argument) v es →
      Evaluates ρ t (.unary o v) (es ++ [(t, .unary o v)])
  | binary {t : Tree} {op : Text} {o : BinaryOp} {v w : Concrete} {es fs : List Event} :
      t.kind = .binaryExpression → t.get .operator = .text op → BinaryOp.ofText? op = some o →
      Evaluates ρ (t.get .left) v es → Evaluates ρ (t.get .right) w fs →
      Evaluates ρ t (.binary o v w) (es ++ fs ++ [(t, .binary o v w)])
  | stop {t : Tree} {b : Bool} {v : Concrete} {es : List Event} : Logical t b →
      Evaluates ρ (t.get .left) v es → v.toBool = b → Evaluates ρ t v (es ++ [(t, v)])
  | goOn {t : Tree} {b : Bool} {v w : Concrete} {es fs : List Event} : Logical t b →
      Evaluates ρ (t.get .left) v es → v.toBool = !b → Evaluates ρ (t.get .right) w fs →
      Evaluates ρ t w (es ++ fs ++ [(t, w)])

/-- The runs of a list of statements from one store to another, with the values that expressions
take on the way; the truth value says whether they are left by `break`. -/
inductive Runs : List Tree → Store → List Event → Bool → Store → Prop
  | nil {ρ : Store} : Runs [] ρ [] false ρ
  | cons {t u : Tree} {l : List Tree} {ρ ρ1 ρ2 : Store} {es fs : List Event} {b : Bool} :
      Runs [t] ρ es false ρ1 → Runs (u :: l) ρ1 fs b ρ2 → Runs (t :: u :: l) ρ (es ++ fs) b ρ2
  | stop {t u : Tree} {l : List Tree} {ρ ρ1 : Store} {es : List Event} :
      Runs [t] ρ es true ρ1 → Runs (t :: u :: l) ρ es true ρ1
  | assign {t : Tree} {x : Text} {ρ : Store} {v : Concrete} {es : List Event} :
      t.kind = .expressionStatement → Assigns (t.get .expression) x →
      Evaluates ρ ((t.get .expression).get .right) v es →
      Runs [t] ρ (es ++ [(t.get .expression, v)]) false (ρ.set x v)
  | block {t : Tree} {l : List Tree} {ρ ρ1 : Store} {es : List Event} {b : Bool} :
      t.kind = .blockStatement → t.get .body = .list l → Runs l ρ es b ρ1 → Runs [t] ρ es b ρ1
  | ifTrue {t : Tree} {ρ ρ1 : Store} {v : Concrete} {es fs : List Event} {b : Bool} :
      t.kind = .ifStatement → Evaluates ρ (t.get .test) v es → v.toBool = true →
      Runs [t.get .consequent] ρ fs b ρ1 → Runs [t] ρ (es ++ fs) b ρ1
  | ifFalse {t : Tree} {ρ ρ1 : Store} {v : Concrete} {es fs : List Event} {b : Bool} :
      t.kind = .ifStatement → Evaluates ρ (t.get .test) v es → v.toBool = false →
      t.get .alternate ≠ .null → Runs [t.get .alternate] ρ fs b ρ1 → Runs [t] ρ (es ++ fs) b ρ1
  | ifNone {t : Tree} {ρ : Store} {v : Concrete} {es : List Event} :
      t.kind = .ifStatement → Evaluates ρ (t.get .test) v es → v.toBool = false →
      t.get .alternate = .null → Runs [t] ρ es false ρ
  | loopEnd {t : Tree} {ρ : Store} {v : Concrete} {es : List Event} :
      t.kind = .whileStatement → Evaluates ρ (t.get .test) v es → v.toBool = false →
      Runs [t] ρ es false ρ
  | loopStep {t : Tree} {ρ ρ1 ρ2 : Store} {v : Concrete} {es fs gs : List Event} :
      t.kind = .whileStatement → Evaluates ρ (t.get .test) v es → v.toBool = true →
      Runs [t.get .body] ρ fs false ρ1 → Runs [t] ρ1 gs false ρ2 →
      Runs [t] ρ (es ++ (fs ++ gs)) false ρ2
  | loopBreak {t : Tree} {ρ ρ1 : Store} {v : Concrete} {es fs : List Event} :
      t.kind = .whileStatement → Evaluates ρ (t.get .test) v es → v.toBool = true →
      Runs [t.get .body] ρ fs true ρ1 → Runs [t] ρ (es ++ fs) false ρ1
  | leave {t : Tree} {ρ : Store} : t.kind = .breakStatement → Runs [t] ρ [] true ρ

theorem Runs.of_cons (run : Runs (t :: l) ρ es b ρ') :
  (b = true ∧ Runs [t] ρ es true ρ') ∨
    ∃ fs gs ρ1, Runs [t] ρ fs false ρ1 ∧ Runs l ρ1 gs b ρ' ∧ es = fs ++ gs
  := by
  cases l with
  | nil =>
    cases b with
    | true => exact .inl ⟨rfl, run⟩
    | false => exact .inr ⟨es, [], ρ', run, .nil, (List.append_nil es).symm⟩
  | cons u l =>
    cases run with
    | cons first rest => exact .inr ⟨_, _, _, first, rest, rfl⟩
    | stop first => exact .inl ⟨rfl, first⟩

theorem Runs.of_assign {x : Text}
    (kind : t.kind = .expressionStatement) (assigns : Assigns (t.get .expression) x)
    (run : Runs [t] ρ es b ρ') :
  b = false ∧ ∃ v fs, Evaluates ρ ((t.get .expression).get .right) v fs ∧
    es = fs ++ [(t.get .expression, v)] ∧ ρ' = ρ.set x v
  := by
  cases run with
  | assign _ assigns' evaluates =>
    obtain rfl := Tree.text.inj (assigns.name.symm.trans assigns'.name)
    exact ⟨rfl, _, _, evaluates, rfl, rfl⟩
  | _ => simp_all

/-- The runs of a branch that may be missing. -/
def Otherwise (t : Tree) (ρ : Store) (es : List Event) (b : Bool) (ρ' : Store) : Prop :=
  (t ≠ .null ∧ Runs [t] ρ es b ρ') ∨ (t = .null ∧ es = [] ∧ b = false ∧ ρ' = ρ)

/-- The runs of the branch that the condition of a conditional statement chooses. -/
def Chosen (t : Tree) (holds : Bool) : Store → List Event → Bool → Store → Prop :=
  if holds then Runs [t.get .consequent] else Otherwise (t.get .alternate)

theorem Runs.of_if (kind : t.kind = .ifStatement) (run : Runs [t] ρ es b ρ') :
  ∃ v fs gs, Evaluates ρ (t.get .test) v fs ∧ es = fs ++ gs ∧ Chosen t v.toBool ρ gs b ρ'
  := by
  cases run with
  | ifTrue _ evaluates holds run =>
    refine ⟨_, _, _, evaluates, rfl, ?_⟩
    rw [holds]
    apply run
  | ifFalse _ evaluates fails notNull run =>
    refine ⟨_, _, _, evaluates, rfl, ?_⟩
    rw [fails]
    exact .inl ⟨notNull, run⟩
  | ifNone _ evaluates fails isNull =>
    refine ⟨_, _, [], evaluates, (List.append_nil _).symm, ?_⟩
    rw [fails]
    exact .inr ⟨isNull, rfl, rfl, rfl⟩
  | _ => simp_all

theorem Runs.of_leave (kind : t.kind = .breakStatement) (run : Runs [t] ρ es b ρ') :
  es = [] ∧ b = true ∧ ρ' = ρ
  := by
  cases run with
  | leave => exact ⟨rfl, rfl, rfl⟩
  | _ => simp_all

theorem Runs.of_block
    (kind : t.kind = .blockStatement) (body : t.get .body = .list l) (run : Runs [t] ρ es b ρ') :
  Runs l ρ es b ρ'
  := by
  cases run with
  | block _ body' run =>
    obtain rfl := Tree.list.inj (body.symm.trans body')
    apply run
  | _ => simp_all

def Finishes (t : Tree) (ρ : Store) (es : List Event) (ρ' : Store) : Prop :=
  Runs (t.get .body).items ρ es false ρ'

/-- The iterations of a loop, from the store before a test to the one after the loop: `T` is what the
test does, `R` is what the body does. -/
inductive Iterates (T : Store → Concrete → List Event → Store → Prop)
    (R : Store → List Event → Bool → Store → Prop) : Store → List Event → Store → Prop
  | done {ρ ρ1 : Store} {v : Concrete} {es : List Event} :
      T ρ v es ρ1 → v.toBool = false → Iterates T R ρ es ρ1
  | leave {ρ ρ1 ρ2 : Store} {v : Concrete} {es fs : List Event} :
      T ρ v es ρ1 → v.toBool = true → R ρ1 fs true ρ2 → Iterates T R ρ (es ++ fs) ρ2
  | step {ρ ρ1 ρ2 ρ3 : Store} {v : Concrete} {es fs gs : List Event} :
      T ρ v es ρ1 → v.toBool = true → R ρ1 fs false ρ2 → Iterates T R ρ2 gs ρ3 →
      Iterates T R ρ (es ++ (fs ++ gs)) ρ3

/-- An assignment is evaluated: its value is that of its right side, which the variable has from then
on. -/
def Stores (t : Tree) (x : Text) (ρ : Store) (v : Concrete) (es : List Event) (ρ' : Store) : Prop :=
  ∃ fs, es = fs ++ [(t, v)] ∧ Evaluates ρ (t.get .right) v fs ∧ ρ' = ρ.set x v

def Tests (t : Tree) (ρ : Store) (v : Concrete) (es : List Event) (ρ' : Store) : Prop :=
  Evaluates ρ t v es ∧ ρ' = ρ

theorem Runs.iterates (isLoop : t.kind = .whileStatement) (run : Runs [t] ρ es b ρ') :
  b = false ∧ Iterates (Tests (t.get .test)) (Runs [t.get .body]) ρ es ρ'
  := by
  generalize code : [t] = l at run
  induction run with
  | loopEnd _ test stops =>
    obtain rfl := List.singleton_inj.1 code
    exact ⟨rfl, .done ⟨test, rfl⟩ stops⟩
  | loopStep _ test goes body _ _ ih =>
    obtain rfl := List.singleton_inj.1 code
    obtain ⟨-, iterations⟩ := ih rfl
    exact ⟨rfl, .step ⟨test, rfl⟩ goes body iterations⟩
  | loopBreak _ test goes body _ =>
    obtain rfl := List.singleton_inj.1 code
    exact ⟨rfl, .leave ⟨test, rfl⟩ goes body⟩
  | nil | cons | stop => cases code
  | _ =>
    obtain rfl := List.singleton_inj.1 code
    simp_all

end ScriptLens.While
