import ScriptLens.Proofs.Pass.Run

/-!
# What walks come to

A walk comes from an expression or a statement to its parts.  `Draft.kids` lists them in the order
in which the walk comes to them.
-/

namespace ScriptLens

open Draft Edit List

abbrev Attr.Plain (a : Attr) : Prop := a ≠ .serial ∧ a ≠ .name

inductive Part where
  | expr (x : Item)
  | stmt (x : Item)

/-- A list is what is left of another one; nothing is missing if the list is full. -/
structure Thinned {α : Type} (full : Prop) (xs ys : List α) : Prop where
  subset : xs ⊆ ys
  whole : full → xs = ys

namespace Thinned

variable {α β : Type} {full : Prop} {xs xs' ys ys' zs : List α}

theorem refl (full : Prop) (xs : List α) : Thinned full xs xs := ⟨Subset.refl _, fun _ => rfl⟩

theorem trans (first : Thinned full xs ys) (second : Thinned full ys zs) : Thinned full xs zs
  := ⟨Subset.trans first.subset second.subset,
    fun isFull => (first.whole isFull).trans (second.whole isFull)⟩

theorem append (first : Thinned full xs ys) (second : Thinned full xs' ys') :
  Thinned full (xs ++ xs') (ys ++ ys')
  := by
  refine ⟨fun a member => ?_, fun isFull => by rw [first.whole isFull, second.whole isFull]⟩
  rcases mem_append.1 member with here | there
  · exact mem_append_left _ (first.subset here)
  · exact mem_append_right _ (second.subset there)

theorem map (f : α → β) (thinned : Thinned full xs ys) : Thinned full (xs.map f) (ys.map f)
  := ⟨map_subset f thinned.subset, fun isFull => by rw [thinned.whole isFull]⟩

theorem flatMap (f : α → List β) (thinned : Thinned full xs ys) :
  Thinned full (xs.flatMap f) (ys.flatMap f)
  := by
  refine ⟨fun b member => ?_, fun isFull => by rw [thinned.whole isFull]⟩
  obtain ⟨a, isItem, inside⟩ := mem_flatMap.1 member
  exact mem_flatMap.2 ⟨a, thinned.subset isItem, inside⟩

end Thinned

namespace Draft

/-! ### Parts -/

def optionalPart (d : Draft) (part : Item → Part) (p : Nat) (a : Attr) : List Part :=
  if Item.isNull (d.attrAt p a) then [] else [part (d.attrAt p a)]

/-- What the walk comes to in a property of an object literal or pattern. -/
def propertyParts (d : Draft) : Item → List Part
  | .place q =>
    if d.saysYes q .computed then [.expr (d.attrAt q .key)]
    else if d.kindAt q == .property then [.expr (d.attrAt q .value)]
    else []
  | _ => []

def argumentParts (d : Draft) (x : Item) : List Part :=
  match x with
  | .place q => (if d.kindAt q == .blockStatement then [.stmt x] else []) ++ [.expr x]
  | _ => []

def memberParts (d : Draft) (q : Nat) : List Part :=
  .expr (d.attrAt q .object) :: if d.saysYes q .computed then [.expr (d.attrAt q .property)] else []

def targetParts (d : Draft) : Item → List Part
  | .place q => if d.kindAt q == .memberExpression then d.memberParts q else []
  | _ => []

def heard (d : Draft) (p : Nat) : List Part :=
  match d.kindAt p with
  | .newExpression => (d.itemsAt (d.attrAt p .arguments)).map .expr
  | .conditionalExpression =>
    [.expr (d.attrAt p .test), .expr (d.attrAt p .consequent), .expr (d.attrAt p .alternate)]
  | .sequenceExpression => (d.itemsAt (d.attrAt p .expressions)).map .expr
  | .assignmentExpression => d.targetParts (d.attrAt p .left) ++ [.expr (d.attrAt p .right)]
  | .objectExpression => (d.itemsAt (d.attrAt p .properties)).flatMap d.propertyParts
  | .arrayExpression => (d.itemsAt (d.attrAt p .elements)).map .expr
  | .memberExpression => d.memberParts p
  | .unaryExpression | .updateExpression | .awaitExpression => [.expr (d.attrAt p .argument)]
  | .binaryExpression | .logicalExpression =>
    [.expr (d.attrAt p .left), .expr (d.attrAt p .right)]
  | .functionExpression => [.stmt (d.attrAt p .body)]
  | .arrowFunctionExpression =>
    if d.saysYes p .expression then [.expr (d.attrAt p .body)] else [.stmt (d.attrAt p .body)]
  | .callExpression =>
    .expr (d.attrAt p .callee) :: (d.itemsAt (d.attrAt p .arguments)).flatMap d.argumentParts
  | _ => []

def unheard (d : Draft) (p : Nat) : List Part :=
  match d.kindAt p with
  | .newExpression => [.expr (d.attrAt p .callee)]
  | _ => []

def declarationParts (d : Draft) : Item → List Part
  | .place q =>
    (match d.attrAt q .id with
      | .place i =>
        if d.kindAt i == .objectPattern then (d.itemsAt (d.attrAt i .properties)).flatMap d.propertyParts
        else []
      | _ => []) ++ d.optionalPart .expr q .initial
  | _ => []

def headParts (d : Draft) (x : Item) : List Part :=
  match x with
  | .place q => if d.kindAt q == .variableDeclaration then [.stmt x] else [.expr x]
  | _ => []

def caseParts (d : Draft) : Item → List Part
  | .place q => .expr (d.attrAt q .test) :: (d.itemsAt (d.attrAt q .consequent)).map .stmt
  | _ => []

def methodParts (d : Draft) (p : Nat) : List Part :=
  (match d.attrAt p .key with
    | .place k => if d.kindAt k != .identifier then [.expr (.place k)] else []
    | _ => []) ++
  match d.attrAt p .value with
  | .place v => [.stmt (d.attrAt v .body)]
  | _ => []

def stmtKids (d : Draft) (p : Nat) : List Part :=
  match d.kindAt p with
  | .variableDeclaration => (d.itemsAt (d.attrAt p .declarations)).flatMap d.declarationParts
  | .expressionStatement => [.expr (d.attrAt p .expression)]
  | .ifStatement =>
    .expr (d.attrAt p .test) :: .stmt (d.attrAt p .consequent) :: d.optionalPart .stmt p .alternate
  | .functionDeclaration => [.stmt (d.attrAt p .body)]
  | .returnStatement => d.optionalPart .expr p .argument
  | .whileStatement => [.expr (d.attrAt p .test), .stmt (d.attrAt p .body)]
  | .tryStatement => [.stmt (d.attrAt p .block)]
  | .blockStatement | .classBody => (d.itemsAt (d.attrAt p .body)).map .stmt
  | .forStatement =>
    d.headParts (d.attrAt p .initial) ++ d.optionalPart .expr p .test ++
      d.headParts (d.attrAt p .update) ++ [.stmt (d.attrAt p .body)]
  | .throwStatement => [.expr (d.attrAt p .argument)]
  | .switchStatement =>
    .expr (d.attrAt p .discriminant) :: (d.itemsAt (d.attrAt p .cases)).flatMap d.caseParts
  | .classDeclaration => [.stmt (d.attrAt p .body)]
  | .methodDefinition => d.methodParts p
  | .forInStatement =>
    d.headParts (d.attrAt p .left) ++ d.headParts (d.attrAt p .right) ++ [.stmt (d.attrAt p .body)]
  | _ => []

def kids (d : Draft) : Part → List Part
  | .expr (.place p) => d.unheard p ++ d.heard p
  | .stmt (.place p) => d.stmtKids p
  | _ => []

def exprKids (d : Draft) (k : Part) : List Nat :=
  (d.kids k).filterMap fun k' => match k' with
    | .expr (.place q) => some q
    | _ => none

variable {k k' : Part} {p program : Nat} {a : Attr}

theorem mem_kids_of_exprKids {d : Draft} {q : Nat} (member : q ∈ d.exprKids k) :
  .expr (.place q) ∈ d.kids k
  := by
  obtain ⟨k', kid, isExpr⟩ := mem_filterMap.1 member
  cases k' with
  | expr x =>
    cases x with
    | place q' =>
      cases isExpr
      exact kid
    | _ => cases isExpr
  | stmt x => cases isExpr

/-- What the walk comes to from a part, directly or through others. -/
inductive Leads (d : Draft) : Part → Part → Prop
  | refl (k : Part) : Leads d k k
  | step {k k' k'' : Part} (kid : k' ∈ d.kids k) (onwards : Leads d k' k'') : Leads d k k''

def Reached (d : Draft) (program : Nat) (k : Part) : Prop :=
  ∃ x ∈ d.itemsAt (d.attrAt program .body), d.Leads (.stmt x) k

/-- In a later draft, nothing that walks read has changed, apart from items that are missing in lists. -/
structure Thins (full : Prop) (d0 d : Draft) : Prop where
  kind : ∀ p, d.kindAt p = d0.kindAt p
  attr : ∀ p (k : Attr), k.Plain → d.attrAt p k = d0.attrAt p k
  list : ∀ l, Thinned full (d.listAt l) (d0.listAt l)

variable {full : Prop} {d0 d : Draft}

theorem Thins.saysYes (thins : d0.Thins full d) (plain : a.Plain) : d.saysYes p a = d0.saysYes p a
  := by rw [Draft.saysYes, Draft.saysYes, thins.attr p a plain]

theorem Thins.items (thins : d0.Thins full d) (plain : a.Plain) :
  Thinned full (d.itemsAt (d.attrAt p a)) (d0.itemsAt (d0.attrAt p a))
  := by
  rw [thins.attr p a plain]
  cases d0.attrAt p a with
  | list l => exact thins.list l
  | _ => exact .refl full _

theorem Thins.kids (thins : d0.Thins True d) (k : Part) : d.kids k = d0.kids k := by
  have attr (p : Nat) (a : Attr) (unnumbered : a ≠ .serial) (unnamed : a ≠ .name) :
      d.attrAt p a = d0.attrAt p a := thins.attr p a ⟨unnumbered, unnamed⟩
  have yes (p : Nat) (a : Attr) (unnumbered : a ≠ .serial) (unnamed : a ≠ .name) :
      d.saysYes p a = d0.saysYes p a := thins.saysYes ⟨unnumbered, unnamed⟩
  have items (x : Item) : d.itemsAt x = d0.itemsAt x := by
    cases x with
    | list l => exact (thins.list l).whole trivial
    | _ => rfl
  have optional (f : Item → Part) (p : Nat) (a : Attr) (unnumbered : a ≠ .serial) (unnamed : a ≠ .name) :
      d.optionalPart f p a = d0.optionalPart f p a := by
    rw [optionalPart, optionalPart, attr p a unnumbered unnamed]
  have property : d.propertyParts = d0.propertyParts := by
    funext x
    cases x <;> simp [propertyParts, thins.kind, attr, yes]
  have argument : d.argumentParts = d0.argumentParts := by
    funext x
    cases x <;> simp [argumentParts, thins.kind]
  have member : d.memberParts = d0.memberParts := by
    funext q
    simp [memberParts, attr, yes]
  have target (x : Item) : d.targetParts x = d0.targetParts x := by
    cases x <;> simp [targetParts, thins.kind, member]
  have declaration : d.declarationParts = d0.declarationParts := by
    funext x
    cases x <;> simp [declarationParts, thins.kind, attr, items, property, optional]
  have head (x : Item) : d.headParts x = d0.headParts x := by
    cases x <;> simp [headParts, thins.kind]
  have caseParts : d.caseParts = d0.caseParts := by
    funext x
    cases x <;> simp [caseParts, attr, items]
  have method (p : Nat) : d.methodParts p = d0.methodParts p := by
    simp [methodParts, thins.kind, attr]
  cases k with
  | expr x =>
    cases x with
    | place p =>
      simp only [Draft.kids, heard, unheard, thins.kind]
      cases d0.kindAt p <;> simp [attr, yes, items, property, argument, member, target]
    | _ => rfl
  | stmt x =>
    cases x with
    | place p =>
      simp only [Draft.kids, stmtKids, thins.kind]
      cases d0.kindAt p <;> simp [attr, items, optional, declaration, head, caseParts, method]
    | _ => rfl

theorem Thins.leads (thins : d0.Thins True d) (leads : d.Leads k k') : d0.Leads k k' := by
  induction leads with
  | refl k => exact .refl k
  | step kid _ ih => exact .step (thins.kids _ ▸ kid) ih

theorem Thins.reached (thins : d0.Thins True d) (reached : d.Reached program k) :
  d0.Reached program k
  := by
  obtain ⟨x, isItem, leads⟩ := reached
  have items := (thins.items (p := program) (a := .body) (by decide)).whole trivial
  exact ⟨x, items ▸ isItem, thins.leads leads⟩

theorem Leads.trans {k'' : Part} (first : d.Leads k k') (second : d.Leads k' k'') : d.Leads k k''
  := by
  induction first with
  | refl => exact second
  | step kid _ ih => exact .step kid (ih second)

theorem Reached.kid (reached : d.Reached program k) (kid : k' ∈ d.kids k) : d.Reached program k'
  := by
  obtain ⟨x, isItem, leads⟩ := reached
  exact ⟨x, isItem, leads.trans (.step kid (.refl k'))⟩

end Draft

namespace Pass

variable {σ α β : Type}

def Walker.visit (w : Walker σ) : Part → Walk σ Effects
  | .expr x => w.expr x
  | .stmt x => w.stmt x

inductive Visits (w : Walker σ) : List Part → σ → Draft → List Effects → σ → Draft → Prop
  | nil {s : σ} {d : Draft} : Visits w [] s d [] s d
  | cons {k : Part} {ks : List Part} {s s1 s' : σ} {d d1 d' : Draft} {r : Effects} {rs : List Effects}
    (first : w.visit k s d = .ok (r, s1) d1) (rest : Visits w ks s1 d1 rs s' d') :
    Visits w (k :: ks) s d (r :: rs) s' d'

theorem Visits.append {w : Walker σ} {ks ks' : List Part} {s s1 s' : σ} {d d1 d' : Draft}
    {rs rs' : List Effects} (first : Visits w ks s d rs s1 d1) (second : Visits w ks' s1 d1 rs' s' d') :
  Visits w (ks ++ ks') s d (rs ++ rs') s' d'
  := by
  induction first with
  | nil => exact second
  | cons visit _ ih => exact .cons visit (ih second)

/-! ### Computations that walk over parts -/

/-- What is known of a way to walk: a property of the states that it is kept by the walks over parts of a
kind, and that nothing is changed by them apart from items that are missing in lists. -/
structure Keeping (full : Prop) (d0 : Draft) (w : Walker σ) where
  inv : σ → Draft → Prop
  reached : Part → Prop
  thins : ∀ {s d}, inv s d → d0.Thins full d
  keeps : ∀ {k s d r s' d'}, reached k → inv s d → w.visit k s d = .ok (r, s') d' → inv s' d'

variable {full : Prop} {d0 : Draft} {w : Walker σ} (K : Keeping full d0 w)

theorem Visits.keeps {ks : List Part} {s s' : σ} {d d' : Draft} {rs : List Effects}
    (visits : Visits w ks s d rs s' d') (reached : ∀ k ∈ ks, K.reached k) (inv : K.inv s d) :
  K.inv s' d'
  := by
  induction visits with
  | nil => exact inv
  | cons visit _ ih =>
    refine ih (fun k member => reached k (mem_cons_of_mem _ member)) ?_
    exact K.keeps (reached _ mem_cons_self) inv visit

/-- A computation walks over what is left of some parts, if these are reached; `out` relates its result to
theirs. -/
structure Walks (ks : List Part) (out : α → List Effects → Prop) (x : Walk σ α) : Prop where
  visits {s : σ} {d : Draft} {a : α} {s' : σ} {d' : Draft} : (∀ k ∈ ks, K.reached k) → K.inv s d →
    x s d = .ok (a, s') d' → ∃ ks' rs, Thinned full ks' ks ∧ Visits w ks' s d rs s' d' ∧ out a rs

namespace Walks

variable {K} {ks ks' : List Part} {out : β → List Effects → Prop} {out1 : α → List Effects → Prop}
  {f : α → Walk σ β} {p : Nat} {a : Attr}

theorem pure {b : β} (result : out b []) : Walks K [] out (pure b : Walk σ β) := by
  constructor
  intro s d b' s' d' _ inv run
  cases run
  exact ⟨[], [], .refl full _, .nil, result⟩

theorem mono {x : Walk σ β} (fewer : Thinned full ks ks') (walks : Walks K ks out x) : Walks K ks' out x
  := by
  constructor
  intro s d b s' d' reached inv run
  obtain ⟨ls, rs, thinned, visits, result⟩ :=
    walks.visits (fun k member => reached k (fewer.subset member)) inv run
  exact ⟨ls, rs, thinned.trans fewer, visits, result⟩

theorem bind {x : Walk σ α} (out1 : α → List Effects → Prop) (first : Walks K ks out1 x)
    (rest : ∀ a rs, out1 a rs → Walks K ks' (fun b rs' => out b (rs ++ rs')) (f a)) :
  Walks K (ks ++ ks') out (x >>= f)
  := by
  constructor
  intro s d b s' d' reached inv run
  obtain ⟨here, there⟩ := forall_mem_append.1 reached
  obtain ⟨a, s1, d1, run1, run2⟩ := bind_eq_ok.1 run
  obtain ⟨ls, rs, thinned, visits, result⟩ := first.visits here inv run1
  have inv1 := visits.keeps K (fun k member => here k (thinned.subset member)) inv
  obtain ⟨ls', rs', thinned', visits', result'⟩ := (rest a rs result).visits there inv1 run2
  exact ⟨ls ++ ls', rs ++ rs', thinned.append thinned', visits.append visits', result'⟩

theorem weaken {x : Walk σ α} {out : α → List Effects → Prop} (walks : Walks K ks out1 x)
    (result : ∀ a rs, out1 a rs → out a rs) : Walks K ks out x
  := by
  constructor
  intro s d b s' d' reached inv run
  obtain ⟨ls, rs, thinned, visits, found⟩ := walks.visits reached inv run
  exact ⟨ls, rs, thinned, visits, result b rs found⟩

theorem map {x : Walk σ α} {g : α → β} (walks : Walks K ks out1 x)
    (result : ∀ a rs, out1 a rs → out (g a) rs) : Walks K ks out (x >>= fun a => Pure.pure (g a))
  := by
  constructor
  intro s d b s' d' reached inv run
  obtain ⟨a, s1, d1, run1, ⟨⟩⟩ := bind_eq_ok.1 run
  obtain ⟨ls, rs, thinned, visits, found⟩ := walks.visits reached inv run1
  exact ⟨ls, rs, thinned, visits, result a rs found⟩

theorem visit {k : Part} {f : Effects → Walk σ β}
    (rest : ∀ r, Walks K ks (fun b rs => out b (r :: rs)) (f r)) :
  Walks K (k :: ks) out (w.visit k >>= f)
  := by
  constructor
  intro s d b s' d' reached inv run
  obtain ⟨here, there⟩ := forall_mem_cons.1 reached
  obtain ⟨r, s1, d1, run1, run2⟩ := bind_eq_ok.1 run
  obtain ⟨ls, rs, thinned, visits, result⟩ := (rest r).visits there (K.keeps here inv run1) run2
  exact ⟨k :: ls, r :: rs, (Thinned.refl full [k]).append thinned, .cons run1 visits, result⟩

theorem read {x : Edit α} (reads : ∀ {d a d'}, d0.Thins full d → x d = .ok a d' → d' = d ∧ Walks K ks out (f a)) :
  Walks K ks out (liftM x >>= f)
  := by
  constructor
  intro s d b s' d' reached inv run
  obtain ⟨a, d1, isRead, rest⟩ := lift_bind_eq_ok.1 run
  obtain ⟨rfl, walks⟩ := reads (K.thins inv) isRead
  exact walks.visits reached inv rest

theorem kind {f : Kind → Walk σ β} (rest : Walks K ks out (f (d0.kindAt p))) :
  Walks K ks out (liftM (kind p) >>= f)
  := by
  refine read fun thins isRead => ?_
  obtain ⟨rfl, rfl⟩ := kind_eq_ok isRead
  rw [thins.kind]
  exact ⟨rfl, rest⟩

theorem attr {f : Item → Walk σ β} (rest : Walks K ks out (f (d0.attrAt p a)))
    (plain : a.Plain := by decide) :
  Walks K ks out (liftM (attr p a) >>= f)
  := by
  refine read fun thins isRead => ?_
  obtain ⟨rfl, rfl⟩ := attr_eq_ok isRead
  rw [thins.attr p a plain]
  exact ⟨rfl, rest⟩

theorem visitAt {k : Item → Part} {f : Effects → Walk σ β}
    (rest : ∀ r, Walks K ks (fun b rs => out b (r :: rs)) (f r)) (plain : a.Plain := by decide) :
  Walks K (k (d0.attrAt p a) :: ks) out (liftM (Edit.attr p a) >>= fun x => w.visit (k x) >>= f)
  := .attr (.visit rest) plain

theorem child {f : Nat → Walk σ β} (rest : ∀ q, d0.attrAt p a = .place q → Walks K ks out (f q))
    (plain : a.Plain := by decide) :
  Walks K ks out (liftM (child p a) >>= f)
  := by
  refine read fun thins isRead => ?_
  obtain ⟨isChild, rfl⟩ := child_eq_ok isRead
  rw [thins.attr p a plain] at isChild
  exact ⟨rfl, rest _ isChild⟩

theorem isTrue {f : Bool → Walk σ β} (rest : Walks K ks out (f (d0.saysYes p a)))
    (plain : a.Plain := by decide) : Walks K ks out (liftM (isTrue p a) >>= f)
  := by
  refine read fun thins isRead => ?_
  obtain ⟨rfl, rfl⟩ := isTrue_eq_ok isRead
  rw [thins.saysYes plain]
  exact ⟨rfl, rest⟩

theorem itemsOf {f : List Item → Walk σ β}
    (rest : ∀ xs, Thinned full xs (d0.itemsAt (d0.attrAt p a)) → Walks K ks out (f xs))
    (plain : a.Plain := by decide) :
  Walks K ks out (liftM (itemsOf p a) >>= f)
  := by
  refine read fun thins isRead => ?_
  obtain ⟨-, rfl, rfl⟩ := itemsOf_eq_ok isRead
  exact ⟨rfl, rest _ (thins.items plain)⟩

theorem placeOf {x : Item} {f : Nat → Walk σ β} (rest : ∀ q, x = .place q → Walks K ks out (f q)) :
  Walks K ks out (placeOf x >>= f)
  := by
  constructor
  intro s d b s' d' reached inv run
  obtain ⟨q, s1, d1, placeRun, afterPlace⟩ := bind_eq_ok.1 run
  cases x with
  | place q' =>
    cases placeRun
    exact (rest q rfl).visits reached inv afterPlace
  | _ => cases placeRun

end Walks

variable {K} {l : List Item} {p : Nat}

theorem walks_each (part : Item → Part) : Walks K (l.map part) Eq (each (fun x => w.visit (part x)) l)
  := by
  induction l with
  | nil => exact .pure rfl
  | cons x l ih =>
    refine .visit fun r => .map ih ?_
    rintro rs _ rfl
    rfl

theorem walks_parts (as : List Attr) (plain : ∀ a ∈ as, a.Plain := by decide) :
  Walks K (as.map fun a => .expr (d0.attrAt p a)) Eq (parts w p as)
  := by
  induction as with
  | nil => exact .pure rfl
  | cons a as ih =>
    refine .visitAt (k := .expr) (fun r => ?_) (plain a mem_cons_self)
    refine .map (ih fun b member => plain b (mem_cons_of_mem _ member)) ?_
    rintro rs _ rfl
    rfl

theorem walks_properties : Walks K (l.flatMap d0.propertyParts) Eq (properties w l) := by
  induction l with
  | nil => exact .pure rfl
  | cons x l ih =>
    refine .placeOf ?_
    rintro q rfl
    rw [flatMap_cons]
    refine .bind Eq (.isTrue ?_) ?_
    · rw [Draft.propertyParts]
      split
      · exact .visitAt (k := .expr) fun r => .pure rfl
      · refine .kind ?_
        split
        · exact .visitAt (k := .expr) fun r => .pure rfl
        · exact .pure rfl
    · rintro rs _ rfl
      refine .map ih ?_
      rintro rs' _ rfl
      rfl

theorem walks_arguments : Walks K (l.flatMap d0.argumentParts) Eq (arguments w l) := by
  induction l with
  | nil => exact .pure rfl
  | cons x l ih =>
    refine .placeOf ?_
    rintro q rfl
    rw [flatMap_cons, argumentParts, append_assoc]
    refine .bind Eq (.kind ?_) ?_
    · split
      · exact .visit (k := .stmt _) fun r => .pure rfl
      · exact .pure rfl
    · rintro rs _ rfl
      refine .visit (k := .expr _) fun r => .map ih ?_
      rintro rs' _ rfl
      rfl

theorem walks_member :
  Walks K (d0.memberParts p) Eq (do
    let o ← w.expr (← Edit.attr p .object)
    if ← Edit.isTrue p .computed then return [o, ← w.expr (← Edit.attr p .property)]
    else return [o])
  := by
  refine .visitAt (k := .expr) fun r => .isTrue ?_
  split
  · exact .visitAt (k := .expr) fun r' => .pure rfl
  · exact .pure rfl

theorem walks_assignment :
  Walks K (d0.targetParts (d0.attrAt p .left) ++ [.expr (d0.attrAt p .right)]) Eq (assignmentParts w p)
  := by
  refine .child fun q isLeft => ?_
  rw [isLeft]
  refine .bind Eq (.kind ?_) ?_
  · rw [Draft.targetParts]
    split
    · exact walks_member
    · exact .pure rfl
  · rintro rs _ rfl
    exact .visitAt (k := .expr) fun r => .pure rfl

theorem walks_exprParts :
  Walks K (d0.unheard p ++ d0.heard p) (fun rs rs' => rs = rs'.drop (d0.unheard p).length) (exprParts w p)
  := by
  refine .kind ?_
  rw [Draft.unheard, Draft.heard]
  have list (a : Attr) (plain : a.Plain) : Walks K ((d0.itemsAt (d0.attrAt p a)).map Part.expr) Eq
      (liftM (Edit.itemsOf p a) >>= each w.expr) :=
    .itemsOf (fun xs thinned => .mono (thinned.map _) (walks_each .expr)) plain
  generalize d0.kindAt p = c
  cases c with
  | unaryExpression | updateExpression | awaitExpression => exact walks_parts [.argument]
  | binaryExpression | logicalExpression => exact walks_parts [.left, .right]
  | conditionalExpression => exact walks_parts [.test, .consequent, .alternate]
  | sequenceExpression | arrayExpression => exact list _ (by decide)
  | memberExpression => exact walks_member
  | assignmentExpression => exact walks_assignment
  | objectExpression =>
    exact .itemsOf fun xs thinned => .mono (thinned.flatMap _) walks_properties
  | newExpression =>
    exact .visitAt (k := .expr) fun r => list _ (by decide)
  | functionExpression =>
    exact .visitAt (k := .stmt) fun r => .pure rfl
  | arrowFunctionExpression =>
    refine .isTrue ?_
    dsimp only
    split
    · exact .visitAt (k := .expr) fun r => .pure rfl
    · exact .visitAt (k := .stmt) fun r => .pure rfl
  | callExpression =>
    refine .visitAt (k := .expr) fun r => ?_
    refine .itemsOf fun xs thinned => .mono (thinned.flatMap _) (.map walks_arguments ?_)
    rintro rs _ rfl
    rfl
  | _ => exact .pure rfl

/-! ### Statements -/

abbrev any (_ : α) (_ : List Effects) : Prop := True

theorem walks_optional {a : Attr} (part : Item → Part) (plain : a.Plain := by decide) :
  Walks K (d0.optionalPart part p a) any (optional (fun x => w.visit (part x)) p a)
  := by
  refine .attr ?_ plain
  rw [optionalPart]
  split
  · exact .pure trivial
  · exact .visit fun r => .pure trivial

theorem walks_head {x : Item} : Walks K (d0.headParts x) any (headPart w x) := by
  cases x with
  | place q =>
    refine .kind ?_
    rw [headParts]
    split
    · exact .visit (k := .stmt _) fun r => .pure trivial
    · exact .visit (k := .expr _) fun r => .pure trivial
  | _ => exact .pure trivial

theorem walks_optionalHead {a : Attr} (plain : a.Plain := by decide) :
  Walks K (d0.headParts (d0.attrAt p a)) any (optional (headPart w) p a)
  := by
  refine .attr ?_ plain
  split
  · rename_i isNull
    have none : d0.headParts (d0.attrAt p a) = [] := by
      cases found : d0.attrAt p a with
      | place q =>
        rw [found] at isNull
        cases isNull
      | _ => rfl
    rw [none]
    exact .pure trivial
  · exact .map walks_head fun _ _ _ => trivial

theorem walks_declarations : Walks K (l.flatMap d0.declarationParts) any (declarations w l) := by
  induction l with
  | nil => exact .pure trivial
  | cons x l ih =>
    refine .placeOf ?_
    rintro q rfl
    refine .child fun i isPattern => ?_
    rw [flatMap_cons, declarationParts, isPattern, append_assoc]
    refine .bind any (.kind ?_) fun rs _ _ => ?_
    · dsimp only
      split
      · refine .itemsOf fun xs thinned => .mono (thinned.flatMap _) ?_
        exact .weaken walks_properties fun _ _ _ => trivial
      · exact .pure trivial
    · refine .attr (.bind any ?_ fun _ _ _ => .map ih fun _ _ _ => trivial)
      rw [optionalPart]
      split
      · exact .pure trivial
      · exact .visit (k := .expr _) fun r => .pure trivial

theorem walks_cases {last : Nat} :
  Walks K (l.flatMap d0.caseParts)
    (fun q _ => q.1 = last ∨ .stmt (.place q.1) ∈ l.flatMap d0.caseParts) (cases w last l)
  := by
  induction l generalizing last with
  | nil => exact .pure (.inl rfl)
  | cons x l ih =>
    refine .placeOf ?_
    rintro q rfl
    rw [flatMap_cons, Draft.caseParts]
    refine .visitAt (k := .expr) fun r => ?_
    refine .itemsOf fun xs thinned => ?_
    refine .mono ((thinned.map _).append (.refl _ _)) (.bind any ?_ fun rs _ _ => ?_)
    · exact .weaken (walks_each .stmt) fun _ _ _ => trivial
    · refine .map ih fun found _ isLast => ?_
      rcases isLast with isLast | inside
      · cases newest : (xs.filterMap Edit.Item.place?).getLast? with
        | none =>
          rw [newest] at isLast
          exact .inl isLast
        | some p' =>
          rw [newest] at isLast
          obtain ⟨y, isItem, isPlace⟩ := mem_filterMap.1 (mem_of_getLast? newest)
          cases y with
          | place p'' =>
            obtain rfl := Option.some.inj isPlace
            right
            rw [isLast]
            apply mem_append_left
            apply mem_cons_of_mem
            exact mem_map.2 ⟨.place p'', thinned.subset isItem, rfl⟩
          | _ => cases isPlace
      · exact .inr (mem_append_right _ inside)

theorem walks_stmtParts :
  Walks K (d0.stmtKids p) (fun q _ => q.1 = p ∨ .stmt (.place q.1) ∈ d0.stmtKids p) (stmtParts w p)
  := by
  refine .kind ?_
  rw [Draft.stmtKids]
  generalize d0.kindAt p = c
  cases c with
  | variableDeclaration =>
    refine .itemsOf fun xs thinned => .mono (thinned.flatMap _) ?_
    exact .map walks_declarations fun _ _ _ => .inl rfl
  | expressionStatement => exact .map (walks_parts [.expression]) fun _ _ _ => .inl rfl
  | throwStatement => exact .map (walks_parts [.argument]) fun _ _ _ => .inl rfl
  | ifStatement =>
    refine .visitAt (k := .expr) fun r => ?_
    refine .visitAt (k := .stmt) fun r' => ?_
    exact .map (walks_optional .stmt) fun _ _ _ => .inl rfl
  | functionDeclaration | tryStatement | classDeclaration =>
    exact .visitAt (k := .stmt) fun r => .pure (.inl rfl)
  | returnStatement => exact .map (walks_optional .expr) fun _ _ _ => .inl rfl
  | whileStatement =>
    refine .visitAt (k := .expr) fun r => ?_
    exact .visitAt (k := .stmt) fun r' => .pure (.inl rfl)
  | blockStatement | classBody =>
    refine .itemsOf fun xs thinned => .mono (thinned.map _) ?_
    exact .map (walks_each .stmt) fun _ _ _ => .inl rfl
  | forStatement =>
    dsimp only
    rw [append_assoc, append_assoc]
    refine .bind any walks_optionalHead fun _ _ _ => ?_
    refine .bind any (walks_optional .expr) fun _ _ _ => ?_
    refine .bind any walks_optionalHead fun _ _ _ => ?_
    exact .visitAt (k := .stmt) fun r => .pure (.inl rfl)
  | switchStatement =>
    refine .visitAt (k := .expr) fun r => ?_
    refine .itemsOf fun xs thinned => .mono (thinned.flatMap _) (.map walks_cases ?_)
    rintro ⟨last, rs⟩ rs' (same | inside)
    · exact .inl same
    · exact .inr (mem_cons_of_mem _ ((thinned.flatMap _).subset inside))
  | methodDefinition =>
    refine .child fun key isKey => ?_
    rw [Draft.methodParts, isKey]
    refine .bind any (.kind ?_) fun _ _ _ => ?_
    · dsimp only
      split
      · exact .visit (k := .expr _) fun r => .pure trivial
      · exact .pure trivial
    · refine .child fun v isValue => ?_
      rw [isValue]
      exact .visitAt (k := .stmt) fun r => .pure (.inl rfl)
  | forInStatement =>
    dsimp only
    rw [append_assoc]
    refine .attr (.bind any walks_head fun _ _ _ => ?_)
    refine .attr (.bind any walks_head fun _ _ _ => ?_)
    exact .visitAt (k := .stmt) fun r => .pure (.inl rfl)
  | _ => exact .pure (.inl rfl)

/-! ### Whole walks -/

/-- What has to be known of a pass that walks over all parts: a property of the states that it keeps, a
relation between earlier and later drafts, what is true once the walk has met a part, and what the result
for a part tells; both are still true of later drafts.  The parts that are reached are those the walk may
come to. -/
structure Tour (full : Prop) (d0 : Draft) (pass : Pass σ) where
  inv : σ → Draft → Prop
  later : Draft → Draft → Prop
  met : Part → Draft → Prop
  told : Part → Effects → Draft → Prop
  reached : Part → Prop
  thins : ∀ {s d}, inv s d → d0.Thins full d
  refl : ∀ d, later d d
  trans : ∀ {d d' d''}, later d d' → later d' d'' → later d d''
  stays : ∀ {k d d'}, met k d → later d d' → met k d'
  keeps : ∀ {k r d d'}, told k r d → later d d' → told k r d'
  kids : ∀ {k}, reached k → ∀ k' ∈ d0.kids k, reached k'
  nothing : ∀ {x s d}, Item.place? x = none → inv s d → told (.expr x) .unknown d
  beforeExpr : ∀ {p s d b s' d'}, reached (.expr (.place p)) → inv s d →
    pass.beforeExpr p s d = .ok (b, s') d' →
    b = true ∧ inv s' d' ∧ later d d' ∧ met (.expr (.place p)) d'
  beforeStmt : ∀ {p s d b s' d'}, reached (.stmt (.place p)) → inv s d →
    pass.beforeStmt p s d = .ok (b, s') d' →
    b = true ∧ inv s' d' ∧ later d d' ∧ met (.stmt (.place p)) d'
  afterExpr : ∀ {p ks rs s d r s' d'}, reached (.expr (.place p)) → inv s d → met (.expr (.place p)) d →
    Thinned full ks (d0.kids (.expr (.place p))) → Forall₂ (fun k r => told k r d) ks rs →
    pass.afterExpr p (rs.drop (d0.unheard p).length) s d = .ok (r, s') d' →
    inv s' d' ∧ later d d' ∧ told (.expr (.place p)) r d'
  afterStmt : ∀ {p last ks ls rs s d r s' d'}, reached (.stmt (.place p)) →
    last = p ∨ .stmt (.place last) ∈ d0.stmtKids p → inv s d → met (.stmt (.place p)) d →
    Thinned full ks (d0.stmtKids p) → Forall₂ (fun k r => told k r d) ks ls →
    pass.afterStmt last rs s d = .ok (r, s') d' →
    inv s' d' ∧ later d d' ∧ told (.stmt (.place p)) r d'

namespace Tour

variable {pass : Pass σ} (T : Tour full d0 pass)

/-- The walk over a part keeps what a tour keeps, and tells what it tells. -/
structure Tells (w : Walker σ) : Prop where
  visit {k : Part} {s : σ} {d : Draft} {r : Effects} {s' : σ} {d' : Draft} : T.reached k → T.inv s d →
    w.visit k s d = .ok (r, s') d' → T.inv s' d' ∧ T.later d d' ∧ T.told k r d'

variable {T}

theorem Tells.visits {ks : List Part} {rs : List Effects} {s s' : σ} {d d' : Draft} (tells : T.Tells w)
    (visits : Visits w ks s d rs s' d') (reached : ∀ k ∈ ks, T.reached k) (inv : T.inv s d) :
  T.inv s' d' ∧ T.later d d' ∧ Forall₂ (fun k r => T.told k r d') ks rs
  := by
  induction visits with
  | nil => exact ⟨inv, T.refl _, .nil⟩
  | cons visit _ ih =>
    obtain ⟨inv1, later1, told⟩ := tells.visit (reached _ mem_cons_self) inv visit
    obtain ⟨inv', later', others⟩ := ih (fun k member => reached k (mem_cons_of_mem _ member)) inv1
    exact ⟨inv', T.trans later1 later', .cons (T.keeps told later') others⟩

theorem Tells.keeping (tells : T.Tells w) : ∃ K : Keeping full d0 w, K.inv = T.inv ∧ K.reached = T.reached
  := ⟨⟨T.inv, T.reached, T.thins, fun reached inv visit => (tells.visit reached inv visit).1⟩, rfl, rfl⟩

theorem tells (T : Tour full d0 pass) (n : Nat) : T.Tells (walker pass n) := by
  induction n with
  | zero =>
    constructor
    intro k s d r s' d' reached inv run
    cases k <;> cases run
  | succ n ih =>
    obtain ⟨K, sameInv, sameReached⟩ := ih.keeping
    constructor
    intro k s d r s' d' reached inv run
    rw [← sameInv] at inv
    have kids (k' : Part) (member : k' ∈ d0.kids k) : K.reached k' := by
      rw [sameReached]
      exact T.kids reached k' member
    cases k with
    | expr x =>
      cases x with
      | place p =>
        obtain ⟨b, s1, d1, beforeRun, afterBefore⟩ := bind_eq_ok.1 run
        obtain ⟨rfl, inv1, later1, met⟩ := T.beforeExpr reached (sameInv ▸ inv) beforeRun
        obtain ⟨rs, s2, d2, partsRun, afterRun⟩ := bind_eq_ok.1 afterBefore
        obtain ⟨ks, rs', thinned, visits, rfl⟩ := walks_exprParts.visits kids (sameInv ▸ inv1) partsRun
        obtain ⟨inv2, later2, told⟩ := ih.visits visits
          (fun k' member => T.kids reached k' (thinned.subset member)) inv1
        obtain ⟨inv', later', result⟩ :=
          T.afterExpr reached inv2 (T.stays met later2) thinned told afterRun
        exact ⟨inv', T.trans later1 (T.trans later2 later'), result⟩
      | _ =>
        rw [sameInv] at inv
        cases run
        exact ⟨inv, T.refl _, T.nothing rfl inv⟩
    | stmt x =>
      obtain ⟨p, s0, d0, placeRun, afterPlace⟩ := bind_eq_ok.1 run
      cases x with
      | place p =>
        cases placeRun
        obtain ⟨b, s1, d1, beforeRun, afterBefore⟩ := bind_eq_ok.1 afterPlace
        obtain ⟨rfl, inv1, later1, met⟩ := T.beforeStmt reached (sameInv ▸ inv) beforeRun
        obtain ⟨⟨last, rs⟩, s2, d2, partsRun, afterRun⟩ := bind_eq_ok.1 afterBefore
        obtain ⟨ks, rs', thinned, visits, isLast⟩ := walks_stmtParts.visits kids (sameInv ▸ inv1) partsRun
        obtain ⟨inv2, later2, told⟩ := ih.visits visits
          (fun k' member => T.kids reached k' (thinned.subset member)) inv1
        obtain ⟨inv', later', result⟩ :=
          T.afterStmt reached isLast inv2 (T.stays met later2) thinned told afterRun
        exact ⟨inv', T.trans later1 (T.trans later2 later'), result⟩
      | _ => cases placeRun

theorem run {program : Nat} {s s' : σ} {d d' : Draft} (inv : T.inv s d)
    (reached : ∀ x ∈ d0.itemsAt (d0.attrAt program .body), T.reached (.stmt x))
    (run : pass.run program s d = .ok s' d') :
  ∃ ks rs s1 d1, Thinned full ks ((d0.itemsAt (d0.attrAt program .body)).map .stmt) ∧ T.inv s1 d1 ∧
    T.later d d1 ∧ Forall₂ (fun k r => T.told k r d1) ks rs ∧
    ∃ l, d0.attrAt program .body = .list l ∧ pass.afterProgram l s1 d1 = .ok ((), s') d'
  := by
  obtain ⟨⟨u, s2⟩, d2, overRun, ⟨⟩⟩ := Edit.bind_eq_ok.1 run
  obtain ⟨xs, d3, areItems, afterItems⟩ := lift_bind_eq_ok.1 overRun
  obtain ⟨⟨l, isList⟩, rfl, rfl⟩ := itemsOf_eq_ok areItems
  obtain ⟨rs, s4, d4, eachRun, afterEach⟩ := bind_eq_ok.1 afterItems
  have items := (T.thins inv).items (p := program) (a := .body) (by decide)
  rw [(T.thins inv).attr program .body (by decide)] at isList items eachRun
  have walk := T.tells patience
  obtain ⟨K, sameInv, sameReached⟩ := walk.keeping
  have reached' (k : Part) (member : k ∈ (d3.itemsAt (d0.attrAt program .body)).map Part.stmt) :
      T.reached k := by
    obtain ⟨x, isItem, rfl⟩ := mem_map.1 member
    exact reached x (items.subset isItem)
  obtain ⟨ks, rs', thinned, visits, rfl⟩ := (walks_each (K := K) .stmt).visits (sameReached ▸ reached')
    (sameInv ▸ inv) eachRun
  obtain ⟨inv4, later4, told⟩ := walk.visits visits (fun k member => reached' k (thinned.subset member)) inv
  obtain ⟨x, d5, isRead, afterRead⟩ := lift_bind_eq_ok.1 afterEach
  obtain ⟨rfl, rfl⟩ := attr_eq_ok isRead
  rw [(T.thins inv4).attr program .body (by decide), isList] at afterRead
  exact ⟨ks, rs, s4, d5, thinned.trans (items.map _), inv4, later4, told, l, isList, afterRead⟩

end Tour

end Pass

end ScriptLens
