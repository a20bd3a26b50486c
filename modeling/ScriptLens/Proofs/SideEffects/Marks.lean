import Mathlib.Data.List.Forall2
import ScriptLens.Pass.SideEffects
import ScriptLens.Proofs.Draft.Annotate
import ScriptLens.Proofs.Pass.Tour

/-!
# Marks of effects

The first of two passes notes on every expression that the walk comes to whether it has effects.
-/

open ScriptLens.Edit ScriptLens.Draft

namespace ScriptLens

namespace Draft

def propertyItems (d : Draft) : Item → List Item
  | .place q =>
    if d.kindAt q == .property then
      (if d.saysYes q .computed then [d.attrAt q .key] else []) ++ [d.attrAt q .value]
    else [d.attrAt q .argument]
  | _ => []

/-- What is evaluated for a member access or for the target of an assignment. -/
def memberItems (d : Draft) (q : Nat) : List Item :=
  d.attrAt q .object :: if d.saysYes q .computed then [d.attrAt q .property] else []

def targetItems (d : Draft) : Item → List Item
  | .place q => if d.kindAt q == .memberExpression then d.memberItems q else []
  | _ => []

/-- What is evaluated for an expression, in each of the ways it can be. -/
def ways (d : Draft) (p : Nat) : List (List Item) :=
  match d.kindAt p with
  | .literal | .identifier | .thisExpression | .superReference | .metaProperty | .importCall
  | .functionExpression | .arrowFunctionExpression => [[]]
  | .unaryExpression | .updateExpression | .awaitExpression | .yieldExpression
  | .spreadElement => [[d.attrAt p .argument]]
  | .binaryExpression => [[d.attrAt p .left, d.attrAt p .right]]
  | .logicalExpression => [[d.attrAt p .left], [d.attrAt p .left, d.attrAt p .right]]
  | .conditionalExpression =>
    [[d.attrAt p .test, d.attrAt p .consequent], [d.attrAt p .test, d.attrAt p .alternate]]
  | .sequenceExpression => [d.itemsAt (d.attrAt p .expressions)]
  | .arrayExpression => [d.itemsAt (d.attrAt p .elements)]
  | .objectExpression => [(d.itemsAt (d.attrAt p .properties)).flatMap d.propertyItems]
  | .memberExpression => [d.memberItems p]
  | .callExpression | .newExpression => [d.attrAt p .callee :: d.itemsAt (d.attrAt p .arguments)]
  | .assignmentExpression => [d.targetItems (d.attrAt p .left) ++ [d.attrAt p .right]]
  | .templateLiteral => [d.itemsAt (d.attrAt p .expressions)]
  | .taggedTemplateExpression => [[d.attrAt p .tag, d.attrAt p .quasi]]
  | _ => []

def isPureCall (d : Draft) (p : Nat) : Bool := holds (d.noteAt p .calleeIsPure)

def isNamed (d : Draft) (names : List Text) (q : Nat) : Bool := (d.nameAt? q).any names.contains

def function? (d : Draft) (q : Nat) : Option Nat :=
  match d.valueAt q with
  | .ref r => some r.target
  | _ => none

end Draft

namespace Pass.Simplify

variable {W : NoteName → Bool} {d d' : Draft} {p : Nat} {names : List Text}

theorem isNamed_eq_ok {b : Bool} (run : isNamed names p d = .ok b d') :
  b = d.isNamed names p ∧ d' = d
  := by
  obtain ⟨t, d1, named, ended⟩ := Edit.bind_eq_ok.1 run
  obtain ⟨x, d2, read, chosen⟩ := Edit.bind_eq_ok.1 named
  obtain ⟨rfl, rfl⟩ := attr_eq_ok read
  rw [Draft.isNamed, Draft.nameAt?]
  cases found : d2.attrAt p .name with
  | leaf u =>
    rw [found] at chosen
    cases chosen
    cases t <;> exact Edit.pure_eq_ok.1 ended
  | _ =>
    rw [found] at chosen
    cases chosen
    exact Edit.pure_eq_ok.1 ended

theorem valueOf_eq_ok {v : Value} (tidy : d.Tidy) (run : valueOf p d = .ok v d') :
  v = d.valueAt p
  := by
  obtain ⟨n, d1, noted, ⟨⟩⟩ := Edit.bind_eq_ok.1 run
  rw [note_value tidy.unused noted]
  rfl

theorem calledId_eq_ok {i : Option Nat} (tidy : d.Tidy) (run : calledId p d = .ok i d') :
  d'.Tidy ∧ d.Annotated W d' ∧ ∃ q, d.attrAt p .callee = .place q ∧ i = d.function? q
  := by
  obtain ⟨q, d1, read, rest⟩ := Edit.bind_eq_ok.1 run
  obtain ⟨isCallee, rfl⟩ := child_eq_ok read
  obtain ⟨v, d2, valued, ended⟩ := Edit.bind_eq_ok.1 rest
  obtain ⟨tidy', annotated⟩ := Annotates.annotates (W := W) tidy valued
  obtain ⟨rfl, rfl⟩ : i = d1.function? q ∧ d' = d2 := by
    rw [function?, ← valueOf_eq_ok tidy valued]
    cases v with
    | atom a => cases a <;> exact Edit.pure_eq_ok.1 ended
    | _ => exact Edit.pure_eq_ok.1 ended
  exact ⟨tidy', annotated, q, isCallee, rfl⟩

end Pass.Simplify

namespace Draft

def isNamedItem (d : Draft) (pures : List Text) : Item → Bool
  | .place q => d.isNamed pures q
  | _ => false

/-- A call is said to be pure, by its note or by its name. -/
def isHarmless (d : Draft) (pures : List Text) (p : Nat) : Bool :=
  d.isPureCall p || d.isNamedItem pures (d.attrAt p .callee)

def CallsByName (d : Draft) (pures : List Text) (i : Nat) : Prop :=
  ∃ c q, d.kindAt c = .callExpression ∧ d.attrAt c .callee = .place q ∧ d.isNamed pures q = true ∧
    d.function? q = some i

/-- A call counts as an effect, whatever has been seen before. -/
def Strange (d : Draft) (pures : List Text) (p : Nat) : Prop :=
  d.isHarmless pures p = false ∧
    ∀ q i, d.attrAt p .callee = .place q → d.function? q = some i → ¬ d.CallsByName pures i

/-- An expression shows an effect: it is an assignment, an update or a call that counts, or a part shows
one whose result is passed on. -/
inductive Shows (d : Draft) (counts : Nat → Prop) : Nat → Prop
  | assignment {p : Nat} (kind : d.kindAt p = .assignmentExpression) : Shows d counts p
  | update {p : Nat} (kind : d.kindAt p = .updateExpression) : Shows d counts p
  | call {p : Nat} (kind : d.kindAt p = .callExpression) (counted : counts p) : Shows d counts p
  | part {p q : Nat} (kind : d.kindAt p ≠ .callExpression) (isPart : .expr (.place q) ∈ d.heard p)
    (shown' : Shows d counts q) : Shows d counts p

variable {d d' : Draft} {pures : List Text} {p q : Nat}

section

variable {counts : Nat → Prop} (same : d.recordAt? q = d.recordAt? p)

include same

theorem Shows.of_record
    (counted : counts p → counts q) (shown' : d.Shows counts p) : d.Shows counts q
  := by
  have kind : d.kindAt q = d.kindAt p := by rw [kindAt, kindAt, same]
  have attr (k : Attr) : d.attrAt q k = d.attrAt p k := by rw [attrAt, attrAt, same]
  have yes (k : Attr) : d.saysYes q k = d.saysYes p k := by rw [saysYes, saysYes, attr]
  have heard : d.heard q = d.heard p := by
    simp only [heard, kind, attr, yes, memberParts]
  cases shown' with
  | assignment isKind => exact .assignment (kind.trans isKind)
  | update isKind => exact .update (kind.trans isKind)
  | call isKind isCounted => exact .call (kind.trans isKind) (counted isCounted)
  | part differs isPart shown => exact .part (kind ▸ differs) (heard ▸ isPart) shown

theorem isHarmless_of_record :
  d.isHarmless pures q = d.isHarmless pures p
  := by simp only [isHarmless, isPureCall, noteAt, attrAt, same]

theorem Strange.of_record (strange : d.Strange pures p) :
  d.Strange pures q
  := by
  refine ⟨(isHarmless_of_record same).trans strange.1, ?_⟩
  have callee : d.attrAt q .callee = d.attrAt p .callee := by rw [attrAt, attrAt, same]
  rw [callee]
  exact strange.2

end

namespace Annotated

variable {W : NoteName → Bool}

theorem isNamed (annotated : d.Annotated W d') : d'.isNamed pures q = d.isNamed pures q
  := by rw [Draft.isNamed, Draft.isNamed, nameAt?, nameAt?, annotated.attr q _ (by decide)]

theorem function? (annotated : d.Annotated W d') (kept : W .staticValue = false) :
  d'.function? q = d.function? q
  := by rw [Draft.function?, Draft.function?, valueAt, valueAt, annotated.note q _ kept]

theorem isHarmless (annotated : d.Annotated W d') (kept : W .calleeIsPure = false) :
  d'.isHarmless pures p = d.isHarmless pures p
  := by
  have named (x : Item) : d'.isNamedItem pures x = d.isNamedItem pures x := by
    cases x with
    | place q => exact annotated.isNamed
    | _ => rfl
  rw [Draft.isHarmless, Draft.isHarmless, isPureCall, isPureCall, annotated.note p _ kept,
    annotated.attr p _ (by decide), named]

theorem callsByName {i : Nat} (annotated : d.Annotated W d') (kept : W .staticValue = false)
    (calls : d'.CallsByName pures i) : d.CallsByName pures i
  := by
  obtain ⟨c, q, kind, callee, named, function⟩ := calls
  rw [annotated.kind] at kind
  rw [annotated.attr c _ (by decide)] at callee
  rw [annotated.isNamed] at named
  rw [annotated.function? kept] at function
  exact ⟨c, q, kind, callee, named, function⟩

end Annotated

end Draft

namespace Pass.SideEffects

variable {d d' d0 : Draft} {pures : List Text} {p q : Nat} {l l' : List Nat}

def writes (n : NoteName) : Bool := n == .sideEffects

/-- What a mark says is right. -/
def Fits (d : Draft) (pures : List Text) (p : Nat) (b : Bool) : Prop :=
  (d.Shows (d.Strange pures) p → b = true) ∧
    (b = true → d.Shows (fun c => d.isHarmless pures c = false) p)

variable {b : Bool} {rs : List Effects}

theorem Fits.of_record (same : d.recordAt? q = d.recordAt? p) (fits : Fits d pures p b) :
  Fits d pures q b
  := by
  constructor
  · exact fun shown => fits.1 (shown.of_record same.symm (.of_record same.symm))
  · exact fun marked => (fits.2 marked).of_record same fun isFalse => (isHarmless_of_record same).trans isFalse

theorem calledId_eq_ok {i : Option Nat} (tidy : d.Tidy) (run : calledId p d = .ok i d') :
  d'.Tidy ∧ d.Annotated (fun _ => false) d' ∧
    ∃ q, d.attrAt p .callee = .place q ∧ ∀ j, i = some j → d.function? q = some j
  := by
  obtain ⟨j, d1, called, ended⟩ := Edit.bind_eq_ok.1 run
  obtain ⟨tidy1, annotated, q, callee, rfl⟩ := Simplify.calledId_eq_ok tidy called
  cases function : d.function? q with
  | none =>
    rw [function] at ended
    cases ended
    exact ⟨tidy1, annotated, q, callee, nofun⟩
  | some j =>
    rw [function] at ended
    cases j with
    | zero =>
      cases ended
      exact ⟨tidy1, annotated, q, callee, nofun⟩
    | succ j =>
      cases ended
      exact ⟨tidy1, annotated, q, callee, fun _ same => function.trans same⟩

theorem callActs_eq_ok (tidy : d.Tidy) (kind : d.kindAt p = .callExpression)
    (run : callActs pures p l d = .ok (b, l') d') :
  d'.Tidy ∧ d.Annotated (fun _ => false) d' ∧ (∀ i ∈ l', i ∈ l ∨ d.CallsByName pures i) ∧
    (b = true → d.isHarmless pures p = false) ∧
    (b = false → d.isHarmless pures p = true ∨
      ∃ q i, d.attrAt p .callee = .place q ∧ d.function? q = some i ∧ i ∈ l)
  := by
  obtain ⟨q, d1, isCallee, afterCallee⟩ := lift_bind_eq_ok.1 run
  obtain ⟨callee, rfl⟩ := child_eq_ok isCallee
  obtain ⟨named, d2, isNamed, afterNamed⟩ := lift_bind_eq_ok.1 afterCallee
  obtain ⟨rfl, rfl⟩ := Simplify.isNamed_eq_ok isNamed
  have harmless : d2.isHarmless pures p = (d2.isPureCall p || d2.isNamed pures q) := by
    rw [isHarmless, callee, isNamedItem]
  split at afterNamed
  all_goals
    obtain ⟨i, d3, called, afterCalled⟩ := lift_bind_eq_ok.1 afterNamed
    obtain ⟨tidy3, annotated, q', callee', function⟩ := calledId_eq_ok tidy called
    obtain rfl := Item.place.inj (callee.symm.trans callee')
  · rename_i byName
    have isHarmless : d2.isHarmless pures p = true := by rw [harmless, byName, Bool.or_true]
    cases i with
    | none =>
      cases afterCalled
      exact ⟨tidy3, annotated, fun i member => .inl member, fun acts => absurd acts Bool.false_ne_true,
        fun _ => .inl isHarmless⟩
    | some i =>
      cases afterCalled
      refine ⟨tidy3, annotated, fun j member => ?_, fun acts => absurd acts Bool.false_ne_true,
        fun _ => .inl isHarmless⟩
      rcases List.mem_cons.1 member with rfl | old
      · exact .inr ⟨p, q, kind, callee, byName, function j rfl⟩
      · exact .inl old
  · rename_i notByName
    have plainly (last : (do return !Edit.holds (← note p .calleeIsPure) : Walk (List Nat) Bool) l d3 =
        .ok (b, l') d') : d'.Tidy ∧ d2.Annotated (fun _ => false) d' ∧
          (∀ i ∈ l', i ∈ l ∨ d2.CallsByName pures i) ∧ (b = true → d2.isHarmless pures p = false) ∧
          (b = false → d2.isHarmless pures p = true ∨
            ∃ q i, d2.attrAt p .callee = .place q ∧ d2.function? q = some i ∧ i ∈ l) := by
      obtain ⟨v, d4, isNote, ended⟩ := lift_bind_eq_ok.1 last
      cases ended
      obtain ⟨tidy4, annotated4⟩ := Annotates.annotates (W := fun _ => false) tidy3 isNote
      have noted : d2.isHarmless pures p = holds v := by
        rw [note_value tidy3.unused isNote, annotated.note p _ rfl, harmless,
          Bool.eq_false_iff.2 notByName, Bool.or_false]
        rfl
      rw [noted]
      refine ⟨tidy4, annotated.trans annotated4, fun i member => .inl member, ?_, fun isFalse => .inl ?_⟩
      · simp
      · simpa using isFalse
    cases i with
    | none => exact plainly afterCalled
    | some i =>
      obtain ⟨k, l4, d4, ⟨⟩, afterGet⟩ := bind_eq_ok.1 afterCalled
      split at afterGet
      · rename_i remembered
        cases afterGet
        refine ⟨tidy3, annotated, fun i member => .inl member,
          fun acts => absurd acts Bool.false_ne_true, fun _ => .inr ?_⟩
        exact ⟨q, i, callee, function i rfl, by simpa using remembered⟩
      · exact plainly afterGet

/-- A draft that is being marked: nothing else has changed, and what the marks say is right. -/
structure Marked (d0 : Draft) (pures : List Text) (l : List Nat) (d : Draft) : Prop where
  tidy : d.Tidy
  numbered : d.Numbered
  annotated : d0.Annotated writes d
  remembered : ∀ i ∈ l, d0.CallsByName pures i
  fits : ∀ p b, d.noteAt p .sideEffects = .flag b → Fits d0 pures p b

def IsMarked (d : Draft) : Part → Prop
  | .expr (.place p) => ∃ b, d.noteAt p .sideEffects = .flag b
  | _ => True

def Later (d d' : Draft) : Prop := ∀ k, IsMarked d k → IsMarked d' k

def Reports (d0 : Draft) (pures : List Text) : Part → Effects → Prop
  | .expr (.place p), r => ∃ b, r = .flag b ∧ Fits d0 pures p b
  | _, r => r = .unknown

theorem fits_anyOf (reports : List.Forall₂ (Reports d0 pures) (d0.heard p) rs)
    (notCall : d0.kindAt p ≠ .callExpression) (notAssignment : d0.kindAt p ≠ .assignmentExpression)
    (notUpdate : d0.kindAt p ≠ .updateExpression) : Fits d0 pures p (anyOf rs)
  := by
  constructor
  · intro shown
    cases shown with
    | assignment kind => exact absurd kind notAssignment
    | update kind => exact absurd kind notUpdate
    | call kind => exact absurd kind notCall
    | part _ isPart shown =>
      obtain ⟨_, isResult, b, rfl, fits⟩ := exists_of_forall₂ reports isPart
      exact List.any_eq_true.2 ⟨.flag b, isResult, fits.1 shown⟩
  · intro marked
    obtain ⟨r, isResult, isTrue⟩ := List.any_eq_true.1 marked
    obtain ⟨k, isPart, report⟩ := exists_of_forall₂ reports.flip isResult
    have nothing (unknown : r = .unknown) : False := by
      rw [unknown] at isTrue
      cases isTrue
    cases k with
    | expr x =>
      cases x with
      | place q =>
        obtain ⟨b, rfl, fits⟩ := report
        exact .part notCall isPart (fits.2 isTrue)
      | _ => exact (nothing report).elim
    | stmt x => exact (nothing report).elim

theorem fits_call (kind : d0.kindAt p = .callExpression) (remembered : ∀ i ∈ l, d0.CallsByName pures i)
    (acts : b = true → d0.isHarmless pures p = false)
    (harmless : b = false → d0.isHarmless pures p = true ∨
      ∃ q i, d0.attrAt p .callee = .place q ∧ d0.function? q = some i ∧ i ∈ l) : Fits d0 pures p b
  := by
  constructor
  · intro shown
    cases b with
    | true => rfl
    | false =>
      have strange : d0.Strange pures p := by
        cases shown with
        | call _ strange => exact strange
        | assignment other => cases kind.symm.trans other
        | update other => cases kind.symm.trans other
        | part other => exact absurd kind other
      rcases harmless rfl with isTrue | ⟨q, i, callee, function, member⟩
      · cases isTrue.symm.trans strange.1
      · exact absurd (remembered i member) (strange.2 q i callee function)
  · exact fun isTrue => .call kind (acts isTrue)

theorem afterExpr_eq_ok {r : Effects} (marked : Marked d0 pures l d)
    (reports : List.Forall₂ (Reports d0 pures) (d0.heard p) rs)
    (run : afterExpr pures p rs l d = .ok (r, l') d') :
  Marked d0 pures l' d' ∧ Later d d' ∧ IsMarked d' (.expr (.place p)) ∧
    Reports d0 pures (.expr (.place p)) r
  := by
  obtain ⟨b, l1, d1, actsRun, afterActs⟩ := bind_eq_ok.1 run
  obtain ⟨k, d2, isKind, afterKind⟩ := lift_bind_eq_ok.1 actsRun
  obtain ⟨rfl, rfl⟩ := kind_eq_ok isKind
  rw [marked.annotated.kind] at afterKind
  obtain ⟨tidy, annotated, remembered, fits⟩ : d1.Tidy ∧ d2.Annotated (fun _ => false) d1 ∧
      (∀ i ∈ l1, d0.CallsByName pures i) ∧ Fits d0 pures p b := by
    have ends {c : Bool} (ended : (pure c : Walk (List Nat) Bool) l d2 = .ok (b, l1) d1)
        (fits : Fits d0 pures p c) : d1.Tidy ∧ d2.Annotated (fun _ => false) d1 ∧
          (∀ i ∈ l1, d0.CallsByName pures i) ∧ Fits d0 pures p b := by
      cases ended
      exact ⟨marked.tidy, .refl _ _, marked.remembered, fits⟩
    by_cases isCall : d0.kindAt p = .callExpression
    · rw [isCall] at afterKind
      obtain ⟨tidy, annotated, remembered, acts, harmless⟩ :=
        callActs_eq_ok marked.tidy ((marked.annotated.kind p).trans isCall) afterKind
      rw [marked.annotated.isHarmless rfl] at acts harmless
      refine ⟨tidy, annotated, fun i member => ?_, fits_call isCall marked.remembered acts fun isFalse => ?_⟩
      · rcases remembered i member with old | new
        · exact marked.remembered i old
        · exact marked.annotated.callsByName rfl new
      · rcases harmless isFalse with isHarmless | ⟨q, i, callee, function, member⟩
        · exact .inl isHarmless
        · rw [marked.annotated.attr p _ (by decide)] at callee
          rw [marked.annotated.function? rfl] at function
          exact .inr ⟨q, i, callee, function, member⟩
    by_cases isAssignment : d0.kindAt p = .assignmentExpression
    · rw [isAssignment] at afterKind
      exact ends afterKind ⟨fun _ => rfl, fun _ => .assignment isAssignment⟩
    by_cases isUpdate : d0.kindAt p = .updateExpression
    · rw [isUpdate] at afterKind
      exact ends afterKind ⟨fun _ => rfl, fun _ => .update isUpdate⟩
    have fits := fits_anyOf reports isCall isAssignment isUpdate
    generalize d0.kindAt p = c at afterKind isCall isAssignment isUpdate
    cases c with
    | callExpression => exact absurd rfl isCall
    | assignmentExpression => exact absurd rfl isAssignment
    | updateExpression => exact absurd rfl isUpdate
    | _ => exact ends afterKind fits
  obtain ⟨u, d3, noted, ended⟩ := lift_bind_eq_ok.1 afterActs
  cases ended
  have numbered := annotated.numbered marked.numbered
  obtain ⟨tidy', annotated'⟩ := annotated_setNote (W := writes) rfl tidy noted
  have places := annotated.places.trans marked.annotated.places
  have written (q : Nat) : d'.noteAt q .sideEffects = d2.noteAt q .sideEffects ∨
      d'.noteAt q .sideEffects = .flag b ∧ d0.recordAt? q = d0.recordAt? p := by
    rcases noteAt_of_setNote (q := q) numbered tidy noted with same | ⟨new, shares⟩
    · exact .inl (same.trans (annotated.note q _ rfl))
    · rw [Shares, places] at shares
      exact .inr ⟨new, Shares.record shares⟩
  refine ⟨?_, ?_, ⟨b, noteAt_setNote noted⟩, b, rfl, fits⟩
  · constructor
    case tidy => exact tidy'
    case numbered => exact annotated'.numbered numbered
    case annotated => exact (marked.annotated.trans (annotated.mono fun _ _ => rfl)).trans annotated'
    case remembered => exact remembered
    case fits =>
      intro q c found
      rcases written q with old | ⟨new, same⟩
      · exact marked.fits q c (old.symm.trans found)
      · obtain rfl := Note.flag.inj (new.symm.trans found)
        exact fits.of_record same
  · intro k isMarked
    cases k with
    | expr x =>
      cases x with
      | place q =>
        obtain ⟨c, found⟩ := isMarked
        rcases written q with old | ⟨new, -⟩
        · exact ⟨c, old.trans found⟩
        · exact ⟨b, new⟩
      | _ => trivial
    | stmt x => trivial

theorem isMarked_of_kids {ks : List Part}
    (told : List.Forall₂ (fun k r => Reports d0 pures k r ∧ ∀ k', d0.Leads k k' → IsMarked d k') ks rs)
    {k k' : Part} (member : k ∈ ks) (leads : d0.Leads k k') : IsMarked d k'
  := by
  obtain ⟨r, -, -, below⟩ := exists_of_forall₂ told member
  exact below k' leads

def markerTour (d0 : Draft) (pures : List Text) : Tour True d0 (marker pures) where
  inv l d := Marked d0 pures l d
  later := Later
  met _ _ := True
  told k r d := Reports d0 pures k r ∧ ∀ k', d0.Leads k k' → IsMarked d k'
  reached _ := True
  thins marked := by
    refine ⟨marked.annotated.kind, fun p k plain => marked.annotated.attr p k plain.1, fun l => ?_⟩
    rw [marked.annotated.list]
    exact .refl True _
  refl _ _ := id
  trans first second k := second k ∘ first k
  stays _ _ := trivial
  keeps told later := ⟨told.1, fun k' leads => later k' (told.2 k' leads)⟩
  kids _ _ _ := trivial
  nothing := by
    intro x s d nothing marked
    refine ⟨?_, ?_⟩
    · cases x with
      | place p => cases nothing
      | _ => rfl
    · intro k leads
      cases x with
      | place p => cases nothing
      | _ =>
        cases leads with
        | refl => trivial
        | step kid _ => cases kid
  beforeExpr := by
    intro p s d b s' d' _ marked run
    cases run
    exact ⟨rfl, marked, fun _ => id, trivial⟩
  beforeStmt := by
    intro p s d b s' d' _ marked run
    cases run
    exact ⟨rfl, marked, fun _ => id, trivial⟩
  afterExpr := by
    intro p ks rs l d r l' d' _ marked _ thinned told run
    obtain rfl := thinned.whole trivial
    have reports := List.forall₂_drop (d0.unheard p).length (told.imp fun _ _ both => both.1)
    rw [kids, List.drop_left] at reports
    obtain ⟨marked', later, isMarked, report⟩ := afterExpr_eq_ok marked reports run
    refine ⟨marked', later, report, ?_⟩
    intro k' leads
    cases leads with
    | refl => exact isMarked
    | step kid onwards => exact later k' (isMarked_of_kids told kid onwards)
  afterStmt := by
    intro p last ks ls rs l d r l' d' _ _ marked _ thinned told run
    cases run
    obtain rfl := thinned.whole trivial
    refine ⟨marked, fun _ => id, rfl, ?_⟩
    intro k' leads
    cases leads with
    | refl => trivial
    | step kid onwards => exact isMarked_of_kids told kid onwards

theorem mark_eq_ok {program : Nat} (tidy : d.Tidy) (numbered : d.Numbered)
    (run : mark pures program d = .ok () d') :
  ∃ l, Marked d pures l d' ∧ ∀ k, d.Reached program k → IsMarked d' k
  := by
  obtain ⟨u, d1, clearRun, afterClear⟩ := Edit.bind_eq_ok.1 run
  obtain ⟨l, d2, markRun, ⟨⟩⟩ := Edit.bind_eq_ok.1 afterClear
  obtain ⟨tidy1, annotated1, cleared⟩ := annotated_clearNote (W := writes) rfl tidy clearRun
  have marked : Marked d pures [] d1 := by
    refine ⟨tidy1, annotated1.numbered numbered, annotated1, nofun, ?_⟩
    intro p b found
    cases (cleared p).symm.trans found
  obtain ⟨ks, rs, l1, d3, thinned, marked3, -, told, n, -, ended⟩ :=
    (markerTour d pures).run marked (fun _ _ => trivial) markRun
  cases ended
  refine ⟨l, marked3, ?_⟩
  rintro k ⟨x, isItem, leads⟩
  rw [thinned.whole trivial] at told
  exact isMarked_of_kids told (List.mem_map.2 ⟨x, isItem, rfl⟩) leads

end Pass.SideEffects

end ScriptLens
