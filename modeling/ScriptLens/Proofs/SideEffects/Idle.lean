import ScriptLens.Draft.Load
import ScriptLens.Pass.Plan
import ScriptLens.Proofs.SideEffects.Removal

/-!
# Statements that do nothing

Two passes, one after the other, are to remove expression statements that do nothing.
-/

namespace ScriptLens

namespace Draft

def evaluated (d : Draft) (p : Nat) : List Nat := (d.ways p).flatten.filterMap Edit.Item.place?

/-- What the evaluation of an expression can come to. -/
inductive Evaluates (d : Draft) : Nat → Nat → Prop
  | refl (p : Nat) : Evaluates d p p
  | part {p q r : Nat} (isEvaluated : q ∈ d.evaluated p) (onwards : Evaluates d q r) : Evaluates d p r

def isDeletion (d : Draft) (p : Nat) : Bool :=
  match d.attrAt p .operator with
  | .leaf (.text t) => t == "delete"
  | _ => false

/-- Whether an expression may do something, apart from what its parts do.  If it is not known how it is
evaluated, it may. -/
def isAct (d : Draft) (pures : List Text) (p : Nat) : Bool :=
  (d.ways p).isEmpty ||
    match d.kindAt p with
    | .newExpression | .assignmentExpression | .updateExpression | .taggedTemplateExpression
    | .awaitExpression => true
    | .callExpression => !d.isHarmless pures p
    | .unaryExpression => d.isDeletion p
    | _ => false

def Idle (d : Draft) (pures : List Text) (e : Nat) : Prop := ∀ q, d.Evaluates e q → d.isAct pures q = false

/-- What happens at an expression is seen: if it acts, it is an assignment, an update or a call that is not
taken for harmless, and otherwise its parts are looked at or do nothing. -/
structure Candid (d : Draft) (pures : List Text) (p : Nat) : Prop where
  act : d.isAct pures p = true → d.kindAt p = .assignmentExpression ∨ d.kindAt p = .updateExpression ∨
    d.kindAt p = .callExpression ∧ d.Strange pures p
  part : d.isAct pures p = false → ∀ q ∈ d.evaluated p,
    d.kindAt p ≠ .callExpression ∧ .expr (.place q) ∈ d.heard p ∨ d.Idle pures q

variable {d d' : Draft} {pures : List Text} {e p q : Nat}

theorem Idle.part (idle : d.Idle pures p) (isEvaluated : q ∈ d.evaluated p) : d.Idle pures q
  := fun r onwards => idle r (.part isEvaluated onwards)

theorem Idle.of_evaluates (idle : d.Idle pures e) (evaluates : d.Evaluates e q) : d.Idle pures q
  := by
  induction evaluates with
  | refl => exact idle
  | part isEvaluated _ ih => exact ih (idle.part isEvaluated)

theorem Evaluates.mem_of_closed {l : List Nat} (evaluates : d.Evaluates e q) (start : e ∈ l)
    (closed : ∀ p ∈ l, ∀ r ∈ d.evaluated p, r ∈ l) : q ∈ l
  := by
  induction evaluates with
  | refl => exact start
  | part isEvaluated _ ih => exact ih (closed _ start _ isEvaluated)

theorem Idle.candid (idle : d.Idle pures p) : d.Candid pures p := by
  refine ⟨fun acts => ?_, fun _ q isEvaluated => .inr (idle.part isEvaluated)⟩
  rw [idle p (.refl p)] at acts
  cases acts

theorem shows_of_candid (candid : ∀ r, d.Evaluates e r → d.Candid pures r) (evaluates : d.Evaluates e q)
    (acts : d.isAct pures q = true) : d.Shows (d.Strange pures) e
  := by
  induction evaluates with
  | refl p =>
    rcases (candid p (.refl p)).act acts with kind | kind | ⟨kind, strange⟩
    · exact .assignment kind
    · exact .update kind
    · exact .call kind strange
  | @part p q r isEvaluated onwards ih =>
    cases actsHere : d.isAct pures p with
    | true =>
      rcases (candid p (.refl p)).act actsHere with kind | kind | ⟨kind, strange⟩
      · exact .assignment kind
      · exact .update kind
      · exact .call kind strange
    | false =>
      rcases (candid p (.refl p)).part actsHere q isEvaluated with ⟨kind, heard⟩ | idle
      · exact .part kind heard (ih (fun s below => candid s (.part isEvaluated below)) acts)
      · rw [idle r onwards] at acts
        cases acts

theorem idle_iff_candid (hidden : ¬ d.Shows (d.Strange pures) e) :
  d.Idle pures e ↔ ∀ q, d.Evaluates e q → d.Candid pures q
  := by
  constructor
  · exact fun idle q evaluates => (idle.of_evaluates evaluates).candid
  · intro candid q evaluates
    rw [Bool.eq_false_iff]
    exact fun acts => hidden (shows_of_candid candid evaluates acts)

end Draft

namespace Pass.SideEffects

open Draft

variable {d d' : Draft} {m : Manner} {program : Nat}

theorem mem_kids_statement {p e : Nat} (kind : d.kindAt p = .expressionStatement)
    (isExpression : d.attrAt p .expression = .place e) :
  .expr (.place e) ∈ d.kids (.stmt (.place p))
  := by simp [kids, stmtKids, kind, isExpression]

/-- Only expression statements are removed, and a statement that is removed does nothing exactly if all
that happens in it is seen.  An expression statement of the program that is left shows an effect. -/
theorem removed_idle_iff (tidy : d.Tidy) (numbered : d.Numbered)
    (run : ([.sideEffects, .uselessStatements].forM (Task.run m program) : Edit Unit) d = .ok () d') :
  (∀ l x, x ∈ d.listAt l → x ∉ d'.listAt l → ∃ p e, x = .place p ∧ d.kindAt p = .expressionStatement ∧
    d.attrAt p .expression = .place e ∧
    (d.Idle m.pures e ↔ ∀ q, d.Evaluates e q → d.Candid m.pures q)) ∧
  ∀ p e, .place p ∈ d'.itemsAt (d.attrAt program .body) → d.kindAt p = .expressionStatement →
    d.attrAt p .expression = .place e → d.Shows (fun c => d.isHarmless m.pures c = false) e
  := by
  obtain ⟨_, d1, marks, afterMarks⟩ := Edit.bind_eq_ok.1 run
  obtain ⟨_, d2, cleans, ⟨⟩⟩ := Edit.bind_eq_ok.1 afterMarks
  obtain ⟨_, marked, all⟩ := mark_eq_ok tidy numbered marks
  obtain ⟨cleaned, body, isBody, left⟩ := remover_eq_ok marked.tidy cleans
  have thins := (markerTour d m.pures).thins marked
  constructor
  · intro l x inList removed
    rw [← marked.annotated.list l] at inList
    obtain ⟨p, rfl, useless, reached⟩ := cleaned.removed l x inList removed
    obtain ⟨kind, e, isExpression, unmarked⟩ := isUseless_iff.1 useless
    rw [marked.annotated.kind] at kind
    rw [marked.annotated.attr p _ (by decide)] at isExpression
    obtain ⟨b, isMark⟩ := all _ ((thins.reached reached).kid (mem_kids_statement kind isExpression))
    rw [isMark] at unmarked
    refine ⟨p, e, rfl, kind, isExpression, idle_iff_candid fun isShown => ?_⟩
    obtain rfl := (marked.fits e b isMark).1 isShown
    cases unmarked
  · intro p e inBody kind isExpression
    rw [marked.annotated.attr program _ (by decide)] at isBody
    rw [isBody] at inBody
    have inBefore : .place p ∈ d1.listAt body := (cleaned.thins.list body).subset inBody
    rw [marked.annotated.list] at inBefore
    have reached : d.Reached program (.stmt (.place p)) := ⟨.place p, by rwa [isBody], .refl _⟩
    obtain ⟨b, isMark⟩ := all _ (reached.kid (mem_kids_statement kind isExpression))
    apply (marked.fits e b isMark).2
    have useful := left p inBody
    cases b with
    | true => rfl
    | false =>
      rw [isUseless_iff.2] at useful
      · cases useful
      · rw [marked.annotated.kind, marked.annotated.attr p _ (by decide)]
        exact ⟨kind, e, isExpression, by rw [isMark]; rfl⟩

/-! ### A program -/

def sampleTree : Tree :=
  let name (r : Nat) (t : String) : Tree := .node r .identifier [(.name, .text (.ofString t))]
  let call (r : Nat) (callee argument : Tree) : Tree :=
    .node r .callExpression [(.callee, callee), (.arguments, .list [argument])]
  let assignment (r : Nat) (target value : Tree) : Tree :=
    .node r .assignmentExpression [(.operator, .text (.ofString "=")), (.left, target), (.right, value)]
  let statement (r : Nat) (e : Tree) : Tree := .node r .expressionStatement [(.expression, e)]
  .node 0 .program [(.body, .list [
    statement 1 (.node 2 .binaryExpression [(.operator, .text (.ofString "+")), (.left, name 3 "a"),
      (.right, call 4 (name 5 "f") (name 6 "b"))]),
    statement 7 (assignment 8 (name 9 "x") (.node 10 .literal [])),
    statement 11 (call 12 (name 13 "f") (assignment 14 (name 15 "x") (.node 16 .literal [])))])]

def sample : Draft := (Draft.load {} { fresh := 17 } sampleTree).1

def sampleManner : Manner := { pures := [.ofString "f"] }

theorem sample_statements : sample.listAt 19 = [.place 1, .place 7, .place 11]
  := map_place?_eq_iff.1 (show _ = [1, 7, 11].map some by decide +kernel)

theorem sample_run :
  ∃ d', ([.sideEffects, .uselessStatements].forM (Task.run sampleManner 0) : Edit Unit) sample = .ok () d' ∧
    d'.listAt 19 = [.place 7]
  := by
  have ends : (match ([.sideEffects, .uselessStatements].forM (Task.run sampleManner 0) : Edit Unit) sample with
      | .ok _ d' => decide ((d'.listAt 19).map Edit.Item.place? = [some 7])
      | .error .. => false) = true := by decide +kernel
  revert ends
  cases ([.sideEffects, .uselessStatements].forM (Task.run sampleManner 0) : Edit Unit) sample with
  | ok _ d' =>
    intro ends
    obtain ⟨x, isSingle, isPlace⟩ := List.map_eq_singleton_iff.1 (of_decide_eq_true ends)
    rw [place?_eq_some_iff.1 isPlace] at isSingle
    exact ⟨d', rfl, isSingle⟩
  | error _ _ => nofun

theorem sample_candid (q : Nat) (evaluates : sample.Evaluates 2 q) : sample.Candid sampleManner.pures q
  := by
  have inside : q ∈ [2, 3, 4, 5, 6] := evaluates.mem_of_closed (by decide) (by decide +kernel)
  have quiet : ∀ p ∈ [2, 3, 4, 5, 6], sample.isAct sampleManner.pures p = false := by decide +kernel
  have idle (p : Nat) (isName : p ∈ [3, 5, 6]) : sample.Idle sampleManner.pures p := by
    intro r onwards
    have isName' : r ∈ [3, 5, 6] := onwards.mem_of_closed isName (by decide +kernel)
    exact quiet r ((by decide : [3, 5, 6] ⊆ [2, 3, 4, 5, 6]) isName')
  have named : ∀ p ∈ [3, 4, 5, 6], ∀ r ∈ sample.evaluated p, r ∈ [3, 5, 6] := by decide +kernel
  constructor
  · intro acts
    rw [quiet q inside] at acts
    cases acts
  · intro _ r isEvaluated
    rcases List.mem_cons.1 inside with rfl | rest
    · have kind : sample.kindAt 2 = .binaryExpression := by decide +kernel
      have isTerm : .place r ∈ [sample.attrAt 2 .left, sample.attrAt 2 .right] := by
        rw [evaluated, ways, kind, List.flatten_singleton, List.mem_filterMap] at isEvaluated
        obtain ⟨x, isTerm, isPlace⟩ := isEvaluated
        rwa [place?_eq_some_iff.1 isPlace] at isTerm
      left
      rw [heard, kind]
      exact ⟨by decide, List.mem_map_of_mem isTerm⟩
    · exact .inr (idle r (named q rest r isEvaluated))

theorem removed_idle_sample :
  ∃ d', ([.sideEffects, .uselessStatements].forM (Task.run sampleManner 0) : Edit Unit) sample = .ok () d' ∧
    .place 1 ∈ sample.listAt 19 ∧ .place 1 ∉ d'.listAt 19 ∧ sample.Idle sampleManner.pures 2 ∧
    .place 7 ∈ d'.listAt 19 ∧ sample.Shows (fun c => sample.isHarmless sampleManner.pures c = false) 8
  := by
  obtain ⟨d', run, isLeft⟩ := sample_run
  obtain ⟨removed, kept⟩ := removed_idle_iff (by decide +kernel) (by decide +kernel) run
  have before : .place 1 ∈ sample.listAt 19 := by simp [sample_statements]
  have after : .place 1 ∉ d'.listAt 19 := by simp [isLeft]
  have stays : .place 7 ∈ d'.listAt 19 := by simp [isLeft]
  have body : sample.attrAt 0 .body = .list 19 := list?_eq_some_iff.1 (by decide +kernel)
  have first : sample.attrAt 1 .expression = .place 2 := place?_eq_some_iff.1 (by decide +kernel)
  have second : sample.attrAt 7 .expression = .place 8 := place?_eq_some_iff.1 (by decide +kernel)
  obtain ⟨p, e, isPlace, -, isExpression, idle_iff⟩ := removed 19 _ before after
  obtain rfl : 1 = p := Item.place.inj isPlace
  obtain rfl : 2 = e := Item.place.inj (first.symm.trans isExpression)
  exact ⟨d', run, before, after, idle_iff.2 sample_candid, stays,
    kept 7 8 (by rwa [body]) (by decide +kernel) second⟩

/-- The last statement is removed, although it assigns to a variable. -/
theorem removed_assignment :
  ∃ d', ([.sideEffects, .uselessStatements].forM (Task.run sampleManner 0) : Edit Unit) sample = .ok () d' ∧
    .place 11 ∈ sample.listAt 19 ∧ .place 11 ∉ d'.listAt 19 ∧
    ∃ e q, sample.attrAt 11 .expression = .place e ∧ sample.Evaluates e q ∧
      sample.kindAt q = .assignmentExpression
  := by
  obtain ⟨d', run, isLeft⟩ := sample_run
  refine ⟨d', run, by simp [sample_statements], by simp [isLeft], 12, 14,
    place?_eq_some_iff.1 (by decide +kernel), ?_, by decide +kernel⟩
  exact .part (by decide +kernel) (.refl 14)

end Pass.SideEffects

end ScriptLens
