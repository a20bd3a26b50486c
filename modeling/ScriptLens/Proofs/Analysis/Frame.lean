import ScriptLens.Proofs.Analysis.Passive

/-!
# Parts of the analysis made of plain steps

The parts of the analysis that do not go into expressions, statements or calls obey each local
discipline, or at least each wide one: they neither note an effect of the current function nor touch
the state in which a loop is continued, and they add neither a loop nor a caller.
-/

namespace ScriptLens.Analysis

set_option synthInstance.maxSize 100000

variable {K : Discipline}

/-! ### Comparing pieces of a program -/

/-- The values of two nodes may be compared. -/
class Comparing (K : Discipline) : Prop where
  values (a b : Tree) : Obeys K (compareValues a b)

attribute [instance] Comparing.values

section

variable (a b : Tree)

instance (n : Attr) : Obeys K (findAttr a n) := by
  unfold findAttr
  refine .look fun _ => ?_
  dsimp only
  split
  · infer_instance
  · split
    · infer_instance
    · split <;> infer_instance

instance (l : List (Attr × Tree)) : Obeys K (alikeExtras b l) := by
  induction l with
  | nil => unfold alikeExtras; infer_instance
  | cons p l ih => unfold alikeExtras; infer_instance

variable [Comparing K]

instance : Obeys K (alike a b) := by
  -- The induction follows the comparison of trees, of attributes and of lists.
  refine alike.induct (fun a b => Obeys K (alike a b))
    (fun extras b l => Obeys K (alikeAttrs extras b l)) (fun l m => Obeys K (alikeList l m))
    ?lists ?plain ?differs ?nodes ?other ?noAttrs ?attrs ?noItems ?tooFew ?items a b
  case lists => intro l m ih; unfold alike; exact ih
  case plain => intro r k as b plain; unfold alike; rw [if_pos plain]; infer_instance
  case differs =>
    intro r k as b node _ differs
    unfold alike
    rw [if_neg node]
    dsimp only
    rw [if_pos differs]
    infer_instance
  case nodes =>
    intro r k as b node _ same ih
    unfold alike
    rw [if_neg node]
    dsimp only
    rw [if_neg same]
    have serial (a : Tree) : Obeys K (do
        if !((← get).notes.serialAttr a).isEmpty then
          let _ ← findAttr b .serial
        compareValues a b
        return true) :=
      .look inferInstance
    refine .look fun m => ?_
    have := ih m
    infer_instance
  case other =>
    intro a b notLists notNode
    unfold alike
    split
    · exact absurd rfl fun same => notLists _ _ same rfl
    · exact absurd rfl fun same => notNode _ _ _ same
    · infer_instance
  case noAttrs => intro extras b; unfold alikeAttrs; infer_instance
  case attrs =>
    intro extras b a v l ih rest
    unfold alikeAttrs
    refine .after fun w => ?_
    have := ih w
    refine .both ?_ inferInstance
    split <;> infer_instance
  case noItems => intro l; unfold alikeList; infer_instance
  case tooFew => intro a l; unfold alikeList; infer_instance
  case items => intro a l b m ih rest; unfold alikeList; infer_instance

instance (i : Int) : Obeys K (nodeOf i) := by
  unfold nodeOf
  refine .look fun _ => ?_
  split <;> infer_instance

instance (l m : List Int) : Obeys K (alikeTraces l m) := by
  fun_induction alikeTraces l m <;> infer_instance

instance (l m : List Int) : Obeys K (sameTrace l m)
  := by unfold sameTrace; infer_instance

end

instance [Marking K] [Comparing K] (t : Tree) (p : LoopProgress) : Obeys K (noteUnrolled t p) := by
  unfold noteUnrolled
  repeat refine .after fun _ => ?_
  dsimp only
  split
  · repeat refine .after fun _ => ?_
    split
    · infer_instance
    · split <;> infer_instance
    · infer_instance
  · infer_instance

section

variable [Local K]

/-! ### Slots and calls -/

section

variable (slot : Slot) (t : Tree) (v : Value) (i : Nat) (callee : Callee)

instance : Obeys K (Slot.objectId slot)
  := by unfold Slot.objectId; split <;> infer_instance

instance : Obeys K (overwrite slot v)
  := by unfold overwrite; infer_instance

instance : Obeys K deferredObject := by
  unfold deferredObject
  repeat refine .after fun _ => ?_
  split <;> infer_instance

instance : Obeys K (defer v)
  := by unfold defer; infer_instance

instance : Obeys K (refersToFunction v)
  := by unfold refersToFunction; split <;> infer_instance

instance : Obeys K (isExposed slot)
  := by unfold isExposed; split <;> infer_instance

instance (d : Int) : Obeys K (changeActive t d) := by
  unfold changeActive
  refine .after fun _ => ?_
  split <;> infer_instance

instance : Obeys K (recursionState t) := by
  unfold recursionState
  refine .after fun _ => ?_
  split <;> infer_instance

instance : Obeys K (callSiteId t) := by
  unfold callSiteId
  refine .after fun _ => ?_
  split <;> infer_instance

instance (proto : Props) : Obeys K (inherit i proto) := by
  unfold inherit
  induction proto with
  | nil => exact Obeys.pure ()
  | cons p proto ih =>
    refine .both ?_ fun _ => ih
    dsimp only
    split <;> infer_instance

instance : Obeys K (constructorOf callee i) := by
  unfold constructorOf
  split
  · split
    · repeat refine .after fun _ => ?_
      split <;> infer_instance
    · infer_instance
  · infer_instance

end

/-! ### Built-in functions -/

section

variable (v : Value) (a : Argument)

instance : Obeys K (numberOf v) := by
  unfold numberOf
  repeat refine .after fun _ => ?_
  split <;> infer_instance

instance (f : Obj → Except Failure (Value × Obj)) : Obeys K (onArray a f)
  := by unfold onArray; split <;> infer_instance

instance : Obeys K (replacer? v)
  := by unfold replacer?; split <;> infer_instance

instance (site : Option Tree) : Obeys K (callSite site)
  := by unfold callSite; split <;> infer_instance

instance (t : Text) : Obeys K (parseText t) := by
  unfold parseText
  exact .look inferInstance

instance (i : Nat) (args : List Argument) : Obeys K (nativeDisplay i args) := by
  induction args generalizing i with
  | nil => unfold nativeDisplay; infer_instance
  | cons a args ih =>
    unfold nativeDisplay
    refine .both ?_ inferInstance
    split <;> infer_instance

end

/-! ### Expressions -/

section

variable (t : Tree) (key : Key)

instance : Obeys K (evalIdentifier t)
  := by unfold evalIdentifier; dsimp only; infer_instance

instance : Obeys K evalThis
  := by unfold evalThis; infer_instance

instance (i : Nat) : Obeys K (objectMember i key) := by
  unfold objectMember
  refine .after fun _ => ?_
  split
  · split <;> infer_instance
  · dsimp only
    split <;> infer_instance

instance (x : Text) : Obeys K (textMember x key) := by
  unfold textMember
  split
  · infer_instance
  · refine @Obeys.ite _ _ _ _ _ _ inferInstance ?_
    split <;> infer_instance

instance (p : Prim) : Obeys K (numberMember p key) := by
  unfold numberMember
  dsimp only
  split
  · repeat refine .after fun _ => ?_
    split
    · infer_instance
    · refine .after fun _ => ?_
      split <;> infer_instance
  · split <;> infer_instance

instance (name : Tree) : Obeys K (newFunction t name)
  := by unfold newFunction; dsimp only; infer_instance

instance : Obeys K loopContext
  := by unfold loopContext; infer_instance

end

/-! ### Notes that last -/

/-- The program or the target of a call or a value of an expression may be noted. -/
class Noting (K : Discipline) : Prop where
  code (site : Tree) (x : Text) : Obeys K (evalCode site x)
  target (site body : Tree) (params : List Tree) : Obeys K (noteTarget site body params)
  value (t : Tree) (v : Value) : Obeys K (noteValue t v)

attribute [instance] Noting.code Noting.target Noting.value

theorem obeys_noteTarget_of {site : Tree}
    (write : ∀ n ∈ [NoteName.targetBody, .targetParams, .targetsAgree], ∀ w, Obeys K (setNote site n w))
    (body : Tree) (params : List Tree) : Obeys K (noteTarget site body params)
  := by
  have writeBody := write .targetBody (by decide)
  have writeParams := write .targetParams (by decide)
  have writeAgree := write .targetsAgree (by decide)
  unfold noteTarget
  split
  · refine .after fun _ => ?_
    split <;> infer_instance
  · infer_instance

theorem obeys_noteValue_of {t : Tree}
    (write : ∀ n ∈ [NoteName.staticValue, .contextValues], ∀ w, Obeys K (setNote t n w)) (v : Value) :
  Obeys K (noteValue t v)
  := by
  have writeValue := write .staticValue (by decide)
  have writeContext := write .contextValues (by decide)
  unfold noteValue
  infer_instance

theorem obeys_compareValues_of
    (erase : ∀ i, Obeys K (modify fun m =>
      { m with notes := m.notes.eraseAt i .staticValue } : Analysis Unit)) (a b : Tree) :
  Obeys K (compareValues a b)
  := by
  unfold compareValues
  infer_instance

instance : Local (keeping Machine.Same)
  := inferInstance

/-- Where every note may be written, so may those of calls, of values and of programs. -/
theorem Noting.of_setNote {K : Discipline} [Local K]
    (write : ∀ (t : Tree) (n : NoteName) (w : Note), Obeys K (setNote t n w)) : Noting K
  := by
  refine ⟨fun site x => ?_, fun site => obeys_noteTarget_of fun n _ => write site n,
    fun t => obeys_noteValue_of fun n _ => write t n⟩
  unfold evalCode readCode
  refine .after fun _ => ?_
  split <;> infer_instance

instance : Noting (keeping Machine.Same)
  := .of_setNote fun _ _ _ => ⟨.step fun _ => ⟨_, _, rfl, rfl, rfl, rfl⟩⟩

instance : Comparing (keeping Machine.Same)
  := ⟨obeys_compareValues_of fun _ => ⟨.change fun _ => ⟨rfl, rfl, rfl⟩⟩⟩

/-! ### Statements -/

section

variable (t u : Tree)

instance : Obeys K (canNarrow t u)
  := by unfold canNarrow; infer_instance

instance : Obeys K (comparison t)
  := by unfold comparison; infer_instance

instance (i : Nat) (k : Key) (v : Value) : Obeys K (excludeChoice i k v) := by
  unfold excludeChoice
  refine .after fun _ => ?_
  split
  · dsimp only
    split <;> infer_instance
  · infer_instance

instance : Obeys K (declareFunction t)
  := by unfold declareFunction; infer_instance

instance : Obeys K (enterStatement t)
  := by unfold enterStatement; infer_instance

end

/-! ### Loops -/

section

variable (p : LoopProgress)

instance : Obeys K markIteration := by
  unfold markIteration
  refine .after fun _ => ?_
  split <;> infer_instance

instance : Obeys K (limitIterations p) := by
  unfold limitIterations
  refine .after fun _ => ?_
  split <;> infer_instance

/-- Counting iterations changes the loops around the current point, but not what steers the
analysis. -/
instance passive_countIteration : Passive countIteration := by
  unfold countIteration
  refine .after fun _ => ?_
  apply passive_changeSession
  intro s
  split <;> exact ⟨rfl, rfl⟩

instance (saved : Session) : Passive (leaveLoop saved)
  := by unfold leaveLoop; infer_instance

end

/-! ### Programs -/

instance (i : Nat) : Obeys K (deferredFunctions i)
  := by unfold deferredFunctions; infer_instance

instance (t : Text) : Obeys K (report t)
  := by unfold report; infer_instance

end

/-! ### States that are joined or replaced -/

section

variable [Wide K] (s : State) (t : Tree) (o : Obj) (this : Receiver) (p : LoopProgress)

instance (args : List Value) : Obeys K (enterFunction o args this)
  := by unfold enterFunction; infer_instance

instance : Obeys K leaveFunction := by
  unfold leaveFunction
  refine .after fun s => ?_
  split
  · infer_instance
  · split <;> infer_instance

instance (old : Option State) (saved : Session) : Obeys K (restart t old saved) := by
  unfold restart
  refine .after fun _ => ?_
  split <;> infer_instance

instance (n : Nat) : Obeys K (cutRecursion t n) := by
  unfold cutRecursion
  refine .after fun _ => ?_
  refine .after fun _ => ?_
  split
  · refine @Obeys.ite _ _ _ _ _ _ inferInstance ?_
    refine @Obeys.ite _ _ _ _ _ _ ?_ inferInstance
    refine .after fun _ => ?_
    split <;> infer_instance
  · infer_instance

instance (l : List State) : Obeys K (joinAll l) := by
  induction l with
  | nil => unfold joinAll; infer_instance
  | cons s l ih => unfold joinAll; infer_instance

instance : Obeys K execBreak
  := by unfold execBreak; infer_instance

instance : Obeys K (absorb s)
  := by unfold absorb; infer_instance

instance : Obeys K (mergeHead p)
  := by unfold mergeHead; infer_instance

instance : Obeys K (loopHead p) := by
  unfold loopHead
  refine @Obeys.ite _ _ _ _ _ _ inferInstance ?_
  refine .after fun _ => ?_
  split <;> infer_instance

instance (v : Value) [Obeys K countIteration] : Obeys K (endIteration p v)
  := by unfold endIteration; infer_instance

instance : Obeys K (joinBroken p)
  := by unfold joinBroken; infer_instance

end

end ScriptLens.Analysis
