import ScriptLens.Pass.Inline
import ScriptLens.Pass.Rename
import ScriptLens.Pass.Unroll
import ScriptLens.Pass.UnusedVariables

/-!
# Plans

The passes by name, and the order in which a program goes through them.
-/

open ScriptLens.Edit

namespace ScriptLens.Pass.DeadBlocks

def beforeStmt (p : Nat) : Edit Bool := do
  if !Edit.holds (← note p .countedBlock) then
    setNote p .countedBlock (.flag true)
    count fun s => { s with blocks.all := s.blocks.all + 1 }
  if !(← isTrue p .isLive) && (← kind p) == .blockStatement then
    let comments ← newList [comment " Dead Code "]
    let e ← newNode .emptyStatement [(.leadingComments, comments)]
    setAttr p .body (← newList [.place e])
    count fun s => { s with blocks.done := s.blocks.done + 1 }
    return false
  return true

def pass : Pass Unit where
  beforeStmt p := beforeStmt p

end ScriptLens.Pass.DeadBlocks

namespace ScriptLens.Pass.Evaluated

def blockOf (program : Nat) : Edit Nat := do
  newNode .blockStatement
    [(.body, ← attr program .body), (.isLive, .leaf (.flag true))]

def beforeStmt (p : Nat) : Edit Bool := do
  if (← kind p) == .expressionStatement then
    let e ← child p .expression
    if let .place program ← note e .evalTree then
      if holds (← note e .evalUnused) then
        share p (← blockOf program)
  return true

def beforeExpr (p : Nat) : Edit Bool := do
  match ← note p .isEval with
  | .none => pure ()
  | _ => count fun s => { s with evals.all := s.evals.all + 1 }
  if let .place program ← note p .evalTree then
    if !Edit.holds (← note p .evalUnused) then
      let b ← blockOf program
      setAttr p .arguments (← newList [.place b])
    setNote p .evalTree .none
    count fun s => { s with evals.done := s.evals.done + 1 }
  if let .places (q :: _) ← note p .madeFunction then
    count fun s => { s with evals.done := s.evals.done + 1 }
    share p (← child q .expression)
  return true

def pass : Pass Unit where
  beforeStmt p := beforeStmt p
  beforeExpr p := beforeExpr p

end ScriptLens.Pass.Evaluated

namespace ScriptLens.Pass.Members

def knownName (p : Nat) : Edit (Option Text) := do
  if !(← isTrue p .computed) then return none
  match ← valueOf (← child p .property) with
  | .prim (.text t) => return some t
  | _ => return none

def nameProperty (p : Nat) (t : Text) : Edit Bool := do
  setAttr p .computed (.leaf (.flag false))
  let q ← child p .property
  setAttr q .name (.leaf (.text t))
  return holds (← note q .impure)

def afterEffects (p member last : Nat) : Edit Unit := do
  let es ← itemsOf (← child member .property) .expressions
  let l ← newList (es.dropLast ++ [.place last])
  let n ← newNode .sequenceExpression [(.expressions, l)]
  share p n

def beforeExpr (p : Nat) : Edit Bool := do
  let k ← kind p
  if k == .assignmentExpression then
    let left ← child p .left
    if (← kind left) == .memberExpression then
      if let some t ← knownName left then
        if ← nameProperty left t then
          let c ← newNode .assignmentExpression
            [(.operator, ← attr p .operator), (.left, .place left),
             (.right, ← attr p .right)]
          afterEffects p left c
  else if k == .memberExpression then
    if let some t ← knownName p then
      if ← nameProperty p t then
        let c ← newNode .memberExpression
          [(.computed, .leaf (.flag false)), (.object, ← attr p .object),
           (.property, ← attr p .property)]
        afterEffects p p c
  return true

def pass : Pass Unit where
  beforeExpr p := beforeExpr p

end ScriptLens.Pass.Members

namespace ScriptLens

inductive Task where
  | evaluated
  | deadBlocks
  | simplify
  | unusedVariables
  | sideEffects
  | uselessStatements
  | members
  | unroll
  | inline
  | rename
deriving DecidableEq

structure Manner where
  pures : List Text := []
  /-- Whether a value that may also be undefined counts as known. -/
  ignoreUndefined : Bool := false
  /-- Whether unused variables are only described. -/
  onlyComment : Bool := false
  /-- Whether loops are unrolled however long they become. -/
  alwaysUnroll : Bool := false
  /-- How the sounds of new names are chosen. -/
  choose : Pass.Rename.Choice := .inTurn

def Task.run (m : Manner) (program : Nat) : Task → Edit Unit
  | evaluated => Pass.Evaluated.pass.run program ()
  | deadBlocks => Pass.DeadBlocks.pass.run program ()
  | simplify => do
    let _ ← (Pass.Simplify.pass ⟨m.pures, m.ignoreUndefined⟩).run program []
  | unusedVariables => Pass.UnusedVariables.run m.onlyComment program
  | sideEffects => Pass.SideEffects.mark m.pures program
  | uselessStatements => Pass.SideEffects.remover.run program ()
  | members => Pass.Members.pass.run program ()
  | unroll => (Pass.Unroll.pass m.alwaysUnroll).run program ()
  | inline => do
    let _ ← Pass.Inline.pass.run program 0
  | rename => do
    let _ ← (Pass.Rename.pass m.choose).run program {}

structure Plan where
  manner : Manner := {}
  handlesEvaluated : Bool := true
  removesDeadBlocks : Bool := true
  simplifies : Bool := true
  removesVariables : Bool := true
  removesStatements : Bool := true
  rewritesMembers : Bool := true
  unrolls : Bool := true
  inlines : Bool := true
  renames : Bool := true

namespace Plan

def given (b : Bool) (l : List Task) : List Task := if b then l else []

/-- The tasks that are done before and after inlining. -/
def cleaning (p : Plan) : List Task :=
  given p.simplifies [.simplify] ++ given p.removesVariables [.unusedVariables, .sideEffects]
    ++ given p.removesStatements [.sideEffects, .uselessStatements]

def first (p : Plan) : List Task :=
  given p.handlesEvaluated [.evaluated] ++ given p.removesDeadBlocks [.deadBlocks] ++ p.cleaning
    ++ given p.rewritesMembers [.members] ++ given p.unrolls [.unroll]

def last (p : Plan) : List Task := p.cleaning ++ given p.renames [.rename]

def run (p : Plan) (program : Nat) : Edit Unit := do
  markAll (← depth) (.place program)
  p.first.forM (Task.run p.manner program)
  if p.inlines then Pass.Inline.exhaust program Pass.patience
  p.last.forM (Task.run p.manner program)

end Plan

end ScriptLens
