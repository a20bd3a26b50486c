import ScriptLens.Pass.Definitions
import ScriptLens.Pass.SideEffects

/-!
# Unused variables

Removes the definitions of local variables that are not used, neither where they stand nor by a
function inside theirs.
-/

namespace ScriptLens.Pass.UnusedVariables

open Edit

/-- What is defined in which way. -/
inductive Form where
  | assign
  | declare
  | update
deriving DecidableEq

namespace Form

def name : Form → String
  | assign => "Assign"
  | declare => "Declare"
  | update => "Update"

def target : Form → Attr
  | assign => .left
  | declare => .id
  | update => .argument

end Form

def shownSet (n : Note) : Text :=
  match n with
  | .nodeSet s => "\x7b" ++ Text.intercalate ", " (s.ids.map Decimal.natText) ++ "\x7d"
  | _ => "\x7b\x7d"

def isTaken (function : Nat) (name : Tree) : Edit Bool := do
  match ← note function .innerNames with
  | .nameSet l => return (name.text?).any l.contains
  | _ => throw .wrongKind

def isIdle (p : Nat) (function : Note) (f : Form) : Edit Bool := do
  if !Edit.holds (← note p .useless) then return false
  match function with
  | .place body =>
    let name ← nameOf (← child p f.target)
    return !(← isTaken body name)
  | _ => return false

def description (p : Nat) (f : Form) : Edit Text := do
  let value := match ← note p .useless with
    | .flag true => "Val-Unused-locally, "
    | .flag false => "Val-Used-locally, "
    | _ => "Always-Keep, "
  let start : Text := " Type: " ++ Text.ofString f.name ++ ", ID: "
    ++ Decimal.natText (← mark p) ++ ", " ++ Text.ofString value ++ "Locally-Used-By: "
    ++ shownSet (← note p .usedBy) ++ ", "
  let declared ← (do
    if f == .declare then
      let isUseless := holds (← note p .declUseless)
      return Text.ofString (if isUseless then "Decl-Unused, " else "Decl-Used, ")
        ++ "Decl-Used-By: " ++ shownSet (← note p .declUsedBy) ++ ", "
    else return {} : Edit Text)
  let effects : Text :=
    if holds (← note p .hasEffects) then "RValue-Has-Side-Effects, "
    else "RValue-Has-No-Side-Effects, "
  let place ← (do
    match ← note p .inFunction with
    | .place body =>
      let name ← nameOf (← child p f.target)
      if ← isTaken body name then return "In-Function, Used-By-Closures"
      else return "In-Function, Unused-By-Closures"
    | _ => return "Not-In-Function " : Edit Text)
  return start ++ declared ++ effects ++ place

def comment (p : Nat) (t : Text) : Edit Unit := do
  Edit.setAttr p .trailingComments (← Edit.newList [Edit.comment t])

/-- Describes a definition, or removes the variable of an assignment that is useless. -/
def definition (onlyComment : Bool) (p : Nat) (f : Form) : Edit Unit := do
  if onlyComment then comment p (← description p f)
  else if (← kind p) == .assignmentExpression then
    let function ← note p .inFunction
    if ← isIdle p function .assign then
      if !Edit.holds (← note p .hasEffects) then
        share p (← child p .right)

def isIdleExpression (p : Nat) : Edit Bool := do
  let e ← child p .expression
  let function ← note e .inFunction
  let first ← (do
    if (← kind e) == .assignmentExpression then
      if ← isIdle e function .assign then
        if holds (← note e .hasEffects) then
          share e (← child e .right)
          return false
        else return true
      else return false
    else return false : Edit Bool)
  if (← kind e) == .updateExpression then isIdle e function .update else return first

def isIdleDeclaration (p : Nat) : Edit Bool := do
  if (← kind (← child p .id)) == .objectPattern then return false
  let function ← note p .inFunction
  if !(← isIdle p function .declare) then return false
  if holds (← note p .hasEffects) then return false
  if holds (← note p .declUseless) then return true
  setAttr p .initial (.leaf .null)
  return false

def removeAll (l : Nat) (ps : List Nat) : Edit Unit :=
  ps.forM fun p => do setItems l (SideEffects.without p (← items l))

def isIdleStatement (p : Nat) : Edit Bool := do
  if !Edit.holds (← note p .countedVariable) then
    count fun s => { s with definitions.all := s.definitions.all + 1 }
    setNote p .countedVariable (.flag true)
  match ← kind p with
  | .expressionStatement => isIdleExpression p
  | .variableDeclaration =>
    match ← attr p .declarations with
    | .list l =>
      let declared := (← items l).filterMap Item.place?
      let idle ← declared.filterM isIdleDeclaration
      removeAll l idle
      return (← items l).isEmpty
    | _ => throw .wrongKind
  | _ => return false

def cleanBlock (p : Nat) : Edit Unit := do
  match ← attr p .body with
  | .list l =>
    let statements := (← items l).filterMap Item.place?
    let idle ← statements.filterM isIdleStatement
    idle.forM fun _ => count fun s => { s with definitions.done := s.definitions.done + 1 }
    removeAll l idle
  | _ => throw .wrongKind

def beforeStmt (onlyComment : Bool) (p : Nat) : Edit Bool := do
  let k ← kind p
  if k == .variableDeclaration then
    (← itemsOf p .declarations).forM fun x => do
      match x with
      | .place q => definition onlyComment q .declare
      | _ => throw .missingPart
  if k == .blockStatement && !onlyComment then cleanBlock p
  return true

def beforeExpr (onlyComment : Bool) (p : Nat) : Edit Bool := do
  let _ ← mark p
  match ← kind p with
  | .assignmentExpression => definition onlyComment p .assign
  | .updateExpression => definition onlyComment p .update
  | _ => pure ()
  if onlyComment then
    if (← kind p) == .callExpression then
      comment p (" Type: Call, ID: " ++ Decimal.natText (← mark p) ++ " ")
    else if holds (← note p .test) then
      comment p (" Type: Test, ID: " ++ Decimal.natText (← mark p) ++ " ")
  return true

def pass (onlyComment : Bool) : Pass Unit where
  beforeStmt p := beforeStmt onlyComment p
  beforeExpr p := beforeExpr onlyComment p

def run (onlyComment : Bool) (program : Nat) : Edit Unit := do
  Definitions.run program
  (pass onlyComment).run program ()

end ScriptLens.Pass.UnusedVariables
