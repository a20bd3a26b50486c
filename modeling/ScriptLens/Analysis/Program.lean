import ScriptLens.Analysis.Statement

/-!
# Programs

A program is analysed from its first statement to its last one.  After that the functions that were
put aside are called, in any order and any number of times: each of them from the state that covers
all that may have happened before, until that state does not change any more.

`analyze` is the analysis of a program text.
-/

namespace ScriptLens

namespace Analysis

open Text Decimal

def callDeferred (r : Engine) : List Ref → Analysis Unit
  | [] => return ()
  | f :: l => do
    let other ← (← state).clone
    let (_, other) ← onState other (do
      let o ← object f.target
      r.invoke (.object o) none [] .unbound)
    setState (← (← state).join other)
    callDeferred r l

def deferredFunctions (i : Nat) : Analysis (List Ref) := do
  let o ← object i
  return (Choices.ofList (o.props.flatMap fun p => p.2.choices)).filterMap Atom.ref?

def settle (r : Engine) (deferred : Nat) (header : State) (round : Nat) : Nat → Analysis Nat
  | 0 => fail .unfinished
  | n + 1 => do
    let previous ← header.clone
    collect
    let header ← absorb header
    let previous ← collectIn previous
    let header ← collectIn header
    let previous ← previous.unify header
    let previous ← collectIn previous
    let functions ← deferredFunctions deferred
    if ← header.equal previous then return round
    callDeferred r functions
    settle r deferred header (round + 1) n

def report (t : Text) : Analysis Unit := do if !(← session).isQuiet then print t

def runBody (r : Engine) (t : Tree) : Analysis Unit := do
  report "Starting abstract interpretation of main program..."
  hoistedSequence r (t.get .body).items
  report "Main program processing finished."
  collect
  report "Processing callbacks..."
  let deferred ← deferredObject
  let rounds ← settle r deferred .bottom 1 patience
  report (ofString "Abstract state stabilized after " ++ natText rounds
    ++ ofString " steps.")

def lineOf (t : Text) (i : Int) : Nat :=
  ((t.extract 0 i.toNat).toList.filter (· == 10)).length + 1

def shownStatement (source : Text) (t : Tree) : Text :=
  let (i, j) := (spanOf t).getD (0, 0)
  ofString t.kind.name ++ ofString ", range: [" ++ intText i
    ++ ofString ", " ++ intText j ++ ofString "], lines: "
    ++ natText (lineOf source i) ++ ofString "-" ++ natText (lineOf source j)
    ++ ofString "\nsource: " ++ source.extract i.toNat j.toNat

def printCallers (source : Text) : List (Option Tree) → Analysis Unit
  | [] => return ()
  | none :: _ => fail .wrongKind
  | some t :: l => do
    print (ofString "Called from: \n" ++ shownStatement source t ++ ofString "\n")
    printCallers source l

def printInterrupt (e : Interrupt) : Analysis Unit := do
  let s ← session
  let last := match s.last with
    | some t => shownStatement s.source t
    | none => "<<PROGRAM START>>\n"
  print "\n=== ERROR DURING ABSTRACT INTERPRETATION ==="
  print "\nWith abstract state: "
  print (← state).shown
  print "\nAt analyzed program statement: "
  print (last ++ ofString "\n")
  printCallers s.source s.callers.reverse
  let what : Text := match e with
    | .unwind site => natText site
    | .failure _ => ""
  print (ofString "\nException " ++ what ++ ofString ":")

/-- Runs a computation; if it is interrupted, says so before the interruption goes on. -/
def reporting (body : Analysis Unit) : Analysis Unit := fun m =>
  match body m with
  | .ok a m' => .ok a m'
  | .error e m' =>
    match printInterrupt e m' with
    | .ok _ m'' => .error e m''
    | .error e' m'' => .error e' m''

def inSession (s : Session) (body : Analysis Unit) : Analysis Unit := fun m =>
  match body { m with session := s, source := s.source } with
  | .ok a m' => .ok a { m' with session := m.session }
  | .error e m' => .error e { m' with session := m.session }

def runProgram (r : Engine) (t : Tree) (text : Text) : Analysis Unit :=
  inSession { source := text, isQuiet := true } (reporting (runBody r t))

def engine : Nat → Engine
  | 0 =>
    { expr := fun _ => fail .unfinished
      exec := fun _ _ => fail .unfinished
      invoke := fun _ _ _ _ => fail .unfinished
      program := fun _ _ => fail .unfinished }
  | n + 1 =>
    { expr := fun t => evalExpr (engine n) t
      exec := fun t hoisting => execStatement (engine n) t hoisting
      invoke := fun callee site args this => invoke (engine n) callee site args this
      program := fun t text => runProgram (engine n) t text }

end Analysis

structure Outcome where
  tree : Tree
  machine : Machine

namespace Outcome

def printed (o : Outcome) : Text :=
  Text.concat (o.machine.printed.reverse.map fun t => t.push 10)

/-- The names of the functions of the program, in the order in which they were first seen. -/
def functionNames (o : Outcome) : List Tree :=
  o.machine.session.functions.reverse.map fun t => o.machine.notes.attr t .name

end Outcome

/-- The machine before the analysis of a program; all nodes of the program have numbers. -/
def Machine.start (options : Options) (isQuiet : Bool) (source : Text) (p : Parsed) : Machine :=
  { setting := { options, roots := Builtin.startRoots }
    state := Builtin.startState
    nextId := Builtin.deferredId + 1
    nextRef := p.nextRef
    notes := ({} : Notes).markTree p.tree
    source
    session := { source, isQuiet } }

def analyze (options : Options) (isQuiet : Bool) (source : Text) : Except Failure Outcome := do
  let p ← parseScript source 1
  let body := Analysis.reporting (Analysis.runBody (Analysis.engine Analysis.patience) p.tree)
  match body (Machine.start options isQuiet source p) with
  | .ok _ m => return { tree := p.tree, machine := m }
  | .error (.failure f) _ => throw f
  | .error (.unwind _) _ => throw .unfinished

end ScriptLens
