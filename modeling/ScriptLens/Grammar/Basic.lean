import ScriptLens.Token.Stream
import ScriptLens.Tree.Basic

/-!
# Parsing

The state of a parser and its steps.  A parser looks one token ahead.  Its `Context` says which
forms are allowed where it stands; `Mark` is a place from which a node may start.
-/

namespace ScriptLens

/-- The part of a source that a node covers. -/
structure Span where
  first : Place
  last : Place
  start : Nat
  stop : Nat
deriving DecidableEq

structure Settings where
  source : Source
  range : Bool := false
  loc : Bool := false
  origin : Text := ""
  tokens : Bool := false
  comment : Bool := false
  attachComment : Bool := false
  markup : Bool := false
  classFields : Bool := false
  /-- What to put in the place of a node that has just been built. -/
  delegate : Option (Tree → Span → Option Tree) := none

structure Mark where
  index : Nat
  line : Nat
  column : Int
deriving DecidableEq

structure Context where
  isModule : Bool := false
  allowAwait : Bool := false
  allowIn : Bool := true
  allowStrictDirective : Bool := true
  allowYield : Bool := true
  /-- The first initializer of a shorthand property, which only a pattern may have. -/
  shorthandInitializer : Option Token := none
  isAssignmentTarget : Bool := false
  isBindingElement : Bool := false
  inFunctionBody : Bool := false
  inIteration : Bool := false
  inSwitch : Bool := false
  labels : List Text := []
  strict : Bool := false
deriving DecidableEq

structure WaitingComment where
  comment : Tree
  start : Nat
  stop : Nat

structure NodeComments where
  inner : List Tree := []
  leading : List WaitingComment := []
  trailing : List WaitingComment := []

structure Attachment where
  collected : Array Tree := #[]
  /-- Nodes that may still give up comments, the latest first, with their starts. -/
  stack : List (Nat × Nat) := []
  leading : List WaitingComment := []
  trailing : List WaitingComment := []
  attached : List (Nat × NodeComments) := []

structure Parser where
  cursor : Cursor
  lookahead : Token
  /-- Whether the token ahead stands on another line than the one before it. -/
  newline : Bool := false
  context : Context := {}
  tokens : Array Tree := #[]
  startMark : Mark
  lastMark : Mark
  nextRef : Nat
  comments : Attachment := {}
  built : Array (Kind × Span) := #[]

abbrev Parse := ReaderT Settings (EStateM Failure Parser)

namespace Parse

def scan {α : Type} (x : Scan α) : Parse α := fun settings p =>
  match x settings.source p.cursor with
  | .ok a c => .ok a { p with cursor := c }
  | .error f c => .error f { p with cursor := c }

theorem scan_eq_ok {α : Type} {x : Scan α} {s : Settings} {p p' : Parser} {a : α}
    (run : scan x s p = .ok a p') : ∃ c, x s.source p.cursor = .ok a c ∧ p' = { p with cursor := c }
  := by
  unfold scan at run
  split at run
  · rename_i b c found
    cases run
    exact ⟨c, found, rfl⟩
  · cases run

abbrev size : Parse Nat := do return (← read).source.text.length + 2

abbrev ahead : Parse Token := do return (← get).lookahead

abbrev context : Parse Context := do return (← get).context

def setContext (f : Context → Context) : Parse Unit :=
  modify fun p => { p with context := f p.context }

/-- Does something in another context, and then puts back parts of the context before. -/
def within {α : Type} (change : Context → Context) (restore : Context → Context → Context)
    (x : Parse α) : Parse α := do
  let before ← context
  setContext change
  let a ← x
  setContext (restore before)
  return a

/-- Reads with `in` being an operator or not. -/
def withIn {α : Type} (allowIn : Bool) : Parse α → Parse α :=
  within (fun c => { c with allowIn }) fun before c => { c with allowIn := before.allowIn }

/-- Reads with `yield` being a name or not. -/
def withYield {α : Type} (allowYield : Bool) : Parse α → Parse α :=
  within (fun c => { c with allowYield }) fun before c => { c with allowYield := before.allowYield }

def withFunction {α : Type} (isAsync generator : Bool) : Parse α → Parse α :=
  within (fun c => { c with allowAwait := isAsync, allowYield := !generator })
    fun before c => { c with allowAwait := before.allowAwait, allowYield := before.allowYield }

def asStrict {α : Type} : Parse α → Parse α :=
  within (fun c => { c with strict := true }) fun before c => { c with strict := before.strict }

def inFunction {α : Type} : Parse α → Parse α :=
  within
    (fun c => { c with
      labels := [], inIteration := false, inSwitch := false, inFunctionBody := true })
    fun before c => { c with
      labels := before.labels, inIteration := before.inIteration, inSwitch := before.inSwitch
      inFunctionBody := before.inFunctionBody }

def inLoop {α : Type} : Parse α → Parse α :=
  within (fun c => { c with inIteration := true })
    fun before c => { c with inIteration := before.inIteration }

def inSwitch {α : Type} : Parse α → Parse α :=
  within (fun c => { c with inSwitch := true }) fun before c => { c with inSwitch := before.inSwitch }

def labeled {α : Type} (name : Text) : Parse α → Parse α :=
  within (fun c => { c with labels := name :: c.labels })
    fun _ c => { c with labels := c.labels.erase name }

abbrev notTarget : Parse Unit :=
  setContext fun c => { c with isAssignmentTarget := false, isBindingElement := false }

abbrev onlyTarget : Parse Unit :=
  setContext fun c => { c with isAssignmentTarget := true, isBindingElement := false }

def freshRef : Parse Nat :=
  modifyGet fun p => (p.nextRef, { p with nextRef := p.nextRef + 1 })

def node (kind : Kind) (attrs : List (Attr × Tree)) : Parse Tree := do
  return .node (← freshRef) kind attrs

def ofScalar : Scalar → Tree
  | .text t => .text t
  | .int n => .int n
  | .real x => .real x

def ofPlace (p : Place) : Parse Tree :=
  node .record [(.line, .int p.line), (.column, .int p.column)]

def ofPlaces (first last : Place) : Parse Tree := do
  let a ← ofPlace first
  let b ← ofPlace last
  node .location [(.start, a), (.finish, b)]

def ofRange (start stop : Nat) : Tree := .list [.int start, .int stop]

end Parse

end ScriptLens
