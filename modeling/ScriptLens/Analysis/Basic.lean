import ScriptLens.Analysis.Note
import ScriptLens.Builtin.Convert
import ScriptLens.Builtin.Table
import ScriptLens.Domain.Collect
import ScriptLens.Domain.Compare
import ScriptLens.Domain.Join

/-!
# The machine that analyses programs

An analysis runs a program on abstract states.  The `Machine` holds the current state and all that
the analysis has found out; a `Session` holds what belongs to one program text, since a program may
evaluate further texts as programs while it runs.
-/

namespace ScriptLens

inductive Interrupt where
  | failure (f : Failure)
  /-- Everything up to the call with the given number is abandoned. -/
  | unwind (site : Nat)

structure Session where
  source : Text := ""
  isQuiet : Bool := false
  /-- The bodies of the functions seen, in order. -/
  functions : List Tree := []
  last : Option Tree := none
  /-- The statements from which functions were called, the outermost first. -/
  callers : List (Option Tree) := []
  needClean : Bool := false
  /-- The nodes that the loop being unrolled has passed through, if there is one. -/
  trace : Option (Array Int) := none
  /-- The loops around the current point, the innermost first, with their iteration numbers. -/
  loops : LoopContext := []
  result : Value := .absent
  returned : State := .bottom
  broken : State := .bottom
  continued : State := .bottom
  isPure : Bool := true
  /-- Whether the current function has used names of enclosing functions. -/
  usesClosure : Bool := false

structure Machine where
  setting : Setting := {}
  state : State := .bottom
  nextId : Nat := 0
  nextTag : Nat := 0
  nextRef : Nat := 0
  notes : Notes := {}
  /-- What has been printed, the last line first. -/
  printed : List Text := []
  source : Text := ""
  /-- The objects that computations in progress will let go of, the innermost first. -/
  consumed : List IdSet := []
  session : Session := {}

/-- Computations of an analysis; an interruption keeps what has been found out. -/
abbrev Analysis := EStateM Interrupt Machine

namespace Analysis

def fail {α : Type} (f : Failure) : Analysis α := throw (.failure f)

def ofExcept {α : Type} : Except Failure α → Analysis α
  | .ok a => return a
  | .error f => fail f

instance : MonadLift (Except Failure) Analysis := ⟨ofExcept⟩

def ofDomain {α : Type} (d : Domain α) : Analysis α := do
  let m ← get
  match (d.run m.setting).run m.nextId with
  | .ok (a, n) =>
    set { m with nextId := n }
    return a
  | .error f => fail f

instance : MonadLift Domain Analysis := ⟨ofDomain⟩

def options : Analysis Options := return (← get).setting.options

def state : Analysis State := return (← get).state

def setState (s : State) : Analysis Unit := modify fun m => { m with state := s }

def changeState (f : State → State) : Analysis Unit := modify fun m => { m with state := f m.state }

def isBottom : Analysis Bool := return (← get).state.isBottom

def session : Analysis Session := return (← get).session

def changeSession (f : Session → Session) : Analysis Unit :=
  modify fun m => { m with session := f m.session }

/-- Runs a computation on another state; gives the state it ends in.  The current state is as
before afterwards, also when the computation is interrupted. -/
def onState {α : Type} (s : State) (body : Analysis α) : Analysis (α × State) := fun m =>
  match body { m with state := s } with
  | .ok a m' => .ok (a, m'.state) { m' with state := m.state }
  | .error e m' => .error e { m' with state := m.state }

def localId : Analysis Nat := do ofExcept (← state).localId

def globalId : Analysis Nat := do ofExcept (← state).globalId

def object (i : Nat) : Analysis Obj := do ofExcept ((← state).obj i)

def changeObject (i : Nat) (f : Obj → Obj) : Analysis Unit := changeState fun s => s.updateObj i f

def newId : Analysis Nat := modifyGet fun m => (m.nextId, { m with nextId := m.nextId + 1 })

def newObject (o : Obj) : Analysis Nat := do
  let i ← newId
  changeState fun s => s.putObj i o
  return i

def scene : Analysis Scene := modifyGet fun m =>
  ({ heap := m.state.objs, source := m.source, tag := m.nextTag },
   { m with nextTag := m.nextTag + 1 })

def print (t : Text) : Analysis Unit := modify fun m => { m with printed := t :: m.printed }

/-! ### Notes -/

def nodeId (t : Tree) : Analysis Nat := modifyGet fun m =>
  let (i, notes) := m.notes.mark t
  (i, { m with notes })

def note (t : Tree) (n : NoteName) : Analysis Note := do
  let i ← nodeId t
  return (← get).notes.getAt i n

def setNote (t : Tree) (n : NoteName) (v : Note) : Analysis Unit := do
  let i ← nodeId t
  modify fun m => { m with notes := m.notes.setAt i n v }

def attr (t : Tree) (a : Attr) : Analysis Tree := return (← get).notes.attr t a

def setAttr (t : Tree) (a : Attr) (v : Tree) : Analysis Unit :=
  modify fun m => { m with notes := m.notes.setAttr t a v }

def setLive (t : Tree) : Analysis Unit := do
  if ((← get).notes.attr t .isLive).isTrue then return ()
  setAttr t .isLive (.flag true)

/-! ### Objects held by computations in progress -/

def consume (v : Value) : Analysis Unit := modify fun m =>
  match m.consumed with
  | [] => m
  | c :: l => { m with consumed := c.insertAll (State.refIds v) :: l }

def release (v : Value) : Analysis Unit := changeState fun s => s.release v

/-- Runs a computation and lets go of what it has consumed, unless it says otherwise. -/
def consumingIf {α : Type} (body : Analysis (α × Bool)) : Analysis α := do
  modify fun m => { m with consumed := {} :: m.consumed }
  let (a, letGo) ← body
  modify fun m =>
    let s := m.state
    let c := m.consumed.headD {}
    let s := if letGo then { s with pending := s.pending.diff c } else s
    { m with consumed := m.consumed.tail, state := s }
  return a

def consuming {α : Type} (body : Analysis α) : Analysis α :=
  consumingIf (do return (← body, true))

/-! ### Traces of loops -/

/-- Notes that the loop being unrolled passes through a node. -/
def passThrough (t : Tree) : Analysis Unit := do
  if (← session).trace.isSome then
    let i ← nodeId t
    changeSession fun s => { s with trace := s.trace.map (·.push i) }

/-- Runs a computation that is not part of the loop being unrolled. -/
def untraced {α : Type} (body : Analysis α) : Analysis α := do
  let saved := (← session).trace
  changeSession fun s => { s with trace := none }
  let a ← body
  changeSession fun s => { s with trace := saved }
  return a

def collectIn (s : State) : Analysis State := do
  changeSession fun s => { s with needClean := false }
  if (← options).deleteUnused then ofDomain s.cleanup else return s

def collect : Analysis Unit := do setState (← collectIn (← state))

end Analysis

inductive Callee where
  /-- Nothing is known about it. -/
  | unknown
  | nothing
  | object (o : Obj)

def Callee.isCallable : Callee → Except Failure Bool
  | unknown => return false
  | nothing => throw .missingPart
  | object o => return o.isCallable

structure Engine where
  expr : Tree → Analysis Value
  /-- A statement; the second argument says whether only its declarations are of interest. -/
  exec : Tree → Bool → Analysis Unit
  invoke : Callee → Option Tree → List Value → Receiver → Analysis Value
  program : Tree → Text → Analysis Unit

/-- Where a value is kept: by whom, and under which key if that is known. -/
structure Slot where
  holder : Option (Sum Nat Prim)
  key : Option Key
  isMember : Bool

namespace Analysis

def nameKey : Tree → Key
  | .text t => .text t
  | _ => .none

def Slot.objectId (s : Slot) : Analysis Nat :=
  match s.holder with
  | some (.inl i) => return i
  | _ => fail .missingPart

def overwrite (s : Slot) (v : Value) : Analysis Unit := do
  let i ← Slot.objectId s
  changeObject i fun o => o.put (s.key.getD .none) v

/-- The number of the object that holds the functions to be called after the program. -/
def deferredObject : Analysis Nat := do
  let g ← object (← globalId)
  match g.get? Builtin.deferredName with
  | some (.ref r) => return r.target
  | some .absent => fail .missingPart
  | _ => fail .missingEntry

def defer (v : Value) : Analysis Unit := do
  let i ← deferredObject
  let k ← newId
  let _ ← object i
  changeObject i fun o => o.put (.int k) v

def refersToFunction (v : Value) : Analysis Bool := do
  match v with
  | .ref r => return (← object r.target).body.isSome
  | _ => return false

end Analysis

end ScriptLens
