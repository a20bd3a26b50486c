import ScriptLens.Domain.Heap

/-!
# Abstract states

A `State` stands for the states a program may be in at some point: a heap, the global scope, the
local scope and those of the callers, the objects that only a computation in progress refers to, and
the value of the last statement.
-/

namespace ScriptLens

open Text

structure Options where
  /-- Whether a choice between undefined and one other value is kept. -/
  useOr : Bool := true
  /-- Whether states are renamed to agree before they are joined. -/
  useUnify : Bool := true
  /-- Whether a condition that compares narrows the states of the branches. -/
  filterConditions : Bool := true
  /-- Whether a member access or call rules out that its subject is undefined. -/
  filterErrors : Bool := true
  maxRecursion : Int := 10
  /-- How many iterations of a loop are followed one by one. -/
  maxIterations : Option Int := some 100000
  /-- Whether every case of a switch is taken to be possible. -/
  mergeSwitch : Bool := false
  deleteUnused : Bool := true
  maxLoopContext : Int := 32
  /-- The number of enclosing loops that values are told apart by. -/
  maxLoopNesting : Int := 1
  /-- Whether references to objects of which nothing is known are dropped. -/
  cleanTopObjects : Bool := false
deriving DecidableEq

/-- A set of numbers, in increasing order. -/
structure IdSet where
  ids : List Nat := []
deriving DecidableEq

namespace IdSet

def insertSorted (n : Nat) : List Nat → List Nat
  | [] => [n]
  | m :: l => if n < m then n :: m :: l else if n == m then m :: l else m :: insertSorted n l

def insert (s : IdSet) (n : Nat) : IdSet := ⟨insertSorted n s.ids⟩

def erase (s : IdSet) (n : Nat) : IdSet := ⟨s.ids.filter (· != n)⟩

def contains (s : IdSet) (n : Nat) : Bool := s.ids.contains n

def insertAll (s : IdSet) (l : List Nat) : IdSet := l.foldl insert s

def diff (s t : IdSet) : IdSet := ⟨s.ids.filter fun n => !t.contains n⟩

def inter (s t : IdSet) : IdSet := ⟨s.ids.filter t.contains⟩

end IdSet

structure State where
  objs : Heap := {}
  gref : Option Nat := none
  lref : Option Nat := none
  /-- The objects that a computation in progress refers to. -/
  pending : IdSet := {}
  isBottom : Bool := true
  /-- The local scopes of the callers, the outermost first. -/
  frames : List Nat := []
  value : Value := .bot

structure Setting where
  options : Options := {}
  /-- The objects that exist before the program. -/
  roots : List Nat := []
  /-- Whether states in different scopes are joined, as where a recursion is cut off. -/
  acrossScopes : Bool := true

/-- Computations that may take fresh object numbers and may fail. -/
abbrev Domain := ReaderT Setting (StateT Nat (Except Failure))

namespace Domain

def newId : Domain Nat := modifyGet fun n => (n, n + 1)

def options : Domain Options := return (← read).options

end Domain

namespace State

def bottom : State := {}

def toBottom (s : State) : State :=
  { s with objs := {}, gref := none, lref := none, isBottom := true, frames := [], pending := {},
           value := .bot }

def unknownObj : Obj := { missing := .isTop, length := none }

/-- A state in which nothing is known: in the global scope, or in a local one. -/
def fresh (isGlobal : Bool) : Domain State := do
  let g ← Domain.newId
  let objs := ({} : Heap).insert g unknownObj
  if isGlobal then
    return { objs, gref := some g, lref := some g, isBottom := false, value := .top }
  else
    let l ← Domain.newId
    return { objs := objs.insert l unknownObj, gref := some g, lref := some l, isBottom := false,
             value := .top }

def obj (s : State) (i : Nat) : Except Failure Obj :=
  match s.objs.get? i with
  | some o => return o
  | none => throw .missingEntry

def scopeId (i : Option Nat) : Except Failure Nat :=
  match i with
  | some i => return i
  | none => throw .missingEntry

def localId (s : State) : Except Failure Nat := do
  let i ← scopeId s.lref
  let _ ← s.obj i
  return i

def globalId (s : State) : Except Failure Nat := do
  let i ← scopeId s.gref
  let _ ← s.obj i
  return i

def putObj (s : State) (i : Nat) (o : Obj) : State := { s with objs := s.objs.insert i o }

def updateObj (s : State) (i : Nat) (f : Obj → Obj) : State :=
  { s with objs := s.objs.update i f }

/-- The numbers of the scopes that enclose a scope, as far as `n` steps lead; whether one of them
has the name is asked on the way. -/
def lookupFrom (s : State) (name : Key) : Nat → Obj → Except Failure (Option Nat)
  | 0, _ => throw .unfinished
  | n + 1, scope =>
    match scope.get? "__closure" with
    | none => return none
    | some (.ref r) => do
      let outer ← s.obj r.target
      if outer.props.contains name then return some r.target
      else lookupFrom s name n outer
    | some _ => throw .missingPart

def lookup (s : State) (name : Key) : Except Failure Nat := do
  let l ← s.localId
  let scope ← s.obj l
  if scope.props.contains name then return l
  match ← s.lookupFrom name (s.objs.size + 1) scope with
  | some i => return i
  | none => s.globalId

/-- The objects that a value refers to, with those its references are bound to. -/
def refIds (v : Value) : List Nat := v.refs.flatMap Ref.ids

def release (s : State) (v : Value) : State :=
  { s with pending := (refIds v).foldl IdSet.erase s.pending }

def hold (s : State) (v : Value) : State :=
  { s with pending := s.pending.insertAll (refIds v) }

def shown (s : State) : Text :=
  if s.isBottom then "Bottom"
  else
    let number (i : Option Nat) : Text := match i with
      | some n => Decimal.natText n
      | none => "None"
    let objs := s.objs.toList.map fun c =>
      Decimal.natText c.1 ++ ofString ": " ++ c.2.shown
    let pending : Text :=
      if s.pending.ids.isEmpty then "set()"
      else
        ofString "\x7b" ++ intercalate ", " (s.pending.ids.map Decimal.natText)
          ++ ofString "\x7d"
    ofString "frames=[" ++ intercalate ", " (s.frames.map Decimal.natText)
      ++ ofString "] gref=" ++ number s.gref ++ ofString ", lref=" ++ number s.lref
      ++ ofString ", objs=\x7b" ++ intercalate ", " objs
      ++ ofString "\x7d, pending=" ++ pending ++ ofString ", endval=" ++ s.value.shown

end State

end ScriptLens
