import ScriptLens.Analysis.Note

/-!
# Drafts

A draft is a program that is being changed.  Its nodes stand at places; what stands at a place is a
record of a kind and attributes, and two places may hold the same record, so that a change of one is
a change of the other.
-/

namespace ScriptLens

inductive Item where
  | leaf (t : Tree)
  | bytes (t : Text)
  | place (p : Nat)
  | list (l : Nat)

structure Record where
  kind : Kind := .record
  attrs : List (Attr × Item) := []

/-- How often something was changed, and how often it was considered. -/
structure Tally where
  done : Nat := 0
  all : Nat := 0
deriving DecidableEq

/-- What the changes of a program have come to. -/
structure Stats where
  expressions : Tally := {}
  calls : Tally := {}
  evals : Tally := {}
  loops : Tally := {}
  statements : Tally := {}
  definitions : Tally := {}
  blocks : Tally := {}
deriving DecidableEq

structure Form where
  kind : Kind
  isDirective : Bool := false
deriving DecidableEq

/-- A place: the number of its record, and what it was made as unless it was made as a copy. -/
structure Cell where
  record : Nat
  made : Option Form

structure Draft where
  places : Std.TreeMap Nat Cell := {}
  records : Std.TreeMap Nat Record := {}
  lists : Std.TreeMap Nat (List Item) := {}
  /-- The next number of a place, record or list. -/
  fresh : Nat := 0
  notes : Std.TreeMap Nat (List (NoteName × Note)) := {}
  nodes : Std.TreeMap Nat Nat := {}
  nextNode : Nat := 0
  stats : Stats := {}
  useOr : Bool := true

/-- Computations that change a draft; a failure keeps the changes made before it. -/
abbrev Edit := EStateM Failure Draft

namespace Edit

/-! ### Records and lists -/

def record (p : Nat) : Edit Record := do
  let d ← get
  match (d.places[p]?).bind fun c => d.records[c.record]? with
  | some r => return r
  | none => throw .missingEntry

def changeRecord (p : Nat) (f : Record → Record) : Edit Unit := do
  let r ← record p
  modify fun d =>
    match d.places[p]? with
    | some c => { d with records := d.records.insert c.record (f r) }
    | none => d

def kind (p : Nat) : Edit Kind := return (← record p).kind

def attr (p : Nat) (a : Attr) : Edit Item :=
  return ((← record p).attrs.lookup a).getD (.leaf .null)

def putItem (a : Attr) (v : Item) : List (Attr × Item) → List (Attr × Item)
  | [] => [(a, v)]
  | (b, w) :: l => if a == b then (a, v) :: l else (b, w) :: putItem a v l

def setAttr (p : Nat) (a : Attr) (v : Item) : Edit Unit :=
  changeRecord p fun r => { r with attrs := putItem a v r.attrs }

def setKind (p : Nat) (k : Kind) : Edit Unit := changeRecord p fun r => { r with kind := k }

def child (p : Nat) (a : Attr) : Edit Nat := do
  match ← attr p a with
  | .place q => return q
  | _ => throw .missingPart

def child? (p : Nat) (a : Attr) : Edit (Option Nat) := do
  match ← attr p a with
  | .place q => return some q
  | _ => return none

def items (l : Nat) : Edit (List Item) := return ((← get).lists[l]?).getD []

def itemsOf (p : Nat) (a : Attr) : Edit (List Item) := do
  match ← attr p a with
  | .list l => items l
  | _ => throw .wrongKind

def Item.place? : Item → Option Nat
  | .place p => some p
  | _ => none

def Item.isNull : Item → Bool
  | .leaf .null => true
  | _ => false

def isTrue (p : Nat) (a : Attr) : Edit Bool := do
  match ← attr p a with
  | .leaf t => return t.isTrue
  | _ => return false

def nameOf (p : Nat) : Edit Tree := do
  match ← attr p .name with
  | .leaf t => return t
  | _ => return .null

def newNumber : Edit Nat := modifyGet fun d => (d.fresh, { d with fresh := d.fresh + 1 })

def newList (l : List Item) : Edit Item := do
  let n ← newNumber
  modify fun d => { d with lists := d.lists.insert n l }
  return .list n

def setItems (n : Nat) (l : List Item) : Edit Unit :=
  modify fun d => { d with lists := d.lists.insert n l }

def newPlace (made : Option Form) (r : Record) : Edit Nat := do
  let n ← newNumber
  modify fun d =>
    { d with places := d.places.insert n ⟨n, made⟩, records := d.records.insert n r }
  return n

def newNode (k : Kind) (attrs : List (Attr × Item)) : Edit Nat := newPlace (some ⟨k, false⟩) ⟨k, attrs⟩

def share (p q : Nat) : Edit Unit := do
  let d ← get
  match d.places[p]?, d.places[q]? with
  | some c, some e => set { d with places := d.places.insert p { c with record := e.record } }
  | _, _ => throw .missingEntry

/-! ### Notes -/

def mark (p : Nat) : Edit Nat := do
  let i ← (do
    match ← attr p .serial with
    | .leaf (.int i) => return i.toNat
    | _ =>
      let i := (← get).nextNode
      modify fun d => { d with nextNode := i + 1 }
      setAttr p .serial (.leaf (.int i))
      return i : Edit Nat)
  if !(← get).nodes.contains i then
    modify fun d => { d with nodes := d.nodes.insert i p, notes := d.notes.insert i [] }
  return i

def notesAt (i : Nat) : Edit (List (NoteName × Note)) := return ((← get).notes[i]?).getD []

def note (p : Nat) (n : NoteName) : Edit Note := do
  let i ← mark p
  return ((← notesAt i).lookup n).getD .none

def setNote (p : Nat) (n : NoteName) (v : Note) : Edit Unit := do
  let i ← mark p
  let l ← notesAt i
  modify fun d => { d with notes := d.notes.insert i (Notes.putNote n v l) }

def eraseNote (p : Nat) (n : NoteName) : Edit Unit := do
  let i ← mark p
  let l ← notesAt i
  modify fun d => { d with notes := d.notes.insert i (l.filter fun q => q.1 != n) }

def clearNote (n : NoteName) : Edit Unit :=
  modify fun d => { d with notes := d.notes.map fun _ l => l.filter fun q => q.1 != n }

def valueOf (p : Nat) : Edit Value := return (← note p .staticValue).value?.getD .absent

def nodeAt (i : Nat) : Edit Nat := do
  match (← get).nodes[i]? with
  | some p => return p
  | none => throw .missingEntry

/-- Whether a note says yes; a number says yes unless it is zero. -/
def holds : Note → Bool
  | .flag b => b
  | .node i => i != 0
  | .none => false
  | .nameSet l => !l.isEmpty
  | .nodeSet s => !s.ids.isEmpty
  | _ => true

def count (f : Stats → Stats) : Edit Unit := modify fun d => { d with stats := f d.stats }

def comment (t : Text) : Item := .leaf (.node 0 .record [(.typeName, "Block"), (.value, .text t)])

end Edit

end ScriptLens
