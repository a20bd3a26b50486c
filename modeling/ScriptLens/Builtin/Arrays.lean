import ScriptLens.Builtin.Texts
import ScriptLens.Domain.Object

/-!
# Built-in functions on arrays

An array is an object whose length is known; its elements stand under integers.
-/

namespace ScriptLens.Builtin

def popLast (o : Obj) : Except Failure (Value × Obj) :=
  match o.length with
  | none => return (.top, { o with props := [] }.setMissing .isTop)
  | some n =>
    if n == 0 then return (.undefined, o)
    else match o.get? (.int (n - 1)) with
      | some v => return (v, { o.drop (.int (n - 1)) with length := some (n - 1) })
      | none => throw .missingEntry

def pushLast (v : Value) (o : Obj) : Value × Obj :=
  match o.length with
  | none => (.top, o.setMissing .isTop)
  | some n => (.prim (.num (.ofInt (n + 1))), { o.put (.int n) v with length := some (n + 1) })

def moveDown (ps : Props) : List Int → Props
  | [] => ps
  | i :: l => moveDown (((ps.set (.int (i - 1)) ((ps.get? (.int i)).getD .absent))).erase (.int i)) l

def shiftFirst (o : Obj) : Value × Obj :=
  let o := if o.length.isNone then { o with props := [] }.setMissing .isTop else o
  if o.length == some 0 then (.undefined, o)
  else
    let places := (o.props.filterMap fun p => p.1.int?).mergeSort
    if places.contains 0 then
      let v := (o.get? (.int 0)).getD .absent
      let o := { o.drop (.int 0) with length := o.length.map (· - 1) }
      (v, { o with props := moveDown o.props places.tail })
    else (.undefined, { o with props := moveDown o.props places })

/-- Whether an array position lies before the start of a search. -/
def isBefore (i : Nat) : Prim → Except Failure Bool
  | .num x => return Double.lt (.ofNat i) x
  | .nan _ => return false
  | .bool b => return i < (if b then 1 else 0)
  | _ => throw .wrongKind

/-- Searches an item among properties of which the first has the position `i`.  Finding it is a
failure, since positions are no numbers of scripts. -/
def searchItem (item : Value) (start : Value) : Nat → Props → Except Failure Value
  | _, [] => return .prim (.num (.ofInt (-1)))
  | i, (_, v) :: ps => do
    match start with
    | .prim p =>
      if ← isBefore i p then searchItem item start (i + 1) ps
      else if v.equal item then throw (.badValue "")
      else searchItem item start (i + 1) ps
    | _ => throw .missingPart

def oppositeKey (n : Nat) : Key → Except Failure Key
  | .int k => return .int (n - k - 1)
  | .bool b => return .int (n - (if b then 1 else 0) - 1)
  | .num x => return .num (((Double.ofNat n).sub x).sub (.ofNat 1))
  | .nan tag => return .nan tag
  | _ => throw .wrongKind

def reversed (o : Obj) : Except Failure Obj := do
  let n := o.props.length
  let props ← o.props.foldlM (fun (ps : Props) p => do
    return ps.set (← oppositeKey n p.1) p.2) []
  return { props }

def keyNumber? : Key → Option Double
  | .int n => some (.ofInt n)
  | .num x => some x
  | .nan _ => some Double.nan
  | .bool b => some (.ofNat (if b then 1 else 0))
  | _ => none

/-- The properties of an object in the order of their keys, which must be comparable. -/
def sortedProps (ps : Props) : Except Failure Props := do
  if ps.length ≤ 1 then return ps
  if ps.all fun p => p.1.int?.isSome then
    return ps.mergeSort fun p q => p.1.int?.getD 0 ≤ q.1.int?.getD 0
  if ps.all fun p => (keyNumber? p.1).isSome then
    return ps.mergeSort fun p q =>
      !Double.lt ((keyNumber? q.1).getD .nan) ((keyNumber? p.1).getD .nan)
  else if ps.all fun p => match p.1 with
      | .text _ => true
      | _ => false then
    return ps.mergeSort fun p q => match p.1, q.1 with
      | .text s, .text t => !t.lt s
      | _, _ => true
  else throw .wrongKind

def primOf : Value → Except Failure Prim
  | .prim p => return p
  | _ => throw .missingPart

def textOf : Prim → Except Failure Text
  | .text t => return t
  | _ => throw .wrongKind

/-- The elements of an array, which must be texts, with a text between them. -/
def joined (o : Obj) (separator : Value) : Except Failure Value := do
  if o.containsTop then return .top
  if separator.isTop then return .top
  let sep ← primOf separator
  match sep with
  | .text s =>
    let prims ← (← sortedProps o.props).mapM fun p => primOf p.2
    return .prim (.text (Text.intercalate s (← prims.mapM textOf)))
  | .bytes _ =>
    let prims ← (← sortedProps o.props).mapM fun p => primOf p.2
    if prims.isEmpty then return .prim (.bytes "") else throw .wrongKind
  | _ => throw .missingPart

def enumerate : Int → List Value → Props
  | _, [] => []
  | i, v :: l => (.int i, v) :: enumerate (i + 1) l

def arrayOf (l : List Value) : Obj := { props := enumerate 0 l, length := some l.length }

def splitText (t separator : Text) : List Text :=
  if separator.isEmpty then t.pieces else t.splitOn separator

end ScriptLens.Builtin
