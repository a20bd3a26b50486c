import ScriptLens.Domain.State

/-!
# Collecting unreachable objects

`State.cleanup` removes the objects that nothing refers to.  If the option asks for it, references
to objects of which nothing is known are dropped before.
-/

namespace ScriptLens

/-- A place the collector goes to: an object, or a primitive value, which is none. -/
inductive Visit where
  | object (i : Nat)
  | nothing
  | unreadable

def Value.visits : Value → List Visit
  | .absent => [.unreadable]
  | v => v.refs.flatMap fun r =>
    .object r.target :: match r.this with
      | .unbound => []
      | .object i => [.object i]
      | .prim _ => [.nothing]

/-- Where an object leads the collector: to what its properties refer to, then to its
environment. -/
def Obj.visits (o : Obj) : List Visit :=
  (o.props.flatMap fun p => p.2.visits) ++ o.env.toList.map Visit.object

theorem Value.length_visits_le (v : Value) : v.visits.length ≤ 4 + 2 * v.refs.length
  := by
  unfold visits
  split
  · simp only [List.length_singleton]
    omega
  · apply Nat.le_trans (length_refs_flatMap_le _ _ _) (Nat.le_add_left _ _)
    intro r
    cases r.this <;> simp

theorem Obj.length_visits_le (o : Obj) : o.visits.length ≤ o.spread
  := by
  rw [visits, List.length_append, Nat.add_comm]
  apply o.length_flatMap_le
  · cases o.env <;> simp
  · intro p
    exact p.2.length_visits_le

namespace State

def unreached (heap rest : Heap) (work : List Visit) : Except Failure Heap :=
  match work with
  | [] => return rest
  | .nothing :: _ => throw (.badValue "")
  | .unreadable :: _ => throw .missingPart
  | .object i :: work =>
    match _present : rest.get? i with
    | some o => unreached heap (rest.erase i) (o.visits ++ work)
    | none => if heap.contains i then unreached heap rest work else throw (.badValue "")
termination_by rest.room Obj.spread + work.length
decreasing_by
  · have room := Heap.room_erase_lt Obj.spread _present
    have steps := o.length_visits_le
    simp only [List.length_append, List.length_cons]
    omega
  · exact Nat.lt_succ_self _

def isUnknown (o : Obj) : Bool := o.missing == .isTop && o.props.all fun p => p.2.isTop

/-- The keys under which an object refers directly to objects of which nothing is known. -/
def unknownKeys (heap : Heap) (ps : Props) : Except Failure (List Key) :=
  ps.filterMapM fun p =>
    match p.2 with
    | .ref r =>
      match heap.get? r.target with
      | some o => return if isUnknown o then some p.1 else none
      | none => throw .missingEntry
    | _ => return none

/-- An object without what stands under the given keys: it is unlisted, or any value. -/
def forget (o : Obj) (keys : List Key) : Obj :=
  keys.foldl (fun o k => if o.missing == .isTop then o.drop k else o.put k .top) o

def unlinkOnce (heap : Heap) : List Nat → Except Failure (Heap × Bool)
  | [] => return (heap, false)
  | i :: l => do
    match heap.get? i with
    | none => unlinkOnce heap l
    | some o =>
      let keys ← unknownKeys heap o.props
      let (heap, changed) ← unlinkOnce (if keys.isEmpty then heap else heap.insert i (forget o keys)) l
      return (heap, changed || !keys.isEmpty)

def refCount (o : Obj) : Nat :=
  (o.props.filter fun p => match p.2 with
    | .ref _ => true
    | _ => false).length

def heapRefCount (heap : Heap) : Nat := 
  heap.toList.foldr (fun c n => refCount c.2 + n) 0

/-- Unlinks the unknown objects until there are none; `n` bounds the number of rounds. -/
def unlink (heap : Heap) : Nat → Except Failure Heap
  | 0 => return heap
  | n + 1 => do
    let (heap, changed) ← unlinkOnce heap heap.ids
    if changed then unlink heap n else return heap

def cleanup (s : State) : Domain State := do
  if s.isBottom then return s
  let objs ← (do
    if (← Domain.options).cleanTopObjects then unlink s.objs (heapRefCount s.objs + 1)
    else return s.objs : Domain Heap)
  let l ← scopeId s.lref
  let g ← scopeId s.gref
  let value := match s.value with
    | .ref r => [r.target]
    | _ => []
  let work := (l :: g :: value) ++ s.frames ++ s.pending.ids ++ (← read).roots
  let rest ← unreached objs objs (work.map Visit.object)
  return { s with objs := objs.filter fun i => !rest.contains i }

end State

end ScriptLens
