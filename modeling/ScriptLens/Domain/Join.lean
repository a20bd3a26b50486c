import ScriptLens.Domain.Unify

/-!
# Joins of states

`State.join` is the state that covers two states.  After the objects of the first state have been
renamed to agree with the second, the objects reached in both heaps are joined one by one; an
object that only the second state has is copied.
-/

namespace ScriptLens

/-- The edges of the heap that a copy follows from an object: to its environment, then to what
each property refers to. -/
def Obj.edges (o : Obj) : List Nat :=
  o.env.toList ++ o.props.flatMap fun p => (p.2.ref?.map Ref.ids).getD []

theorem Obj.length_edges_le (o : Obj) : o.edges.length ≤ o.spread
  := by
  rw [edges, List.length_append]
  apply o.length_flatMap_le
  · cases o.env <;> simp
  · intro p
    have := p.2.length_ref?_ids_le
    omega

namespace State

def copyReachable (source target rest : Heap) (work : List Nat) : Except Failure (Heap × Heap) :=
  match work with
  | [] => return (target, rest)
  | i :: work =>
    match _present : rest.get? i with
    | some o => copyReachable source (target.insert i o.copy) (rest.erase i) (o.edges ++ work)
    | none =>
      if source.contains i then copyReachable source target rest work
      else throw .missingEntry
termination_by rest.room Obj.spread + work.length
decreasing_by
  · have room := Heap.room_erase_lt Obj.spread _present
    have steps := o.length_edges_le
    simp only [List.length_append, List.length_cons]
    omega
  · exact Nat.lt_succ_self _

def copyRoots (t : State) (roots : List Nat) : Except Failure (List Nat) := do
  let l ← scopeId t.lref
  let g ← scopeId t.gref
  return l :: g :: t.pending.ids ++ t.frames ++ List.range roots.length

def assign (s t : State) : Domain State := do
  if t.isBottom then return s.toBottom
  if t.value == .absent then throw .missingPart
  let roots ← t.copyRoots (← read).roots
  let (objs, rest) ← copyReachable t.objs s.objs t.objs roots
  let s : State := { t with objs }
  match t.value.ref? with
  | some r =>
    if objs.contains r.target then return s
    let (objs, _) ← copyReachable t.objs objs rest r.ids
    return { s with objs }
  | none => return s

/-- A copy of a state; it takes two numbers for the scopes of an empty state it starts from. -/
def clone (t : State) : Domain State := do
  let s ← fresh false
  s.assign t

end State

inductive Merging where
  /-- An object to join with the one of the same number, unless it has been visited. -/
  | edge (i : Nat)
  /-- A property of the object `i` of the first heap, of which the object `j` of the second heap
  has the value `other`. -/
  | property (i : Nat) (key : Key) (other : Option Value)

namespace State

/-- The join of an object of the first heap with one of the second, and the steps that follow. -/
def mergeObj (useOr : Bool) (heap : Heap) (i : Nat) (b : Obj) :
    Except Failure (Heap × List Merging) :=
  match heap.get? i with
  | none => throw .missingEntry
  | some a =>
    let o := a.join useOr b
    let env := match o.env, b.env with
      | some e, some _ => [Merging.edge e]
      | _, _ => []
    return (heap.insert i o, env ++ o.props.map fun p => .property i p.1 (b.get? p.1))

def Merging.weight : Merging → Nat
  | .edge _ => 1
  | .property _ _ _ => 3

def mergingWeight (work : List Merging) : Nat :=
  work.foldr (fun m n => Merging.weight m + n) 0

theorem mergingWeight_cons (m : Merging) (work : List Merging) :
  mergingWeight (m :: work) = Merging.weight m + mergingWeight work
  := rfl

theorem mergingWeight_append (first last : List Merging) :
  mergingWeight (first ++ last) = mergingWeight first + mergingWeight last
  := by
  induction first with
  | nil => exact (Nat.zero_add _).symm
  | cons m first step =>
    rw [List.cons_append, mergingWeight_cons, mergingWeight_cons, step, Nat.add_assoc]

theorem mergingWeight_properties (i : Nat) (other : Key → Option Value) (props : Props) :
  mergingWeight (props.map fun p => .property i p.1 (other p.1)) = 3 * props.length
  := by
  induction props with
  | nil => rfl
  | cons p props step =>
    rw [List.map_cons, List.length_cons, mergingWeight_cons, step, Nat.mul_succ, Nat.add_comm]
    rfl

def widest (h : Heap) : Nat := h.bound fun o => o.props.length

theorem mergeObj_bounds {useOr : Bool} {heap heap' : Heap} {i : Nat} {b : Obj}
    {steps : List Merging} (merged : mergeObj useOr heap i b = .ok (heap', steps)) :
  widest heap' ≤ widest heap + b.props.length ∧
    mergingWeight steps ≤ 1 + 3 * (widest heap + b.props.length)
  := by
  unfold mergeObj at merged
  split at merged
  · cases merged
  · rename_i a present
    cases merged
    have joined : (a.join useOr b).props.length ≤ widest heap + b.props.length :=
      Nat.le_trans (a.length_join_le useOr b)
        (Nat.add_le_add_right (Heap.le_bound (fun o => o.props.length) present) _)
    constructor
    · apply Nat.le_trans (Heap.bound_insert_le _ heap i _)
      exact Nat.max_le.mpr ⟨Nat.le_add_right _ _, joined⟩
    · rw [mergingWeight_append, mergingWeight_properties i fun k => b.get? k]
      apply Nat.add_le_add
      · split
        · exact Nat.le_refl 1
        · exact Nat.zero_le 1
      · exact Nat.mul_le_mul_left 3 joined

/-- The steps for a property with references on both sides. -/
def mergeProperty (heap : Heap) (i : Nat) (key : Key) (other : Option Value) :
    Except Failure (List Nat) :=
  match ((heap.get? i).bind fun o => o.get? key).bind Value.ref?, other.bind Value.ref? with
  | some r, some q => if r.equal q then return r.ids else throw (.broken "")
  | _, _ => return []

/-- How many steps a join can take: an object gets wider by at most twice the width of the objects
not visited before with each visit. -/
def mergingRoom (second heap rest : Heap) : Nat :=
  rest.size * (2 + 3 * (max (widest heap) (widest second) + 2 * rest.size * widest rest))

/-- The heap with a copy of an object under a number, unless there is one. -/
def ensure (heap : Heap) (i : Nat) (b : Obj) : Heap :=
  if heap.contains i then heap else heap.insert i b.copy

theorem widest_ensure_le (heap : Heap) (i : Nat) (b : Obj) :
  widest (ensure heap i b) ≤ max (widest heap) b.props.length
  := by
  unfold ensure
  split
  · exact Nat.le_max_left _ _
  · exact Heap.bound_insert_le _ heap i b.copy

theorem mergingRoom_copy_le {second : Heap} (heap rest : Heap) {i : Nat} {b : Obj}
    (present : second.get? i = some b) :
  mergingRoom second (ensure heap i b) rest ≤ mergingRoom second heap rest
  := by
  have narrow : b.props.length ≤ widest second := Heap.le_bound (fun o => o.props.length) present
  have ensured := widest_ensure_le heap i b
  apply Nat.mul_le_mul_left
  apply Nat.add_le_add_left
  apply Nat.mul_le_mul_left
  apply Nat.add_le_add_right
  omega

theorem mergingRoom_erase_lt {useOr : Bool} (second : Heap) {heap heap' rest : Heap} {i : Nat}
    {b : Obj} {steps : List Merging} (present : rest.get? i = some b)
    (merged : mergeObj useOr (ensure heap i b) i b = .ok (heap', steps)) :
  mergingRoom second heap' (rest.erase i) + mergingWeight steps < mergingRoom second heap rest
  := by
  have smaller := Heap.size_erase_lt rest present
  have narrower : widest (rest.erase i) ≤ widest rest := Heap.bound_erase_le _ rest i
  have narrow : b.props.length ≤ widest rest := Heap.le_bound (fun o => o.props.length) present
  have ensured := widest_ensure_le heap i b
  obtain ⟨wider, few⟩ := mergeObj_bounds merged
  obtain ⟨n, size⟩ : ∃ n, rest.size = n + 1 := ⟨rest.size - 1, by omega⟩
  generalize widths : max (widest heap) (widest second) = w
  have heapWidth : widest heap ≤ w := widths ▸ Nat.le_max_left _ _
  have otherWidth : widest second ≤ w := widths ▸ Nat.le_max_right _ _
  -- the widest object after the visit
  generalize room : w + 2 * rest.size * widest rest = r
  have spare : max (widest heap') (widest second) + 2 * n * widest rest ≤ r := by
    rw [← room, size, Nat.mul_succ, Nat.add_mul]
    omega
  calc mergingRoom second heap' (rest.erase i) + mergingWeight steps
    _ ≤ n * (2 + 3 * r) + mergingWeight steps := by
      apply Nat.add_le_add_right
      apply Nat.mul_le_mul (by omega)
      apply Nat.add_le_add_left
      apply Nat.mul_le_mul_left
      apply Nat.le_trans (Nat.add_le_add_left _ _) spare
      exact Nat.mul_le_mul (Nat.mul_le_mul_left 2 (by omega)) narrower
    _ < n * (2 + 3 * r) + (2 + 3 * r) := by
      rw [size, Nat.mul_succ, Nat.add_mul] at room
      omega
    _ = mergingRoom second heap rest := by
      rw [mergingRoom, widths, room, size, Nat.succ_mul n]

def mergeHeaps (useOr : Bool) (second heap rest : Heap) (work : List Merging) :
    Except Failure (Heap × Heap) :=
  match work with
  | [] => return (heap, rest)
  | .edge i :: work =>
    match _present : rest.get? i with
    | some b =>
      match _merged : mergeObj useOr (ensure heap i b) i b with
      | .ok (heap, steps) => mergeHeaps useOr second heap (rest.erase i) (steps ++ work)
      | .error e => throw e
    | none =>
      match _known : second.get? i with
      | some b => mergeHeaps useOr second (ensure heap i b) rest work
      | none => throw .missingEntry
  | .property i key other :: work =>
    match mergeProperty heap i key other with
    | .ok [] => mergeHeaps useOr second heap rest work
    | .ok [a] => mergeHeaps useOr second heap rest (.edge a :: work)
    | .ok (a :: b :: _) => mergeHeaps useOr second heap rest (.edge a :: .edge b :: work)
    | .error e => throw e
termination_by mergingRoom second heap rest + mergingWeight work
decreasing_by
  · have room := mergingRoom_erase_lt second _present _merged
    rw [mergingWeight_append, mergingWeight_cons]
    omega
  · have room := mergingRoom_copy_le heap rest _known
    rw [mergingWeight_cons, Merging.weight]
    omega
  all_goals
    simp only [mergingWeight_cons, Merging.weight]
    omega

def mergeFrom (useOr : Bool) (second heap rest : Heap) :
    List (Option Nat × Option Nat) → Except Failure Heap
  | [] => return heap
  | (i, j) :: roots => do
    let i ← scopeId i
    let j ← scopeId j
    if !heap.contains i then throw .missingEntry
    match second.get? j with
    | none => throw .missingEntry
    | some b => do
      let (heap, steps) ← mergeObj useOr heap i b
      let (heap, rest) ← mergeHeaps useOr second heap rest steps
      mergeFrom useOr second heap rest roots

def checkDeeper (c : Setting) (s t : State) : Except Failure Unit := do
  if !c.acrossScopes then throw (.broken "")
  if t.frames.length ≤ s.frames.length then throw (.badValue "")
  let i ← scopeId s.lref
  let j ← scopeId t.lref
  if j ≤ i then throw (.broken "")
  if !t.frames.contains i then throw (.broken "")
  if s.frames != t.frames.takeWhile (· != i) then throw (.broken "")

def join (s t : State) : Domain State := do
  if t.isBottom then return s
  if s.isBottom then return ← s.assign t
  if s.gref != t.gref then throw (.broken "")
  let useOr := (← Domain.options).useOr
  let s ← (do
    if s.lref != t.lref || s.frames != t.frames then
      checkDeeper (← read) s t
      let i ← scopeId s.lref
      let a ← s.obj i
      let b ← t.obj (← scopeId t.lref)
      return s.putObj i (a.join useOr b)
    return s : Domain State)
  let s := { s with pending := s.pending.inter t.pending }
  let s ← s.unify t
  let objs ← mergeFrom useOr t.objs s.objs t.objs
    ((s.lref, t.lref) :: (s.gref, t.gref)
      :: (s.pending.ids ++ s.frames).map fun i => (some i, some i))
  let s := { s with objs }
  match s.value with
  | .bot =>
    if t.value == .absent then throw .missingPart
    return { s with value := t.value }
  | v => return if v.equal t.value then s else { s with value := .top }

end State

end ScriptLens
