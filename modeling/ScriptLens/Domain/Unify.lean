import ScriptLens.Domain.State

/-!
# Renaming the objects of a state

`State.unify` walks two states in parallel and renames the objects of the first one so that, where
both have a reference in the same place, it goes to the same number.
-/

namespace ScriptLens

/-- A map from numbers to numbers, in the order in which they came to be mapped. -/
abbrev Renaming := List (Nat × Nat)

namespace Renaming

def set (m : Renaming) (i j : Nat) : Renaming :=
  match m with
  | [] => [(i, j)]
  | (k, l) :: r => if k == i then (k, j) :: r else (k, l) :: set r i j

def apply (m : Renaming) (i : Nat) : Nat := (m.lookup i).getD i

end Renaming

inductive Matching where
  /-- Two objects to match, unless the first one has been visited. -/
  | edge (i j : Nat)
  /-- The first number is to be called by the second, which makes room if `makeRoom`. -/
  | link (i j : Nat) (makeRoom : Bool)

def Obj.matching (a b : Obj) : List Matching :=
  let env := match a.env, b.env with
    | some i, some j => [.edge i j, .link i j false]
    | _, _ => []
  let props := a.props.flatMap fun p =>
    match p.2.ref?, (b.get? p.1).bind Value.ref? with
    | some r, some q =>
      let this := match r.this, q.this with
        | .object i, .object j => [Matching.edge i j, .link i j true]
        | _, _ => []
      .edge r.target q.target :: .link r.target q.target true :: this
    | _, _ => []
  env ++ props

theorem Obj.length_matching_le (a b : Obj) : (a.matching b).length ≤ a.spread
  := by
  rw [matching, List.length_append]
  apply a.length_flatMap_le
  · split <;> simp
  · intro p
    apply Nat.le_add_right_of_le
    split
    · split <;> simp
    · exact Nat.zero_le 4

namespace State

/-- Follows the steps of a parallel walk and extends a renaming on the way; `rest` holds the
objects of the first heap not visited before. -/
def matchHeaps (first second rest : Heap) (m : Renaming) (work : List Matching) :
    Domain (Renaming × Heap) :=
  match work with
  | [] => return (m, rest)
  | .link i j makeRoom :: work => do
    if i == j then matchHeaps first second rest m work
    else if makeRoom && first.contains j then
      let k ← Domain.newId
      matchHeaps first second rest ((m.set j k).set i j) work
    else matchHeaps first second rest (m.set i j) work
  | .edge i j :: work =>
    match _present : rest.get? i with
    | some a =>
      match second.get? j with
      | some b => matchHeaps first second (rest.erase i) m (a.matching b ++ work)
      | none => throw .missingEntry
    | none =>
      if first.contains i then matchHeaps first second rest m work else throw .missingEntry
termination_by rest.room Obj.spread + work.length
decreasing_by
  · exact Nat.lt_succ_self _
  · exact Nat.lt_succ_self _
  · exact Nat.lt_succ_self _
  · have room := Heap.room_erase_lt Obj.spread _present
    have steps := a.length_matching_le b
    simp only [List.length_append, List.length_cons]
    omega
  · exact Nat.lt_succ_self _

def matchFrom (s t : State) (rest : Heap) (m : Renaming) :
    List (Option Nat × Option Nat) → Domain Renaming
  | [] => return m
  | (i, j) :: roots => do
    let a ← s.obj (← scopeId i)
    let b ← t.obj (← scopeId j)
    let (m, rest) ← matchHeaps s.objs t.objs rest m (a.matching b)
    matchFrom s t rest m roots

/-- A reference under a renaming; what it is bound to is kept only if that is an object. -/
def renameRef (m : Renaming) (r : Ref) : Ref :=
  ⟨m.apply r.target, match r.this with
    | .object i => .object (m.apply i)
    | _ => .unbound⟩

def renameAtom (m : Renaming) : Atom → Atom
  | .ref r => .ref (renameRef m r)
  | a => a

def renameValue (m : Renaming) : Value → Value
  | .atom a => .atom (renameAtom m a)
  | .or s => .or (Choices.ofList (s.map (renameAtom m)))
  | v => v

inductive Renewal where
  /-- An object to visit, unless it has been visited. -/
  | edge (i : Nat)
  | env (i : Nat)
  | setEnv (i : Nat)

/-- The steps for an object under a number: everything its properties refer to, then its
environment. -/
def renewal (i : Nat) (o : Obj) : List Renewal :=
  (o.props.flatMap fun p => (p.2.refs.flatMap Ref.ids).map Renewal.edge) ++ [.env i]

def Renewal.weight : Renewal → Nat
  | .edge _ => 1
  | .env _ => 3
  | .setEnv _ => 1

def renewalWeight (work : List Renewal) : Nat :=
  work.foldr (fun r n => Renewal.weight r + n) 0

theorem renewalWeight_cons (r : Renewal) (work : List Renewal) :
  renewalWeight (r :: work) = r.weight + renewalWeight work
  := rfl

theorem renewalWeight_append (first last : List Renewal) :
  renewalWeight (first ++ last) = renewalWeight first + renewalWeight last
  := by
  induction first with
  | nil => exact (Nat.zero_add _).symm
  | cons r first step =>
    rw [List.cons_append, renewalWeight_cons, renewalWeight_cons, step, Nat.add_assoc]

theorem renewalWeight_edges (ids : List Nat) : renewalWeight (ids.map .edge) = ids.length
  := by
  induction ids with
  | nil => rfl
  | cons i ids step =>
    rw [List.map_cons, List.length_cons, renewalWeight_cons, step, Nat.add_comm]
    rfl

theorem renewalWeight_renewal_le (i : Nat) (o : Obj) : renewalWeight (renewal i o) ≤ o.spread
  := by
  rw [renewal, renewalWeight_append, ← List.map_flatMap, renewalWeight_edges, Nat.add_comm]
  apply o.length_flatMap_le
  · exact Nat.le_succ 3
  · intro p
    apply Nat.le_add_left_of_le
    exact p.2.length_refs_flatMap_le _ Ref.length_ids_le

def renewHeap (m : Renaming) (heap rest : Heap) (visited : List Nat) (work : List Renewal) :
    Except Failure (Heap × Heap × List Nat) :=
  match work with
  | [] => return (heap, rest, visited)
  | .edge i :: work =>
    match _present : rest.get? i with
    | some _ =>
      match _found : heap.get? i with
      | some o => renewHeap m heap (rest.erase i) (i :: visited) (renewal i o ++ work)
      | none => throw .missingEntry
    | none =>
      if heap.contains i then renewHeap m heap rest visited work else throw .missingEntry
  | .env i :: work =>
    match (heap.get? i).bind Obj.env with
    | some e => renewHeap m heap rest visited (.edge e :: .setEnv i :: work)
    | none => renewHeap m heap rest visited work
  | .setEnv i :: work =>
    renewHeap m (heap.update i fun o => { o with env := o.env.map m.apply }) rest visited work
termination_by rest.size * (heap.bound Obj.spread + 1) + renewalWeight work
decreasing_by
  · have visited := Nat.mul_le_mul_right (heap.bound Obj.spread + 1)
      (Heap.size_erase_lt rest _present)
    have steps := renewalWeight_renewal_le i o
    have bounded := Heap.le_bound Obj.spread _found
    rw [renewalWeight_append, renewalWeight_cons]
    rw [Nat.succ_mul] at visited
    omega
  all_goals simp only [renewalWeight_cons, Renewal.weight]
  · omega
  · omega
  · omega
  · have kept := Nat.mul_le_mul_left rest.size (Nat.add_le_add_right
      (Heap.bound_update_le Obj.spread heap i fun o => (rfl :
        Obj.spread { o with env := o.env.map m.apply } = o.spread)) 1)
    omega

/-- Visits the objects from each of the given numbers on; those given are visited even if they
have been before. -/
def renewFrom (m : Renaming) (heap rest : Heap) (visited : List Nat) :
    List Nat → Except Failure (Heap × Heap × List Nat)
  | [] => return (heap, rest, visited)
  | i :: roots =>
    match heap.get? i with
    | none => throw .missingEntry
    | some o => do
      let (heap, rest, visited) ← renewHeap m heap rest (i :: visited) (renewal i o)
      renewFrom m heap rest visited roots

def renameRefs (s : State) (m : Renaming) : Except Failure State := do
  let l ← scopeId s.lref
  let g ← scopeId s.gref
  let (heap, rest, visited) ← renewFrom m s.objs s.objs [] (l :: g :: s.pending.ids ++ s.frames)
  let (heap, _, visited) ←
    renewHeap m heap rest visited ((s.value.refs.flatMap Ref.ids).map Renewal.edge)
  let objs := visited.eraseDups.foldl (fun h i => h.update i fun o =>
    { o with props := o.props.map fun p => (p.1, renameValue m p.2) }) heap
  return { s with objs, value := renameValue m s.value }

def moveObjects (h : Heap) : Renaming → Except Failure Heap
  | [] => return h
  | (i, j) :: m =>
    match h.get? i with
    | some o => moveObjects ((h.erase i).insert j o) m
    | none => throw .missingEntry

def unify (s t : State) : Domain State := do
  if !(← Domain.options).useUnify then return s
  if s.lref != t.lref || s.frames != t.frames then return s
  let m ← matchFrom s t s.objs []
    ((s.lref, t.lref) :: (s.gref, t.gref) :: s.frames.map fun i => (some i, some i))
  let s ← s.renameRefs m
  return { s with objs := ← moveObjects s.objs m }

end State

end ScriptLens
