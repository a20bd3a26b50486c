import ScriptLens.Draft.Copy
import ScriptLens.Proofs.Computation

/-!
# Results of changes

What is kept in a draft: the record at a place, and the attributes, the kind and the notes of its
node.
-/

namespace ScriptLens

namespace Record

def serial? (r : Record) : Option Nat :=
  match r.attrs.lookup .serial with
  | some (.leaf (.int i)) => some i.toNat
  | _ => none

theorem serial?_of_number {r : Record} {i : Int}
    (number : (r.attrs.lookup .serial).getD (.leaf .null) = .leaf (.int i)) :
  r.serial? = some i.toNat
  := by
  rw [serial?]
  cases found : r.attrs.lookup .serial with
  | none =>
    rw [found] at number
    cases number
  | some x =>
    rw [found] at number
    obtain rfl : x = .leaf (.int i) := number
    rfl

theorem serial?_of_other {r : Record}
    (other : ∀ i, (r.attrs.lookup .serial).getD (.leaf .null) = .leaf (.int i) → False) :
  r.serial? = none
  := by
  rw [serial?]
  split
  · rename_i i found
    exact (other i (by rw [found]; rfl)).elim
  · rfl

end Record

/-! ### Items -/

theorem exists_of_forall₂ {α β : Type} {R : α → β → Prop} {xs : List α} {ys : List β} {x : α}
    (related : List.Forall₂ R xs ys) (member : x ∈ xs) : ∃ y ∈ ys, R x y
  := by
  induction related with
  | nil => cases member
  | @cons x' y xs ys here _ ih =>
    rcases List.mem_cons.1 member with rfl | later
    · exact ⟨y, List.mem_cons_self, here⟩
    · obtain ⟨y', isItem, related⟩ := ih later
      exact ⟨y', List.mem_cons_of_mem _ isItem, related⟩

variable {p : Nat} {x : Item} {xs : List Item}

theorem place?_eq_some_iff : Edit.Item.place? x = some p ↔ x = .place p
  := by cases x <;> simp [Edit.Item.place?]

def list? : Item → Option Nat
  | .list l => some l
  | _ => none

theorem list?_eq_some_iff {l : Nat} : list? x = some l ↔ x = .list l
  := by cases x <;> simp [list?]

theorem map_place?_eq_iff {ps : List Nat} :
  xs.map Edit.Item.place? = ps.map some ↔ xs = ps.map .place
  := by
  induction xs generalizing ps with
  | nil => cases ps <;> simp
  | cons x xs ih => cases ps <;> simp [ih, place?_eq_some_iff]

theorem mem_of_mem_places (member : p ∈ xs.filterMap Edit.Item.place?) : .place p ∈ xs := by
  obtain ⟨x, isItem, isPlace⟩ := List.mem_filterMap.1 member
  rwa [place?_eq_some_iff.1 isPlace] at isItem

/-! ### Drafts -/

namespace Draft

theorem getElem?_insert {α : Type} (m : Std.TreeMap Nat α) (n k : Nat) (a : α) :
  (m.insert n a)[k]? = if n = k then some a else m[k]?
  := by simp only [Std.TreeMap.getElem?_insert, Nat.compare_eq_eq]

def recordAt? (d : Draft) (p : Nat) : Option Record :=
  (d.places[p]?).bind fun c => d.records[c.record]?

def attrAt (d : Draft) (p : Nat) (a : Attr) : Item :=
  ((d.recordAt? p).bind fun r => r.attrs.lookup a).getD (.leaf .null)

def kindAt (d : Draft) (p : Nat) : Kind := ((d.recordAt? p).map Record.kind).getD .record

def listAt (d : Draft) (l : Nat) : List Item := (d.lists[l]?).getD []

def itemsAt (d : Draft) : Item → List Item
  | .list l => d.listAt l
  | _ => []

def saysYes (d : Draft) (p : Nat) (a : Attr) : Bool :=
  match d.attrAt p a with
  | .leaf t => t.isTrue
  | _ => false

def notesOf (d : Draft) (i : Nat) : List (NoteName × Note) :=
  if d.nodes.contains i then (d.notes[i]?).getD [] else []

def noteAt (d : Draft) (p : Nat) (n : NoteName) : Note :=
  (((d.recordAt? p).bind Record.serial?).bind fun i => (d.notesOf i).lookup n).getD .none

def valueAt (d : Draft) (p : Nat) : Value := (d.noteAt p .staticValue).value?.getD .absent

def nameAt? (d : Draft) (p : Nat) : Option Text :=
  match d.attrAt p .name with
  | .leaf (.text t) => some t
  | _ => none

theorem recordAt?_eq_some {d : Draft} {p : Nat} {r : Record} :
  d.recordAt? p = some r ↔ ∃ c, d.places[p]? = some c ∧ d.records[c.record]? = some r
  := Option.bind_eq_some_iff

end Draft

namespace Edit

variable {α β : Type} {d d' d'' : Draft} {p q : Nat} {k : Attr}

variable {x : Edit α} {xs : List Item} {n : NoteName} {v : Note}

theorem bind_eq_ok {f : α → Edit β} {b : β} :
  (x >>= f) d = .ok b d'' ↔ ∃ a d', x d = .ok a d' ∧ f a d' = .ok b d''
  := estate_bind_eq_ok

theorem pure_eq_ok {a b : α} : (pure a : Edit α) d = .ok b d' ↔ b = a ∧ d' = d := by
  constructor
  · intro same
    cases same
    use rfl
  · rintro ⟨rfl, rfl⟩
    rfl

theorem get_bind (f : Draft → Edit α) : (get >>= f) d = f d d := rfl

/-! ### Reading -/

theorem record_eq_ok {r : Record} : record p d = .ok r d' ↔ d.recordAt? p = some r ∧ d' = d := by
  rw [record, get_bind, Draft.recordAt?]
  cases (d.places[p]?).bind fun c => d.records[c.record]? with
  | none =>
    constructor
    · intro impossible
      cases impossible
    · rintro ⟨impossible, -⟩
      cases impossible
  | some r' => exact pure_eq_ok.trans (and_congr_left fun _ => by rw [Option.some.injEq, eq_comm])

theorem kind_eq_ok {c : Kind} (run : kind p d = .ok c d') : c = d.kindAt p ∧ d' = d := by
  obtain ⟨r, d1, found, ended⟩ := bind_eq_ok.1 run
  obtain ⟨found, rfl⟩ := record_eq_ok.1 found
  cases ended
  rw [Draft.kindAt, found]
  exact ⟨rfl, rfl⟩

theorem attr_run {r : Record} (found : d.recordAt? p = some r) (k : Attr) :
  attr p k d = .ok ((r.attrs.lookup k).getD (.leaf .null)) d
  := bind_eq_ok.2 ⟨r, d, record_eq_ok.2 ⟨found, rfl⟩, rfl⟩

theorem attr_eq_ok {x : Item} (run : attr p k d = .ok x d') : x = d.attrAt p k ∧ d' = d := by
  obtain ⟨r, d1, found, ended⟩ := bind_eq_ok.1 run
  obtain ⟨found, rfl⟩ := record_eq_ok.1 found
  cases ended
  rw [Draft.attrAt, found]
  exact ⟨rfl, rfl⟩

theorem attr_bind_eq_ok {β : Type} {f : Item → Edit β} {b : β} (run : (attr p k >>= f) d = .ok b d') :
  f (d.attrAt p k) d = .ok b d'
  := by
  obtain ⟨x, d1, read, ended⟩ := bind_eq_ok.1 run
  obtain ⟨rfl, rfl⟩ := attr_eq_ok read
  exact ended

theorem child_eq_ok (run : child p k d = .ok q d') : d.attrAt p k = .place q ∧ d' = d := by
  have ended := attr_bind_eq_ok run
  cases found : d.attrAt p k with
  | place q' =>
    rw [found] at ended
    cases ended
    exact ⟨rfl, rfl⟩
  | _ =>
    rw [found] at ended
    cases ended

theorem items_eq_ok {l : Nat} (run : items l d = .ok xs d') : xs = d.listAt l ∧ d' = d := by
  cases run
  exact ⟨rfl, rfl⟩

theorem itemsOf_eq_ok (run : itemsOf p k d = .ok xs d') :
  (∃ l, d.attrAt p k = .list l) ∧ xs = d.itemsAt (d.attrAt p k) ∧ d' = d
  := by
  have ended := attr_bind_eq_ok run
  cases found : d.attrAt p k with
  | list l =>
    rw [found] at ended
    obtain ⟨rfl, rfl⟩ := items_eq_ok ended
    exact ⟨⟨l, rfl⟩, rfl, rfl⟩
  | _ =>
    rw [found] at ended
    cases ended

theorem isTrue_eq_ok {b : Bool} (run : isTrue p k d = .ok b d') : b = d.saysYes p k ∧ d' = d := by
  have ended := attr_bind_eq_ok run
  rw [Draft.saysYes]
  cases found : d.attrAt p k <;> (rw [found] at ended; cases ended; exact ⟨rfl, rfl⟩)

/-! ### Changing -/

theorem lookup_putItem (k j : Attr) (x : Item) (l : List (Attr × Item)) :
  (putItem k x l).lookup j = if j = k then some x else l.lookup j
  := by
  rw [lookup_put k j l (putItem k x) (fun _ => x) rfl fun _ _ => by grind [putItem]]
  cases l.lookup k <;> rfl

theorem changeRecord_run {c : Cell} {r : Record} (placed : d.places[p]? = some c)
    (kept : d.records[c.record]? = some r) (f : Record → Record) :
  changeRecord p f d = .ok () { d with records := d.records.insert c.record (f r) }
  := by
  refine bind_eq_ok.2 ⟨r, d, record_eq_ok.2 ⟨Draft.recordAt?_eq_some.2 ⟨c, placed, kept⟩, rfl⟩, ?_⟩
  apply congrArg (EStateM.Result.ok ())
  simp only [placed]

theorem changeRecord_eq_ok {f : Record → Record} (run : changeRecord p f d = .ok () d') :
  ∃ c r, d.places[p]? = some c ∧ d.records[c.record]? = some r ∧
    d' = { d with records := d.records.insert c.record (f r) }
  := by
  obtain ⟨r, d1, found, -⟩ := bind_eq_ok.1 run
  obtain ⟨found, rfl⟩ := record_eq_ok.1 found
  obtain ⟨c, placed, kept⟩ := Draft.recordAt?_eq_some.1 found
  cases run.symm.trans (changeRecord_run placed kept f)
  exact ⟨c, r, placed, kept, rfl⟩

def numbered (i : Nat) (r : Record) : Record :=
  { r with attrs := putItem .serial (.leaf (.int i)) r.attrs }

theorem serial?_numbered (i : Nat) (r : Record) : (numbered i r).serial? = some i
  := by simp [numbered, Record.serial?, lookup_putItem]

/-- The draft after the node at a place was entered under its number. -/
def entered (i p : Nat) (d : Draft) : Draft :=
  if d.nodes.contains i then d
  else { d with nodes := d.nodes.insert i p, notes := d.notes.insert i [] }

theorem enter_run (i : Nat) :
  (do
    if !(← get).nodes.contains i then
      modify fun d => { d with nodes := d.nodes.insert i p, notes := d.notes.insert i [] }
    return i : Edit Nat) d = .ok i (entered i p d)
  := by
  rw [get_bind, entered]
  cases d.nodes.contains i <;> rfl

variable {c : Cell} {r : Record} {i : Nat}

theorem mark_of_serial (found : d.recordAt? p = some r) (number : r.serial? = some i) :
  mark p d = .ok i (entered i p d)
  := by
  refine bind_eq_ok.2 ⟨i, d, bind_eq_ok.2 ⟨_, d, attr_run found .serial, ?_⟩, enter_run i⟩
  cases item : (r.attrs.lookup .serial).getD (.leaf .null) with
  | leaf t =>
    cases t with
    | int k =>
      cases number.symm.trans (r.serial?_of_number item)
      rfl
    | _ => cases number.symm.trans (r.serial?_of_other fun k other => by cases item.symm.trans other)
  | _ => cases number.symm.trans (r.serial?_of_other fun k other => by cases item.symm.trans other)

theorem mark_of_none (placed : d.places[p]? = some c) (kept : d.records[c.record]? = some r)
    (unnumbered : r.serial? = none) :
  mark p d = .ok d.nextNode (entered d.nextNode p
    { d with
      nextNode := d.nextNode + 1
      records := d.records.insert c.record (numbered d.nextNode r) })
  := by
  have numbers : (do
      let i := (← get).nextNode
      modify fun d => { d with nextNode := i + 1 }
      setAttr p .serial (.leaf (.int i))
      return i : Edit Nat) d = .ok d.nextNode
        { d with nextNode := d.nextNode + 1, records := d.records.insert c.record (numbered d.nextNode r) } := by
    rw [get_bind]
    exact bind_eq_ok.2 ⟨(), _, rfl, bind_eq_ok.2
      ⟨(), _, changeRecord_run (d := { d with nextNode := d.nextNode + 1 }) placed kept _, rfl⟩⟩
  have read := attr_run (Draft.recordAt?_eq_some.2 ⟨c, placed, kept⟩) .serial
  refine bind_eq_ok.2 ⟨_, _, bind_eq_ok.2 ⟨_, d, read, ?_⟩, enter_run _⟩
  cases item : (r.attrs.lookup .serial).getD (.leaf .null) with
  | leaf t =>
    cases t with
    | int k => cases unnumbered.symm.trans (r.serial?_of_number item)
    | _ => exact numbers
  | _ => exact numbers

theorem mark_eq_ok (run : mark p d = .ok i d') :
  ∃ c r, d.places[p]? = some c ∧ d.records[c.record]? = some r ∧
    (r.serial? = some i ∧ d' = entered i p d ∨
      r.serial? = none ∧ i = d.nextNode ∧
        d' = entered i p
          { d with
            nextNode := i + 1
            records := d.records.insert c.record (numbered i r) })
  := by
  obtain ⟨_, d1, numbers, -⟩ := bind_eq_ok.1 run
  obtain ⟨_, d2, read, -⟩ := bind_eq_ok.1 numbers
  obtain ⟨r, d3, found, -⟩ := bind_eq_ok.1 read
  obtain ⟨isRecord, rfl⟩ := record_eq_ok.1 found
  obtain ⟨c, placed, kept⟩ := Draft.recordAt?_eq_some.1 isRecord
  refine ⟨c, r, placed, kept, ?_⟩
  cases number : r.serial? with
  | some j =>
    cases run.symm.trans (mark_of_serial isRecord number)
    exact .inl ⟨rfl, rfl⟩
  | none =>
    cases run.symm.trans (mark_of_none placed kept number)
    exact .inr ⟨rfl, rfl, rfl⟩

theorem note_eq_ok (run : note p n d = .ok v d') :
  ∃ i, mark p d = .ok i d' ∧ v = (((d'.notes[i]?).getD []).lookup n).getD .none
  := by
  obtain ⟨i, d1, marked, ⟨⟩⟩ := bind_eq_ok.1 run
  exact ⟨i, marked, rfl⟩

theorem setNote_eq_ok (run : setNote p n v d = .ok () d') :
  ∃ i d1, mark p d = .ok i d1 ∧
    d' = { d1 with notes := d1.notes.insert i (Notes.putNote n v ((d1.notes[i]?).getD [])) }
  := by
  obtain ⟨i, d1, marked, ⟨⟩⟩ := bind_eq_ok.1 run
  exact ⟨i, d1, marked, rfl⟩

theorem note_value (unused : d.nodes.contains d.nextNode = false) (run : note p n d = .ok v d') :
  v = d.noteAt p n
  := by
  obtain ⟨i, marked, rfl⟩ := note_eq_ok run
  obtain ⟨c, r, placed, kept, ⟨serial, rfl⟩ | ⟨serial, rfl, rfl⟩⟩ := mark_eq_ok marked
  · have found : d.recordAt? p = some r := Draft.recordAt?_eq_some.2 ⟨c, placed, kept⟩
    rw [Draft.noteAt, found, Option.bind_some, serial, Option.bind_some, Draft.notesOf, entered]
    split
    · rfl
    · rw [Std.TreeMap.getElem?_insert_self]
      rfl
  · have found : d.recordAt? p = some r := Draft.recordAt?_eq_some.2 ⟨c, placed, kept⟩
    rw [Draft.noteAt, found, Option.bind_some, serial, entered, if_neg (by simp [unused])]
    simp

end Edit

end ScriptLens
