import ScriptLens.Proofs.Analysis.Notes
import ScriptLens.Proofs.Draft.Run

/-!
# Annotations

Numbering nodes and writing notes leaves the nodes of a draft as they are.
-/

namespace ScriptLens

namespace Draft

open Edit Std.TreeMap Option

/-- What is kept in a draft is kept below the numbers to be used next. -/
structure Tidy (d : Draft) : Prop where
  place : ∀ (n : Nat) (c : Cell), d.places[n]? = some c → n < d.fresh ∧ c.record < d.fresh
  record : ∀ n r, d.records[n]? = some r → n < d.fresh
  list : ∀ n l, d.lists[n]? = some l → n < d.fresh
  serial : ∀ (n : Nat) (r : Record) (i : Nat), d.records[n]? = some r → r.serial? = some i → i < d.nextNode
  node : ∀ i, d.nodes.contains i = true → i < d.nextNode

theorem Tidy.unused {d : Draft} (tidy : d.Tidy) : d.nodes.contains d.nextNode = false
  := Bool.eq_false_iff.2 fun known => Nat.lt_irrefl _ (tidy.node _ known)

def Numbered (d : Draft) : Prop :=
  ∀ (n m : Nat) (r r' : Record) (i : Nat), d.records[n]? = some r → d.records[m]? = some r' →
    r.serial? = some i → r'.serial? = some i → n = m

section Checks

variable {α : Type} {m : Std.TreeMap Nat α} {P : Nat → α → Prop}

theorem forall_entries_iff : (∀ e ∈ m.toList, P e.1 e.2) ↔ ∀ n a, m[n]? = some a → P n a := by
  constructor
  · exact fun all n a found => all (n, a) (mem_toList_iff_getElem?_eq_some.2 found)
  · exact fun all e member => all e.1 e.2 (mem_toList_iff_getElem?_eq_some.1 member)

instance [∀ n a, Decidable (P n a)] : Decidable (∀ n a, m[n]? = some a → P n a) :=
  decidable_of_iff _ forall_entries_iff

end Checks

theorem tidy_iff {d : Draft} :
  d.Tidy ↔ (∀ n c, d.places[n]? = some c → n < d.fresh ∧ c.record < d.fresh) ∧
    (∀ n r, d.records[n]? = some r → n < d.fresh ∧ ∀ i ∈ r.serial?, i < d.nextNode) ∧
    (∀ n l, d.lists[n]? = some l → n < d.fresh) ∧ ∀ i p, d.nodes[i]? = some p → i < d.nextNode
  := by
  constructor
  · intro tidy
    refine ⟨tidy.place, fun n r found => ⟨tidy.record n r found, fun i => tidy.serial n r i found⟩,
      tidy.list, fun i p found => tidy.node i ?_⟩
    rw [contains_eq_isSome_getElem?, found]
    rfl
  · rintro ⟨place, record, list, node⟩
    refine ⟨place, fun n r found => (record n r found).1, list,
      fun n r i found => (record n r found).2 i, fun i known => ?_⟩
    exact node i (d.nodes.getD i 0) (getElem?_eq_some_getD_of_contains known)

instance (d : Draft) : Decidable d.Tidy := decidable_of_iff' _ tidy_iff

instance (d : Draft) : Decidable d.Numbered :=
  decidable_of_iff
    (∀ n r, d.records[n]? = some r → ∀ m r', d.records[m]? = some r' →
      ∀ i ∈ r.serial?, r'.serial? = some i → n = m)
    ⟨fun all n m r r' i here there => all n r here m r' there i,
      fun numbered n r here m r' there i => numbered n m r r' i here there⟩

/-- From a draft to another one, nothing but numbers and notes that may be written has changed. -/
structure Annotated (W : NoteName → Bool) (d d' : Draft) : Prop where
  places : d'.places = d.places
  lists : d'.lists = d.lists
  fresh : d'.fresh = d.fresh
  nextNode : d.nextNode ≤ d'.nextNode
  kind : ∀ p, d'.kindAt p = d.kindAt p
  attr : ∀ p k, k ≠ .serial → d'.attrAt p k = d.attrAt p k
  note : ∀ p n, W n = false → d'.noteAt p n = d.noteAt p n
  numbered : d.Numbered → d'.Numbered

variable {W : NoteName → Bool} {d d' d'' : Draft} {p : Nat}

theorem Annotated.refl (W : NoteName → Bool) (d : Draft) : Annotated W d d
  := ⟨rfl, rfl, rfl, Nat.le_refl _, fun _ => rfl, fun _ _ _ => rfl, fun _ _ _ => rfl, id⟩

theorem Annotated.trans (first : Annotated W d d') (second : Annotated W d' d'') : Annotated W d d''
  := by
  constructor
  case places => exact second.places.trans first.places
  case lists => exact second.lists.trans first.lists
  case fresh => exact second.fresh.trans first.fresh
  case nextNode => exact Nat.le_trans first.nextNode second.nextNode
  case kind => exact fun p => (second.kind p).trans (first.kind p)
  case attr => exact fun p k plain => (second.attr p k plain).trans (first.attr p k plain)
  case note => exact fun p n kept => (second.note p n kept).trans (first.note p n kept)
  case numbered => exact fun numbered => second.numbered (first.numbered numbered)

theorem Annotated.mono {W' : NoteName → Bool} (annotated : Annotated W d d')
    (more : ∀ n, W' n = false → W n = false) : Annotated W' d d'
  := { annotated with note := fun p n kept => annotated.note p n (more n kept) }

theorem Annotated.list (annotated : Annotated W d d') (l : Nat) : d'.listAt l = d.listAt l
  := by rw [listAt, listAt, annotated.lists]

def noteOf (d : Draft) (r : Record) (n : NoteName) : Note :=
  (r.serial?.bind fun i => (d.notesOf i).lookup n).getD .none

/-- A record looks like another one in another draft. -/
structure Resembles (W : NoteName → Bool) (d d' : Draft) (r r' : Record) : Prop where
  kind : r'.kind = r.kind
  attr : ∀ k, k ≠ .serial → r'.attrs.lookup k = r.attrs.lookup k
  note : ∀ n, W n = false → d'.noteOf r' n = d.noteOf r n

theorem Annotated.of_records (places : d'.places = d.places) (lists : d'.lists = d.lists)
    (fresh : d'.fresh = d.fresh) (nextNode : d.nextNode ≤ d'.nextNode) (numbered : d.Numbered → d'.Numbered)
    (none : ∀ n : Nat, d.records[n]? = none → d'.records[n]? = none)
    (some : ∀ (n : Nat) (r : Record), d.records[n]? = some r →
      ∃ r', d'.records[n]? = some r' ∧ Resembles W d d' r r') : Annotated W d d'
  := by
  have record (p : Nat) : d.recordAt? p = .none ∧ d'.recordAt? p = .none ∨
      ∃ r r', d.recordAt? p = .some r ∧ d'.recordAt? p = .some r' ∧ Resembles W d d' r r' := by
    rw [recordAt?, recordAt?, places]
    cases d.places[p]? with
    | none => exact .inl ⟨rfl, rfl⟩
    | some c =>
      rw [bind_some, bind_some]
      cases found : d.records[c.record]? with
      | none => exact .inl ⟨rfl, none _ found⟩
      | some r =>
        obtain ⟨r', found', resembles⟩ := some _ r found
        exact .inr ⟨r, r', rfl, found', resembles⟩
  constructor
  case places => exact places
  case lists => exact lists
  case fresh => exact fresh
  case nextNode => exact nextNode
  case numbered => exact numbered
  case kind =>
    intro p
    rw [kindAt, kindAt]
    rcases record p with ⟨there, here⟩ | ⟨r, r', there, here, resembles⟩
    · rw [there, here]
    · rw [there, here, map_some, map_some, resembles.kind]
  case attr =>
    intro p k plain
    rw [attrAt, attrAt]
    rcases record p with ⟨there, here⟩ | ⟨r, r', there, here, resembles⟩
    · rw [there, here]
    · rw [there, here, bind_some, bind_some, resembles.attr k plain]
  case note =>
    intro p n kept
    rw [noteAt, noteAt]
    rcases record p with ⟨there, here⟩ | ⟨r, r', there, here, resembles⟩
    · rw [there, here]
      rfl
    · rw [there, here]
      exact resembles.note n kept

theorem notesOf_entered (i j : Nat) : (entered i p d).notesOf j = d.notesOf j := by
  rw [entered]
  split
  · rfl
  · rename_i unknown
    rw [notesOf, notesOf, contains_insert, getElem?_insert]
    by_cases same : i = j
    · subst same
      simp [unknown]
    · simp [same]

variable {i q : Nat} {n : NoteName} {v : Note}

theorem Tidy.entered (tidy : d.Tidy) (used : i < d.nextNode) : (entered i p d).Tidy := by
  rw [Edit.entered]
  split
  · exact tidy
  · refine ⟨tidy.place, tidy.record, tidy.list, tidy.serial, ?_⟩
    intro j known
    rw [contains_insert, Bool.or_eq_true] at known
    rcases known with same | known
    · simp only [Nat.compare_eq_eq, beq_iff_eq] at same
      rw [← same]
      exact used
    · exact tidy.node j known

theorem nextNode_entered : (entered i p d).nextNode = d.nextNode := by
  rw [entered]
  split <;> rfl

theorem Annotated.of_notes (places : d'.places = d.places) (lists : d'.lists = d.lists)
    (records : d'.records = d.records) (fresh : d'.fresh = d.fresh)
    (nextNode : d.nextNode ≤ d'.nextNode)
    (notes : ∀ i n, W n = false → (d'.notesOf i).lookup n = (d.notesOf i).lookup n) :
  Annotated W d d'
  := by
  apply Annotated.of_records places lists fresh nextNode
  · intro numbered n m r r' i first second
    rw [records] at first second
    exact numbered n m r r' i first second
  · intro n found
    rw [records, found]
  · intro n r found
    refine ⟨r, by rw [records, found], rfl, fun _ _ => rfl, ?_⟩
    intro m kept
    rw [noteOf, noteOf]
    cases r.serial? with
    | none => rfl
    | some i => rw [bind_some, bind_some, notes i m kept]

theorem annotated_entered (i : Nat) : Annotated W d (entered i p d) := by
  have same : (entered i p d).places = d.places ∧ (entered i p d).lists = d.lists ∧
      (entered i p d).records = d.records ∧
      (entered i p d).fresh = d.fresh ∧ d.nextNode ≤ (entered i p d).nextNode := by
    rw [entered]
    split <;> exact ⟨rfl, rfl, rfl, rfl, Nat.le_refl _⟩
  obtain ⟨places, lists, records, fresh, nextNode⟩ := same
  exact .of_notes places lists records fresh nextNode fun j n _ => by rw [notesOf_entered]

theorem annotated_mark (tidy : d.Tidy) (run : mark p d = .ok i d') :
  d'.Tidy ∧ Annotated W d d' ∧ i < d'.nextNode
  := by
  obtain ⟨c, r, placed, kept, ⟨serial, rfl⟩ | ⟨serial, rfl, rfl⟩⟩ := mark_eq_ok run
  · have used := tidy.serial _ _ _ kept serial
    exact ⟨tidy.entered used, annotated_entered i, by rw [nextNode_entered]; exact used⟩
  · have unknown := tidy.unused
    have number := serial?_numbered d.nextNode r
    have tidy' : Tidy { d with
        nextNode := d.nextNode + 1
        records := d.records.insert c.record (numbered d.nextNode r) } := by
      refine ⟨tidy.place, ?_, tidy.list, ?_, fun i known => Nat.lt_succ_of_lt (tidy.node i known)⟩
      · intro n r' found
        rw [getElem?_insert] at found
        split at found
        · rename_i same
          rw [← same]
          exact tidy.record _ _ kept
        · exact tidy.record _ _ found
      · intro n r' i found serial'
        rw [getElem?_insert] at found
        split at found
        · cases found
          cases number.symm.trans serial'
          exact Nat.lt_succ_self _
        · exact Nat.lt_succ_of_lt (tidy.serial _ _ _ found serial')
    have annotated : Annotated W d { d with
        nextNode := d.nextNode + 1
        records := d.records.insert c.record (numbered d.nextNode r) } := by
      refine .of_records rfl rfl rfl (Nat.le_succ _) ?_ ?_ ?_
      · intro numbered n m r1 r2 i first second serial1 serial2
        have old {m : Nat} {r' : Record} (found : d.records[m]? = some r') (is : r'.serial? = some i) :
            i ≠ d.nextNode := Nat.ne_of_lt (tidy.serial _ _ _ found is)
        rw [getElem?_insert] at first second
        split at first <;> split at second
        · omega
        · cases first
          cases number.symm.trans serial1
          exact absurd rfl (old second serial2)
        · cases second
          cases number.symm.trans serial2
          exact absurd rfl (old first serial1)
        · exact numbered n m r1 r2 i first second serial1 serial2
      · intro n found
        rw [getElem?_insert, if_neg, found]
        rintro rfl
        cases kept.symm.trans found
      · intro n r' found
        rw [getElem?_insert]
        split
        · rename_i same
          subst same
          cases kept.symm.trans found
          refine ⟨_, rfl, rfl, ?_, ?_⟩
          · intro k plain
            rw [numbered, lookup_putItem, if_neg plain]
          · intro m _
            simp only [noteOf, number, serial, notesOf, unknown, bind_some, Bool.false_eq_true,
              if_false, List.lookup_nil, bind_none]
        · exact ⟨r', found, rfl, fun _ _ => rfl, fun _ _ => rfl⟩
    exact ⟨tidy'.entered (Nat.lt_succ_self _), annotated.trans (annotated_entered _),
      by rw [nextNode_entered]; exact Nat.lt_succ_self _⟩

theorem serial_of_mark (run : mark p d = .ok i d') :
  (d'.recordAt? p).bind Record.serial? = some i ∧ d'.nodes.contains i = true
  := by
  have enters (d : Draft) : (entered i p d).recordAt? p = d.recordAt? p ∧
      (entered i p d).nodes.contains i = true := by
    rw [entered]
    split
    · rename_i known
      exact ⟨rfl, known⟩
    · exact ⟨rfl, contains_insert_self⟩
  obtain ⟨c, r, placed, kept, ⟨serial, rfl⟩ | ⟨serial, rfl, rfl⟩⟩ := mark_eq_ok run
  · rw [(enters d).1, recordAt?, placed, bind_some, kept, bind_some]
    exact ⟨serial, (enters d).2⟩
  · refine ⟨?_, (enters _).2⟩
    rw [(enters _).1, recordAt?, placed, bind_some, getElem?_insert_self]
    exact serial?_numbered _ r

theorem noteAt_setNote (run : setNote p n v d = .ok () d') : d'.noteAt p n = v := by
  obtain ⟨i, d1, marked, rfl⟩ := setNote_eq_ok run
  obtain ⟨serial, entered⟩ := serial_of_mark marked
  change (((d1.recordAt? p).bind Record.serial?).bind fun i => List.lookup n
    (if d1.nodes.contains i then _ else [])).getD .none = v
  rw [serial, bind_some, if_pos entered, getElem?_insert_self, getD_some,
    Notes.lookup_putNote, if_pos rfl, getD_some]

theorem annotated_setNote (allowed : W n = true) (tidy : d.Tidy)
    (run : setNote p n v d = .ok () d') : d'.Tidy ∧ Annotated W d d'
  := by
  obtain ⟨i, d1, marked, rfl⟩ := setNote_eq_ok run
  obtain ⟨tidy', annotated, used⟩ := annotated_mark (W := W) tidy marked
  refine ⟨⟨tidy'.place, tidy'.record, tidy'.list, tidy'.serial, tidy'.node⟩, annotated.trans ?_⟩
  refine .of_notes rfl rfl rfl rfl (Nat.le_refl _) ?_
  intro j m kept
  have other : m ≠ n := by
    rintro rfl
    rw [allowed] at kept
    cases kept
  simp only [notesOf, getElem?_insert]
  split
  · by_cases same : i = j
    · subst same
      rw [if_pos rfl, getD_some, Notes.lookup_putNote, if_neg other]
    · rw [if_neg same]
  · rfl

/-! ### One node -/

def Shares (d : Draft) (p q : Nat) : Prop :=
  ∃ c e, d.places[p]? = some c ∧ d.places[q]? = some e ∧ c.record = e.record

theorem Shares.record (shares : d.Shares p q) : d.recordAt? q = d.recordAt? p := by
  obtain ⟨c, e, placedP, placedQ, same⟩ := shares
  rw [recordAt?, recordAt?, placedP, placedQ, bind_some, bind_some, same]

/-- A note that is written at a place is written for the places that hold the same record. -/
theorem noteAt_of_setNote (numbered : d.Numbered) (tidy : d.Tidy)
    (run : setNote p n v d = .ok () d') :
  d'.noteAt q n = d.noteAt q n ∨ d'.noteAt q n = v ∧ d.Shares p q
  := by
  obtain ⟨i, d1, marked, rfl⟩ := setNote_eq_ok run
  obtain ⟨-, annotated, -⟩ := annotated_mark (W := fun _ => false) tidy marked
  obtain ⟨serial, entered⟩ := serial_of_mark marked
  rw [← annotated.note q n rfl]
  have notes (j : Nat) : notesOf
      { d1 with notes := d1.notes.insert i (Notes.putNote n v ((d1.notes[i]?).getD [])) } j =
        if i = j then Notes.putNote n v ((d1.notes[i]?).getD []) else d1.notesOf j := by
    rw [notesOf, notesOf, getElem?_insert]
    by_cases same : i = j
    · subst same
      simp [entered]
    · simp [same]
  have written : noteAt
      { d1 with notes := d1.notes.insert i (Notes.putNote n v ((d1.notes[i]?).getD [])) } q n =
        (((d1.recordAt? q).bind Record.serial?).bind fun j => (if i = j then
          Notes.putNote n v ((d1.notes[i]?).getD []) else d1.notesOf j).lookup n).getD .none := by
    simp only [noteAt, notes]
    rfl
  rw [written, noteAt]
  cases number : (d1.recordAt? q).bind Record.serial? with
  | none => exact .inl rfl
  | some j =>
    by_cases same : i = j
    · subst same
      right
      constructor
      · rw [bind_some, if_pos rfl, Notes.lookup_putNote, if_pos rfl, getD_some]
      · obtain ⟨r, foundP, serialP⟩ := bind_eq_some_iff.1 serial
        obtain ⟨r', foundQ, serialQ⟩ := bind_eq_some_iff.1 number
        obtain ⟨c, placedP, keptP⟩ := recordAt?_eq_some.1 foundP
        obtain ⟨e, placedQ, keptQ⟩ := recordAt?_eq_some.1 foundQ
        rw [annotated.places] at placedP placedQ
        exact ⟨c, e, placedP, placedQ, annotated.numbered numbered _ _ _ _ _ keptP keptQ serialP serialQ⟩
    · left
      rw [bind_some, bind_some, if_neg same]

theorem annotated_clearNote (allowed : W n = true) (tidy : d.Tidy)
    (run : clearNote n d = .ok () d') : d'.Tidy ∧ Annotated W d d' ∧ ∀ p, d'.noteAt p n = .none
  := by
  cases run
  have found (i : Nat) (m : NoteName) :
      ((notesOf { d with notes := d.notes.map fun _ l => l.filter fun q => q.1 != n } i).lookup m) =
        if m != n then (d.notesOf i).lookup m else none := by
    rw [notesOf, notesOf, getElem?_map]
    split
    · cases d.notes[i]? with
      | none => simp
      | some l => exact lookup_filter m l (· != n)
    · simp
  refine ⟨⟨tidy.place, tidy.record, tidy.list, tidy.serial, tidy.node⟩, ?_, ?_⟩
  · refine .of_notes rfl rfl rfl rfl (Nat.le_refl _) fun i m kept => ?_
    rw [found, if_pos]
    refine bne_iff_ne.2 fun same => ?_
    rw [same, allowed] at kept
    cases kept
  · intro p
    rw [noteAt]
    cases (recordAt? _ p).bind Record.serial? with
    | none => rfl
    | some i => rw [bind_some, found, if_neg (by simp), getD_none]

end Draft

/-! ### Computations -/

namespace Edit

variable {α β : Type} {W : NoteName → Bool} {p : Nat} {k : Attr}

/-- A computation that only annotates; the notes that may be written are given. -/
class Annotates (W : NoteName → Bool) (x : Edit α) : Prop where
  annotates {d : Draft} {a : α} {d' : Draft} :
    d.Tidy → x d = .ok a d' → d'.Tidy ∧ d.Annotated W d'

class Allows (W : NoteName → Bool) (n : NoteName) : Prop where
  allows : W n = true

namespace Annotates

instance pure (a : α) : Annotates W (pure a : Edit α) := by
  constructor
  intro d b d' tidy run
  cases run
  exact ⟨tidy, .refl W _⟩

instance bind (x : Edit α) (f : α → Edit β) [first : Annotates W x] [rest : ∀ a, Annotates W (f a)] :
  Annotates W (x >>= f)
  := by
  constructor
  intro d b d' tidy run
  obtain ⟨a, d1, run1, run2⟩ := bind_eq_ok.1 run
  obtain ⟨tidy1, annotated1⟩ := first.annotates tidy run1
  obtain ⟨tidy2, annotated2⟩ := (rest a).annotates tidy1 run2
  exact ⟨tidy2, annotated1.trans annotated2⟩

instance note (n : NoteName) : Annotates W (note p n) := by
  constructor
  intro d v d' tidy run
  obtain ⟨i, marked, -⟩ := note_eq_ok run
  obtain ⟨tidy', annotated, -⟩ := Draft.annotated_mark tidy marked
  exact ⟨tidy', annotated⟩

instance valueOf : Annotates W (valueOf p) := bind _ _

instance setNote (n : NoteName) (v : Note) [allowed : Allows W n] : Annotates W (setNote p n v)
  := ⟨fun tidy run => Draft.annotated_setNote allowed.allows tidy run⟩

instance count (f : Stats → Stats) : Annotates W (count f) := by
  constructor
  intro d a d' tidy run
  cases run
  exact ⟨⟨tidy.place, tidy.record, tidy.list, tidy.serial, tidy.node⟩,
    .of_notes rfl rfl rfl rfl (Nat.le_refl _) fun _ _ _ => rfl⟩

end Annotates

end Edit

end ScriptLens
