import ScriptLens.Analysis.Note
import ScriptLens.Proofs.Computation

/-!
# Values noted on nodes

`Notes.valueOf` is the value that is noted on a node over all its evaluations.
-/

namespace ScriptLens.Notes

open Std.TreeMap

/-- Different nodes have different numbers, only nodes with a number have notes, and no node has got
a further name. -/
structure Well (s : Notes) : Prop where
  injective : ∀ r q i : Nat, s.ids[r]? = some i → s.ids[q]? = some i → r = q
  below : ∀ r i : Nat, s.ids[r]? = some i → i < s.next
  unused : ∀ i : Nat, s.next ≤ i → s.table[i]? = none
  unnamed : ∀ (r : Nat) l, s.extras[r]? = some l → l.lookup .name = none

theorem well_empty : Well {} := by
  constructor <;> intros <;> simp_all

def valueOf (s : Notes) (t : Tree) : Option Value :=
  (s.ids[t.ref]?).bind fun i => (s.getAt i .staticValue).value?

variable {s : Notes} {t u : Tree}

theorem mark_ids (s : Notes) (t : Tree) : (s.mark t).2.ids[t.ref]? = some (s.mark t).1 := by
  rw [mark]
  split
  · rename_i i found
    apply found
  · apply getElem?_insert_self

theorem mark_ids_of (s : Notes) {r i : Nat} (known : s.ids[r]? = some i) :
  (s.mark t).2.ids[r]? = some i
  := by
  rw [mark]
  split
  · apply known
  · rename_i missing
    simp only [getElem?_insert, Nat.compare_eq_eq]
    split
    · rename_i same
      rw [same, known] at missing
      cases missing
    · apply known

theorem mark_table (s : Notes) (t : Tree) : (s.mark t).2.table = s.table := by
  rw [mark]
  split <;> rfl

theorem Well.mark (well : s.Well) (t : Tree) : (s.mark t).2.Well := by
  rw [Notes.mark]
  split
  · apply well
  · rename_i missing
    have ids : ∀ r i : Nat, (s.ids.insert t.ref s.next)[r]? = some i →
        (r = t.ref ∧ i = s.next) ∨ s.ids[r]? = some i := by
      intro r i found
      simp only [getElem?_insert, Nat.compare_eq_eq] at found
      split at found
      · rename_i same
        left
        use same.symm, (Option.some.inj found).symm
      · right
        apply found
    constructor
    · intro r q i foundR foundQ
      rcases ids r i foundR with ⟨rfl, rfl⟩ | oldR
      · rcases ids q _ foundQ with ⟨rfl, -⟩ | oldQ
        · rfl
        · apply (Nat.lt_irrefl _ (well.below q _ oldQ)).elim
      · rcases ids q i foundQ with ⟨rfl, rfl⟩ | oldQ
        · apply (Nat.lt_irrefl _ (well.below r _ oldR)).elim
        · apply well.injective r q i oldR oldQ
    · intro r i found
      rcases ids r i found with ⟨-, rfl⟩ | old
      · apply Nat.lt_succ_self
      · apply Nat.lt_succ_of_lt (well.below r i old)
    · intro i above
      apply well.unused i (Nat.le_of_succ_le above)
    · apply well.unnamed

theorem Well.valueOf_mark (well : s.Well) (t u : Tree) : (s.mark t).2.valueOf u = s.valueOf u := by
  rw [Notes.mark]
  split
  · rfl
  · rename_i missing
    simp only [valueOf, getElem?_insert, Nat.compare_eq_eq]
    split
    · rename_i same
      rw [← same, missing, Option.bind_some, Option.bind_none, getAt]
      simp [well.unused s.next (Nat.le_refl _), Note.value?]
    · rfl

theorem lookup_putNote (n k : NoteName) (v : Note) (l : List (NoteName × Note)) :
  (putNote n v l).lookup k = if k = n then some v else l.lookup k
  := by
  rw [lookup_put n k l (putNote n v) (fun _ => v) rfl fun _ _ => by grind [putNote]]
  cases l.lookup n <;> rfl

theorem getAt_insert (s : Notes) (i j : Nat) (k : NoteName) (l : List (NoteName × Note)) :
  getAt j k { s with table := s.table.insert i l } =
    if i = j then (l.lookup k).getD .none else s.getAt j k
  := by
  simp only [getAt, getElem?_insert, Nat.compare_eq_eq]
  split <;> rfl

theorem getAt_setAt (s : Notes) (i j : Nat) (n k : NoteName) (v : Note) :
  (s.setAt i n v).getAt j k = if j = i ∧ k = n then v else s.getAt j k
  := by
  rw [setAt, getAt_insert, lookup_putNote, getAt]
  split
  · rename_i same
    subst same
    by_cases name : k = n <;> cases s.table[i]? <;> simp [name]
  · simp [*, eq_comm]

theorem getAt_eraseAt (s : Notes) (i j : Nat) (n k : NoteName) :
  (s.eraseAt i n).getAt j k = if j = i ∧ k = n then .none else s.getAt j k
  := by
  rw [eraseAt, getAt_insert, lookup_filter _ _ (· != n), getAt]
  split
  · rename_i same
    subst same
    by_cases name : k = n <;> cases s.table[i]? <;> simp [name]
  · simp [*, eq_comm]

theorem Well.insert (well : s.Well) {i : Nat} (known : s.ids[t.ref]? = some i)
    (l : List (NoteName × Note)) : Well { s with table := s.table.insert i l }
  := by
  refine ⟨well.injective, well.below, ?_, well.unnamed⟩
  intro j above
  have differs : i ≠ j := Nat.ne_of_lt (Nat.lt_of_lt_of_le (well.below _ i known) above)
  simp only [getElem?_insert, Nat.compare_eq_eq, if_neg differs]
  apply well.unused j above

theorem valueOf_setAt_other (s : Notes) (i : Nat) {n : NoteName} (other : n ≠ .staticValue)
    (v : Note) (u : Tree) : (s.setAt i n v).valueOf u = s.valueOf u
  := by
  have kept : ∀ j, (s.setAt i n v).getAt j .staticValue = s.getAt j .staticValue := by
    intro j
    rw [getAt_setAt, if_neg fun both => other both.2.symm]
  simp only [valueOf, kept]
  rfl

theorem Well.valueOf_setAt (well : s.Well) {i : Nat} (known : s.ids[t.ref]? = some i) (v : Value)
    (u : Tree) :
  (s.setAt i .staticValue (.value v)).valueOf u = if u.ref = t.ref then some v else s.valueOf u
  := by
  have same : (s.setAt i .staticValue (.value v)).ids = s.ids := rfl
  rw [valueOf, same]
  split
  · rename_i equal
    rw [equal, known, Option.bind_some, getAt_setAt, if_pos ⟨rfl, rfl⟩]
    rfl
  · rename_i differs
    rw [valueOf]
    cases found : s.ids[u.ref]? with
    | none => rfl
    | some j =>
      rw [Option.bind_some, Option.bind_some, getAt_setAt, if_neg]
      rintro ⟨rfl, -⟩
      apply differs (well.injective _ _ _ found known)

theorem lookup_putAttr {a b : Attr} (differs : b ≠ a) (v : Tree) (l : List (Attr × Tree)) :
  (Tree.putAttr a v l).lookup b = l.lookup b
  := by
  rw [Tree.putAttr]
  split
  · induction l with
    | nil => rfl
    | cons p l ih =>
      rw [Tree.replaceAttr]
      split <;> simp only [lookup_cons] <;> grind [lookup_cons]
  · rw [List.lookup_append, lookup_cons, if_neg differs, List.lookup_nil, Option.or_none]

theorem Well.setAttr (well : s.Well) {a : Attr} (other : a ≠ .name) (v : Tree) :
  (s.setAttr t a v).Well
  := by
  refine ⟨well.injective, well.below, well.unused, ?_⟩
  intro r l found
  simp only [Notes.setAttr, getElem?_insert, Nat.compare_eq_eq] at found
  split at found
  · cases found
    rw [lookup_putAttr (Ne.symm other), extrasOf]
    cases old : s.extras[t.ref]? with
    | none => rfl
    | some l => apply well.unnamed _ l old
  · apply well.unnamed r l found

theorem Well.attr_name (well : s.Well) (t : Tree) : s.attr t .name = t.get .name := by
  rw [attr, extrasOf]
  cases found : s.extras[t.ref]? with
  | none => rfl
  | some l =>
    rw [Option.getD_some, well.unnamed _ l found]

/-! ### Numbers for all nodes of a tree -/

/-- Nothing is noted on any node. -/
structure Blank (s : Notes) : Prop where
  well : s.Well
  table : s.table = {}

theorem Blank.mark (blank : s.Blank) (t : Tree) : (s.mark t).2.Blank
  := ⟨blank.well.mark t, (s.mark_table t).trans blank.table⟩

theorem Blank.valueOf_eq (blank : s.Blank) (t : Tree) : s.valueOf t = none := by
  rw [valueOf]
  cases s.ids[t.ref]? with
  | none => rfl
  | some i =>
    rw [Option.bind_some, getAt, blank.table, getElem?_emptyc]
    rfl

mutual

theorem Blank.markTree {s : Notes} (blank : s.Blank) : (t : Tree) → (s.markTree t).Blank
  | .list l => blank.markList l
  | .node r k as => by
    rw [Notes.markTree]
    split
    · apply (blank.markAttrs as).mark
    · apply blank
  | .null => blank
  | .flag _ => blank
  | .int _ => blank
  | .real _ => blank
  | .text _ => blank
  | .regexp _ => blank

theorem Blank.markList {s : Notes} (blank : s.Blank) : (l : List Tree) → (s.markList l).Blank
  | [] => blank
  | t :: l => (blank.markTree t).markList l

theorem Blank.markAttrs {s : Notes} (blank : s.Blank) :
    (as : List (Attr × Tree)) → (s.markAttrs as).Blank
  | [] => blank
  | (_, t) :: l => (blank.markTree t).markAttrs l

end

end ScriptLens.Notes
