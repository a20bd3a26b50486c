import Mathlib
import ScriptLens.Draft.Alike
import ScriptLens.Proofs.Draft.Annotate

/-!
# What comparisons find out

A comparison of two items goes over what the first one has.  It says yes exactly if the second one has all of
it: its lists may be longer, and its nodes may have further attributes.
-/

set_option mvcgen.warning false

open Std.Do ScriptLens.Edit

namespace ScriptLens

abbrev Attr.IsNumber (a : Attr) : Prop := a = .serial ∨ a = .site

namespace Draft

/-- The second item has what the first one has, as far as can be seen at a depth, apart from numbers. -/
def Fits (d : Draft) : Nat → Item → Item → Prop
  | 0, _, _ => False
  | n + 1, .place p, .place q => ∃ c c' r r', d.places[p]? = some c ∧ d.places[q]? = some c' ∧
    d.recordAt? p = some r ∧ d.recordAt? q = some r' ∧ c.made = c'.made ∧ r.kind = r'.kind ∧
    ∀ e ∈ r.attrs, ∃ y, r'.attrs.lookup e.1 = some y ∧ (0 < n ∧ e.1.IsNumber ∨ d.Fits n e.2 y)
  | n + 1, .list l, .list m => ∃ ys, ys <+: d.listAt m ∧ List.Forall₂ (d.Fits n) (d.listAt l) ys
  | _ + 1, .leaf a, .leaf b => sameLeaf a b = true
  | _ + 1, .bytes a, .bytes b => a = b
  | _ + 1, _, _ => False

/-- Every node is entered under its number, and numbers have no parts. -/
structure Marked (d : Draft) : Prop where
  number : ∀ p r, d.recordAt? p = some r → ∃ i, r.serial? = some i ∧ d.nodes.contains i = true
  scalar : ∀ p r, d.recordAt? p = some r → ∀ e ∈ r.attrs, e.1.IsNumber →
    Item.place? e.2 = none ∧ list? e.2 = none

def Besides (d d' : Draft) : Prop := ∃ notes, d' = { d with notes }

/-- A computation says yes exactly if something is the case, unless it is free to say no, whatever the notes are, and
changes only them. -/
abbrev Decides (d : Draft) (x : Edit Bool) (P : Prop) (free : Prop := False) : Prop :=
  ⦃fun d' => ⌜d.Besides d'⌝⦄ x
  ⦃post⟨fun b d' => ⌜d.Besides d' ∧ (b = true ∨ free ↔ P)⌝, fun _ d' => ⌜d.Besides d' ∧ ¬ P⌝⟩⦄

variable {d : Draft}

attribute [local grind] Besides

theorem alikeLists_decides {f : Item → Item → Edit Bool} {R : Item → Item → Prop}
    (item : ∀ x y, d.Decides (f x y) (R x y)) (xs ys : List Item) :
  d.Decides (alikeLists f xs ys) (∃ zs, zs <+: ys ∧ List.Forall₂ R xs zs)
  := by
  induction xs generalizing ys with
  | nil => (mvcgen [alikeLists] with simp_all)
  | cons x xs ih =>
    cases ys with
    | nil => (mvcgen [alikeLists] with simp_all)
    | cons y ys =>
      have longer : (∃ zs, zs <+: y :: ys ∧ List.Forall₂ R (x :: xs) zs) ↔
          R x y ∧ ∃ zs, zs <+: ys ∧ List.Forall₂ R xs zs := by
        simp only [List.forall₂_cons_left_iff]
        grind
      mvcgen [alikeLists, item, ih] with grind

theorem alikeAttrs_decides {f : Item → Item → Edit Bool} {R : Attr × Item → Item → Prop}
    (others l : List (Attr × Item)) (entry : ∀ e ∈ l, ∀ y, d.Decides (f e.2 y) (R e y) e.1.IsNumber) :
  d.Decides (alikeAttrs f others l) (∀ e ∈ l, ∃ y, others.lookup e.1 = some y ∧ R e y)
  := by
  induction l with
  | nil => (mvcgen [alikeAttrs] with simp_all)
  | cons e l ih =>
    obtain ⟨here, there⟩ := List.forall_mem_cons.1 entry
    have rest := ih there
    simp only [List.forall_mem_cons]
    mvcgen [alikeAttrs, here, rest] with grind

section

variable (marked : d.Marked)

include marked

theorem Marked.mark_spec (p : Nat) :
  ⦃fun d' => ⌜d.Besides d'⌝⦄ mark p
  ⦃post⟨fun _ d' => ⌜d.Besides d'⌝, fun _ d' => ⌜d.Besides d' ∧ d.recordAt? p = none⌝⟩⦄
  := by
  have number (r : Record) (found : d.recordAt? p = some r) : ∃ i : Int,
      (r.attrs.lookup .serial).getD (.leaf .null) = .leaf (.int i) ∧ d.nodes.contains i.toNat = true := by
    grind [marked.number p r found, Record.serial?]
  mvcgen [mark, attr, record, setAttr, changeRecord] with grind [Draft.recordAt?]

theorem Marked.compareValues_spec (p q : Nat) :
  ⦃fun d' => ⌜d.Besides d'⌝⦄ compareValues p q
  ⦃post⟨fun _ d' => ⌜d.Besides d'⌝,
    fun _ d' => ⌜d.Besides d' ∧ (d.recordAt? p = none ∨ d.recordAt? q = none)⌝⟩⦄
  := by
  have mark := marked.mark_spec
  mvcgen [compareValues, valueOf, note, notesAt, eraseNote, mark] with grind

theorem Marked.alikeEntry {n p : Nat} {r : Record}
    (item : ∀ x y, d.Decides (alikeItems n x y) (d.Fits n x y)) (found : d.recordAt? p = some r)
    (e : Attr × Item) (member : e ∈ r.attrs) (y : Item) :
  d.Decides (alikeItems n e.2 y) (0 < n ∧ e.1.IsNumber ∨ d.Fits n e.2 y) e.1.IsNumber
  := by
  by_cases exempt : e.1.IsNumber
  · have scalar := marked.scalar p r found e member exempt
    cases n with
    | zero => (mvcgen [alikeItems] with grind [Fits])
    | succ n =>
      cases isItem : e.2 with
      | place q => grind [Item.place?]
      | list l => grind [list?]
      | _ => cases y <;> (mvcgen [alikeItems] with grind)
  · simpa only [exempt, or_false, and_false, false_or] using item e.2 y

theorem Marked.alikeItems_decides (n : Nat) (x y : Item) :
  d.Decides (alikeItems n x y) (d.Fits n x y)
  := by
  induction n generalizing x y with
  | zero => (mvcgen [alikeItems] with grind [Fits])
  | succ n ih =>
    have lists := alikeLists_decides ih
    have values := marked.compareValues_spec
    cases x with
    | place p =>
      have attrs (r : Record) (found : d.recordAt? p = some r) (others : List (Attr × Item)) :=
        alikeAttrs_decides others r.attrs (marked.alikeEntry ih found)
      cases y with
      | place q =>
        rw [Fits]
        (mvcgen [alikeItems, formAt, kind, record, attrs, values]
          with grind [Draft.recordAt?])
      | _ => (mvcgen [alikeItems] with grind [Fits])
    | list l =>
      cases y with
      | list m => (mvcgen [alikeItems, items, lists] with grind [Fits, Draft.listAt])
      | _ => (mvcgen [alikeItems] with grind [Fits])
    | leaf a => cases y <;> (mvcgen [alikeItems] with grind [Fits])
    | bytes a => cases y <;> (mvcgen [alikeItems] with grind [Fits])

end

/-- Items are found alike exactly if the second one has what the first one has; else they are found different, or
the comparison fails.  Nothing but notes changes. -/
theorem alike_iff_fits (marked : d.Marked) (x y : Item) :
  ∃ d', d.Besides d' ∧ (Edit.alike x y d = .ok true d' ∧ d.Fits (2 * d.fresh + 2) x y ∨
    ¬ d.Fits (2 * d.fresh + 2) x y ∧
      (Edit.alike x y d = .ok false d' ∨ ∃ f, Edit.alike x y d = .error f d'))
  := by
  have holds := marked.alikeItems_decides (2 * d.fresh + 2) x y d ⟨d.notes, rfl⟩
  rw [Edit.alike, Edit.get_bind]
  cases run : Edit.alikeItems (2 * d.fresh + 2) x y d with
  | ok b d' =>
    obtain ⟨besides, answer⟩ : d.Besides d' ∧ (b = true ↔ d.Fits (2 * d.fresh + 2) x y) := by
      simpa [WP.wp, PredTrans.apply, EStateM.run, run] using holds
    refine ⟨d', besides, ?_⟩
    cases b <;> simp_all
  | error f d' =>
    obtain ⟨besides, fails⟩ : d.Besides d' ∧ ¬ d.Fits (2 * d.fresh + 2) x y := by
      simpa [WP.wp, PredTrans.apply, EStateM.run, run] using holds
    exact ⟨d', besides, .inr ⟨fails, .inr ⟨f, rfl⟩⟩⟩

def arrays : Draft where
  places := .ofList [(0, ⟨0, none⟩), (1, ⟨1, none⟩)] compare
  records := .ofList [(0, ⟨.arrayExpression, [(.elements, .list 2), (.serial, .leaf (.int 0))]⟩),
    (1, ⟨.arrayExpression, [(.elements, .list 3), (.serial, .leaf (.int 1))]⟩)] compare
  lists := .ofList [(2, [.leaf (.int 1)]), (3, [.leaf (.int 1), .leaf (.int 2)])] compare
  fresh := 4
  nodes := .ofList [(0, 0), (1, 1)] compare
  nextNode := 2

theorem marked_arrays : arrays.Marked := by
  have entries : ∀ (n : Nat) (r : Record), arrays.records[n]? = some r →
      (∃ i ∈ r.serial?, arrays.nodes.contains i = true) ∧ ∀ e ∈ r.attrs, e.1.IsNumber →
        Item.place? e.2 = none ∧ list? e.2 = none := by decide +kernel
  constructor
  · intro p r found
    obtain ⟨c, -, kept⟩ := recordAt?_eq_some.1 found
    exact (entries _ r kept).1
  · intro p r found
    obtain ⟨c, -, kept⟩ := recordAt?_eq_some.1 found
    exact (entries _ r kept).2

theorem alike_iff_fits_arrays :
  arrays.Marked ∧ ∃ d', arrays.Besides d' ∧
    (Edit.alike (.place 0) (.place 1) arrays = .ok true d' ∧ arrays.Fits 10 (.place 0) (.place 1) ∨
      ¬ arrays.Fits 10 (.place 0) (.place 1) ∧ (Edit.alike (.place 0) (.place 1) arrays = .ok false d' ∨
        ∃ f, Edit.alike (.place 0) (.place 1) arrays = .error f d'))
  := ⟨marked_arrays, alike_iff_fits marked_arrays (.place 0) (.place 1)⟩

/-- The arrays are found alike although they are not, and the other way round no answer is found. -/
theorem alike_arrays :
  (∃ d', Edit.alike (.place 0) (.place 1) arrays = .ok true d') ∧
    ¬ ∃ b d', Edit.alike (.place 1) (.place 0) arrays = .ok b d'
  := by
  have found : ends (Edit.alike (.place 0) (.place 1)) arrays (fun b _ => b) = true := by decide +kernel
  have none : ends (Edit.alike (.place 1) (.place 0)) arrays (fun _ _ => true) = false := by decide +kernel
  constructor
  · obtain ⟨b, d', run, rfl⟩ := exists_of_ends found
    use d'
  · rintro ⟨b, d', run⟩
    rw [ends, run] at none
    cases none

end Draft

end ScriptLens
