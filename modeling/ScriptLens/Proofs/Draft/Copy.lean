import Mathlib.Data.Finset.Card
import Mathlib.Data.List.Forall2
import ScriptLens.Proofs.Draft.Annotate

/-!
# Copies

A copy of a tree in a draft looks like the tree.  Its nodes have numbers that were not in use before, each
has the notes of the node it is a copy of, and the rest of the draft is as it was.
-/

namespace ScriptLens

open Edit List
open Prod hiding map_id

/-- What a tree looks like, wherever its nodes stand. -/
inductive Sketch where
  | leaf (t : Tree)
  | bytes (t : Text)
  | list (items : List Sketch)
  | node (kind : Kind) (names : List Attr) (parts : List Sketch)

def Record.parts (r : Record) : List (Attr × Item) := r.attrs.filter fun e => e.1 != .serial

theorem Record.parts_numbered (r : Record) (i : Nat) : (numbered i r).parts = r.parts := by
  rw [parts, parts, numbered]
  induction r.attrs with
  | nil => rfl
  | cons e l ih =>
    rw [putItem]
    split
    · rename_i same
      simp_all
    · simp_all [filter_cons]

theorem Record.of_names {r : Record} (attrs : List (Attr × Item))
    (names : attrs.map fst = r.parts.map fst) (k : Kind) :
  Record.serial? ⟨k, attrs⟩ = none ∧ Record.parts ⟨k, attrs⟩ = attrs
  := by
  have plain (e : Attr × Item) (member : e ∈ attrs) : e.1 ≠ .serial := by
    have isName := mem_map_of_mem (f := fst) member
    rw [names] at isName
    obtain ⟨e', isPart, same⟩ := mem_map.1 isName
    rw [← same]
    exact bne_iff_ne.1 (mem_filter.1 isPart).2
  have none : attrs.lookup .serial = none :=
    lookup_eq_none_iff.2 fun e member => bne_iff_ne.2 (plain e member).symm
  constructor
  · rw [serial?]
    simp only [none]
  · exact filter_eq_self.2 fun e member => bne_iff_ne.2 (plain e member)

theorem mapM_eq_some {α β : Type} {f : α → Option β} {l : List α} {l' : List β} :
  l.mapM f = some l' ↔ Forall₂ (fun a b => f a = some b) l l'
  := by
  induction l generalizing l' with
  | nil => cases l' <;> simp
  | cons a l ih => cases l' <;> simp [mapM_cons, Option.bind_eq_some_iff, ih]

namespace Draft

def numberAt? (d : Draft) (p : Nat) : Option Nat := (d.recordAt? p).bind Record.serial?

def survey (d : Draft) : Nat → Item → Option (Sketch × List Nat)
  | 0, _ => none
  | _ + 1, .leaf t => some (.leaf t, [])
  | _ + 1, .bytes t => some (.bytes t, [])
  | n + 1, .list l => do
    let parts ← (← d.lists[l]?).mapM (d.survey n)
    return (.list (parts.map fst), parts.flatMap snd)
  | n + 1, .place p => do
    let r ← d.recordAt? p
    let parts ← (r.parts.map snd).mapM (d.survey n)
    return (.node r.kind (r.parts.map fst) (parts.map fst), parts.flatMap snd ++ [p])

theorem survey_list {d : Draft} {n l : Nat} {s : Sketch × List Nat} :
  d.survey (n + 1) (.list l) = some s ↔ ∃ xs ss, d.lists[l]? = some xs ∧
    Forall₂ (fun x s => d.survey n x = some s) xs ss ∧
    (.list (ss.map fst), ss.flatMap snd) = s
  := by simp only [survey, Option.bind_eq_bind, Option.bind_eq_some_iff, mapM_eq_some, exists_and_left,
    Option.pure_def, Option.some_inj]

theorem survey_place {d : Draft} {n p : Nat} {s : Sketch × List Nat} :
  d.survey (n + 1) (.place p) = some s ↔ ∃ r ss, d.recordAt? p = some r ∧
    Forall₂ (fun x s => d.survey n x = some s) (r.parts.map snd) ss ∧
    (.node r.kind (r.parts.map fst) (ss.map fst), ss.flatMap snd ++ [p]) = s
  := by simp only [survey, Option.bind_eq_bind, Option.bind_eq_some_iff, mapM_eq_some, exists_and_left,
    Option.pure_def, Option.some_inj]

/-- Every node that has a number is entered under it, and numbers that are not in use are yet to come. -/
structure Registered (d : Draft) : Prop extends d.Tidy where
  entered : ∀ (n : Nat) (r : Record) (i : Nat), d.records[n]? = some r → r.serial? = some i →
    d.nodes.contains i = true
  noted : ∀ i, d.nodes.contains i = true → ∃ l, d.notes[i]? = some l
  named : ∀ (i : Nat) l, d.notes[i]? = some l → (l.map fst).Nodup

def Numbers (r r' : Record) : Prop := r' = r ∨ r.serial? = none ∧ ∃ i, r' = numbered i r

/-- A later draft has all that an earlier one has, apart from numbers for nodes that had none. -/
structure Extends (d d' : Draft) : Prop where
  fresh : d.fresh ≤ d'.fresh
  nextNode : d.nextNode ≤ d'.nextNode
  place : ∀ (p : Nat) c, d.places[p]? = some c → d'.places[p]? = some c
  list : ∀ (l : Nat) xs, d.lists[l]? = some xs → d'.lists[l]? = some xs
  record : ∀ (n : Nat) r, d.records[n]? = some r → ∃ r', d'.records[n]? = some r' ∧ Numbers r r'
  node : ∀ i, d.nodes.contains i = true → d'.nodes.contains i = true ∧ d'.notes[i]? = d.notes[i]?

variable {d d₁ d' : Draft} {n p i : Nat} {r r₁ r' : Record} {x y : Item}

theorem Numbers.trans (first : Numbers r r₁) (second : Numbers r₁ r') : Numbers r r' := by
  obtain rfl | ⟨unnumbered, i, rfl⟩ := first
  · exact second
  · obtain rfl | ⟨still, -⟩ := second
    · exact .inr ⟨unnumbered, i, rfl⟩
    · cases (serial?_numbered i r).symm.trans still

theorem Numbers.kind (numbers : Numbers r r') : r'.kind = r.kind := by
  obtain rfl | ⟨-, i, rfl⟩ := numbers
  · rfl
  · rfl

theorem Numbers.parts (numbers : Numbers r r') : r'.parts = r.parts := by
  obtain rfl | ⟨-, i, rfl⟩ := numbers
  · rfl
  · exact r.parts_numbered i

theorem Numbers.serial (numbers : Numbers r r') (number : r.serial? = some i) : r'.serial? = some i
  := by
  obtain rfl | ⟨none, -⟩ := numbers
  · exact number
  · cases number.symm.trans none

namespace Extends

theorem refl (d : Draft) : d.Extends d
  := ⟨Nat.le_refl _, Nat.le_refl _, fun _ _ => id, fun _ _ => id, fun _ r found => ⟨r, found, .inl rfl⟩,
    fun _ known => ⟨known, rfl⟩⟩

theorem trans (first : d.Extends d₁) (second : d₁.Extends d') : d.Extends d' := by
  refine ⟨Nat.le_trans first.fresh second.fresh, Nat.le_trans first.nextNode second.nextNode,
    fun p c found => second.place p c (first.place p c found),
    fun l xs found => second.list l xs (first.list l xs found), fun n r found => ?_, fun i known => ?_⟩
  · obtain ⟨r₁, found₁, numbers₁⟩ := first.record n r found
    obtain ⟨r', found', numbers'⟩ := second.record n r₁ found₁
    exact ⟨r', found', numbers₁.trans numbers'⟩
  · obtain ⟨known₁, same₁⟩ := first.node i known
    obtain ⟨known', same'⟩ := second.node i known₁
    exact ⟨known', same'.trans same₁⟩

variable (ext : d.Extends d')

include ext

theorem recordAt? (found : d.recordAt? p = some r) : ∃ r', d'.recordAt? p = some r' ∧ Numbers r r'
  := by
  obtain ⟨c, placed, kept⟩ := recordAt?_eq_some.1 found
  obtain ⟨r', kept', numbers⟩ := ext.record _ r kept
  exact ⟨r', recordAt?_eq_some.2 ⟨c, ext.place p c placed, kept'⟩, numbers⟩

theorem numberAt? (number : d.numberAt? p = some i) : d'.numberAt? p = some i := by
  obtain ⟨r, found, serial⟩ := Option.bind_eq_some_iff.1 number
  obtain ⟨r', found', numbers⟩ := ext.recordAt? found
  exact Option.bind_eq_some_iff.2 ⟨r', found', numbers.serial serial⟩

theorem numbers {ps is : List Nat} (same : ps.map d.numberAt? = is.map some) :
  ps.map d'.numberAt? = is.map some
  := by
  rw [← forall₂_eq_eq_eq, forall₂_map_left_iff, forall₂_map_right_iff] at same ⊢
  exact same.imp fun _ _ => ext.numberAt?

theorem survey_succ {m : Nat} {s : Sketch × List Nat}
    (parts : ∀ {y s}, d.survey n y = some s → d'.survey m y = some s)
    (isTree : d.survey (n + 1) x = some s) : d'.survey (m + 1) x = some s
  := by
  cases x with
  | leaf t => exact isTree
  | bytes t => exact isTree
  | list l =>
    obtain ⟨xs, ss, found, are, same⟩ := survey_list.1 isTree
    exact survey_list.2 ⟨xs, ss, ext.list l xs found, are.imp fun _ _ => parts, same⟩
  | place p =>
    obtain ⟨r, ss, found, are, same⟩ := survey_place.1 isTree
    obtain ⟨r', found', numbers⟩ := ext.recordAt? found
    rw [← numbers.parts] at are
    rw [← numbers.parts, ← numbers.kind] at same
    exact survey_place.2 ⟨r', ss, found', are.imp fun _ _ => parts, same⟩

theorem survey {m : Nat} {s : Sketch × List Nat} (deep : n ≤ m) (isTree : d.survey n x = some s) :
  d'.survey m x = some s
  := by
  induction n generalizing m x s with
  | zero => cases isTree
  | succ n ih =>
    cases m with
    | zero => cases deep
    | succ m => exact ext.survey_succ (ih (Nat.le_of_succ_le_succ deep)) isTree

end Extends

/-! ### Depth -/

def itemNo (d : Draft) (c : Nat) : Item := if c < d.fresh then .place c else .list (c - d.fresh)

def trees (d : Draft) (n : Nat) : Finset Nat :=
  (Finset.range (2 * d.fresh)).filter fun c => (d.survey n (d.itemNo c)).isSome

theorem trees_subset (d : Draft) (n : Nat) : d.trees n ⊆ d.trees (n + 1) := by
  intro c member
  simp only [trees, Finset.mem_filter, Option.isSome_iff_exists] at member ⊢
  exact ⟨member.1, member.2.imp fun _ => (Extends.refl d).survey n.le_succ⟩

variable {s : Sketch × List Nat} (tidy : d.Tidy)

include tidy

theorem Tidy.trees_ssubset (isTree : d.survey (n + 1) x = some s) (isNew : d.survey n x = none) :
  d.trees n ⊂ d.trees (n + 1) ∨ ∀ m, d.survey (m + 1) x = some s
  := by
  have counted (c : Nat) (bound : c < 2 * d.fresh) (same : d.itemNo c = x) :
      d.trees n ⊂ d.trees (n + 1) := by
    refine (Finset.ssubset_iff_of_subset (d.trees_subset n)).2 ⟨c, ?_, ?_⟩
    · simp [trees, bound, same, isTree]
    · simp [trees, same, isNew]
  cases x with
  | leaf t => exact .inr fun _ => isTree
  | bytes t => exact .inr fun _ => isTree
  | list l =>
    obtain ⟨xs, -, found, -⟩ := survey_list.1 isTree
    have bound := tidy.list l xs found
    exact .inl (counted (d.fresh + l) (by omega) (by simp [itemNo]))
  | place p =>
    obtain ⟨r, -, found, -⟩ := survey_place.1 isTree
    obtain ⟨c, placed, -⟩ := recordAt?_eq_some.1 found
    have bound := (tidy.place p c placed).1
    exact .inl (counted p (by omega) (if_pos bound))

theorem Tidy.survey (isTree : d.survey n x = some s) : d.survey (2 * d.fresh + 2) x = some s := by
  have same := Extends.refl d
  have deep : d.survey ((d.trees n).card + 1) x = some s := by
    induction n generalizing x s with
    | zero => cases isTree
    | succ n ih =>
      cases before : d.survey n x with
      | some s' =>
        cases (same.survey n.le_succ before).symm.trans isTree
        exact same.survey (Nat.succ_le_succ (Finset.card_le_card (d.trees_subset n))) (ih before)
      | none =>
        rcases tidy.trees_ssubset isTree before with more | leaf
        · exact same.survey_succ (fun isTree => same.survey (Finset.card_lt_card more) (ih isTree)) isTree
        · exact leaf _
  refine same.survey ?_ deep
  have few : (d.trees n).card ≤ (Finset.range (2 * d.fresh)).card := Finset.card_filter_le ..
  rw [Finset.card_range] at few
  omega

omit tidy

/-! ### Steps -/

theorem contains_insert {α : Type} {m : Std.TreeMap Nat α} {n k : Nat} {a : α} :
  (m.insert n a).contains k = true ↔ n = k ∨ m.contains k = true
  := by simp [Std.TreeMap.contains_insert]

attribute [local grind →] Registered.toTidy Tidy.place Tidy.record Tidy.list Tidy.serial Tidy.node
  Registered.entered Registered.noted Registered.named
attribute [local grind =] getElem?_insert contains_insert
attribute [local grind] Numbers

section

variable (reg : d.Registered)

include reg

theorem Registered.newPlace (unnumbered : r.serial? = none) (made : Option Form) :
  ∃ d', newPlace made r d = .ok d.fresh d' ∧ d'.Registered ∧ d.Extends d' ∧
    d'.recordAt? d.fresh = some r ∧ d'.nextNode = d.nextNode
  := by
  refine ⟨_, rfl, ⟨⟨?_, ?_, ?_, ?_, reg.node⟩, ?_, reg.noted, reg.named⟩,
    ⟨Nat.le_succ _, Nat.le_refl _, ?_, fun _ _ => id, ?_, fun i known => ⟨known, rfl⟩⟩, ?_, rfl⟩
  all_goals simp only [Draft.recordAt?]
  all_goals grind

theorem Registered.newList (xs : List Item) :
  ∃ d', newList xs d = .ok (.list d.fresh) d' ∧ d'.Registered ∧ d.Extends d' ∧
    d'.lists[d.fresh]? = some xs ∧ d'.nextNode = d.nextNode
  := by
  refine ⟨_, rfl, ⟨⟨?_, ?_, ?_, reg.serial, reg.node⟩, reg.entered, reg.noted, reg.named⟩,
    ⟨Nat.le_succ _, Nat.le_refl _, fun _ _ => id, ?_, ?_, fun i known => ⟨known, rfl⟩⟩, ?_, rfl⟩
  all_goals grind

theorem Registered.number (found : d.recordAt? p = some r)
    (unnumbered : r.serial? = none) :
  ∃ d', mark p d = .ok d.nextNode d' ∧ d'.Registered ∧ d.Extends d' ∧
    d'.numberAt? p = some d.nextNode ∧ d'.nextNode = d.nextNode + 1 ∧ d'.notes[d.nextNode]? = some []
  := by
  obtain ⟨c, placed, kept⟩ := recordAt?_eq_some.1 found
  have run := mark_of_none placed kept unnumbered
  have unused := reg.unused
  have number := serial?_numbered d.nextNode r
  rw [Edit.entered, if_neg (by simp [unused])] at run
  have noted (i : Nat) (known : (d.nodes.insert d.nextNode p).contains i = true) :
      ∃ l, (d.notes.insert d.nextNode [])[i]? = some l := by
    rw [getElem?_insert]
    split
    · exact ⟨[], rfl⟩
    · exact reg.noted i ((contains_insert.1 known).resolve_left ‹_›)
  refine ⟨_, run, ⟨(annotated_mark (W := fun _ => false) reg.toTidy run).1, ?_, noted, ?_⟩,
    ⟨Nat.le_refl _, Nat.le_succ _, fun _ _ => id, fun _ _ => id, ?_, ?_⟩, (serial_of_mark run).1, rfl, ?_⟩
  all_goals grind

theorem Registered.mark_of_number (number : d.numberAt? p = some i) :
  mark p d = .ok i d
  := by
  obtain ⟨r, found, serial⟩ := Option.bind_eq_some_iff.1 number
  obtain ⟨c, -, kept⟩ := recordAt?_eq_some.1 found
  rw [Edit.mark_of_serial found serial, Edit.entered, if_pos (reg.entered _ r i kept serial)]

theorem Registered.mark (found : d.recordAt? p = some r) :
  ∃ j d', mark p d = .ok j d' ∧ d'.Registered ∧ d.Extends d' ∧ d'.numberAt? p = some j
  := by
  cases number : r.serial? with
  | none =>
    obtain ⟨d', run, reg', ext, number', -⟩ := reg.number found number
    exact ⟨_, d', run, reg', ext, number'⟩
  | some j =>
    have number' : d.numberAt? p = some j := by rw [Draft.numberAt?, found]; exact number
    exact ⟨j, d, reg.mark_of_number number', reg, .refl d, number'⟩

theorem Registered.known (number : d.numberAt? p = some i) :
  d.nodes.contains i = true
  := by
  obtain ⟨r, found, serial⟩ := Option.bind_eq_some_iff.1 number
  obtain ⟨c, -, kept⟩ := recordAt?_eq_some.1 found
  exact reg.entered _ r i kept serial

end

theorem foldl_putNote {l old : List (NoteName × Note)} (nodup : ((old ++ l).map fst).Nodup) :
  l.foldl (fun l e => Notes.putNote e.1 e.2 l) old = old ++ l
  := by
  induction l generalizing old with
  | nil => simp
  | cons e l ih =>
    have last : Notes.putNote e.1 e.2 old = old ++ [e] := by
      have new : e.1 ∉ old.map fst := by grind
      clear nodup ih
      induction old with
      | nil => rfl
      | cons f old ih => grind [Notes.putNote]
    rw [foldl_cons, last, ih (by simpa using nodup), append_assoc, singleton_append]

theorem Registered.copyNotes {i j : Nat} {l : List (NoteName × Note)} (reg : d.Registered)
    (blank : d.notes[i]? = some []) (noted : d.notes[j]? = some l) (skip : List NoteName) :
  ∃ d', Edit.copyNotes i j skip d = .ok () d' ∧ d'.Registered ∧
    d' = { d with notes := d.notes.insert i (l.filter fun e => !skip.contains e.1) }
  := by
  have nodup : ((l.filter fun e => !skip.contains e.1).map fst).Nodup :=
    (reg.named j l noted).sublist (filter_sublist.map _)
  have run : Edit.copyNotes i j skip d =
      .ok () { d with notes := d.notes.insert i (l.filter fun e => !skip.contains e.1) } := by
    rw [Edit.copyNotes, Edit.get_bind, noted]
    change EStateM.Result.ok () { d with notes := d.notes.insert i (foldl _ ((d.notes[i]?).getD []) _) } = _
    rw [blank, Option.getD_some, foldl_putNote (by simpa using nodup), nil_append]
  refine ⟨_, run, ⟨⟨reg.place, reg.record, reg.list, reg.serial, reg.node⟩, reg.entered, ?_, ?_⟩, rfl⟩
  all_goals grind

theorem Extends.file (ext : d.Extends d') (new : d.nodes.contains i = false) (l : List (NoteName × Note)) :
  d.Extends { d' with notes := d'.notes.insert i l }
  := by
  refine ⟨ext.fresh, ext.nextNode, ext.place, ext.list, ext.record, fun j known => ?_⟩
  have other : i ≠ j := by
    rintro rfl
    cases new.symm.trans known
  rw [getElem?_insert, if_neg other]
  exact ext.node j known

/-- The notes of a node are those of another one, apart from some. -/
structure Noted (skip : List NoteName) (d : Draft) (i j : Nat) : Prop where
  copy : d.nodes.contains i = true
  original : d.nodes.contains j = true
  notes : ∃ l, d.notes[j]? = some l ∧ d.notes[i]? = some (l.filter fun e => !skip.contains e.1)

theorem Noted.later {skip : List NoteName} {j : Nat} (noted : d.Noted skip i j) (ext : d.Extends d') :
  d'.Noted skip i j
  := by
  obtain ⟨copy, same⟩ := ext.node i noted.copy
  obtain ⟨original, same'⟩ := ext.node j noted.original
  refine ⟨copy, original, ?_⟩
  rw [same, same']
  exact noted.notes

theorem Registered.duplicate {r₀ : Record} (reg : d.Registered) (unnumbered : r.serial? = none)
    (found : d.recordAt? p = some r₀) (skip : List NoteName) :
  ∃ j d₁ d₂ d₃ d', Edit.newPlace none r d = .ok d.fresh d₁ ∧ Edit.mark d.fresh d₁ = .ok d.nextNode d₂ ∧
    Edit.mark p d₂ = .ok j d₃ ∧ Edit.copyNotes d.nextNode j skip d₃ = .ok () d' ∧ d'.Registered ∧
    d.Extends d' ∧ (∃ r', d'.recordAt? d.fresh = some r' ∧ Numbers r r' ∧ r'.serial? = some d.nextNode) ∧
    d'.numberAt? p = some j ∧ d.nextNode < d'.nextNode ∧ d'.Noted skip d.nextNode j
  := by
  obtain ⟨d₁, made, reg₁, ext₁, isRecord, next⟩ := reg.newPlace unnumbered none
  obtain ⟨d₂, marked, reg₂, ext₂, number, next₂, blank⟩ := reg₁.number isRecord unnumbered
  rw [next] at marked number next₂ blank
  obtain ⟨r₂, found₂, -⟩ := (ext₁.trans ext₂).recordAt? found
  obtain ⟨j, d₃, marked', reg₃, ext₃, number'⟩ := reg₂.mark found₂
  obtain ⟨known, same⟩ := ext₃.node _ (reg₂.known number)
  obtain ⟨l, noted⟩ := reg₃.noted j (reg₃.known number')
  obtain ⟨d', copied, reg', rfl⟩ := reg₃.copyNotes (same.trans blank) noted skip
  obtain ⟨r', isRecord', numbers⟩ := (ext₂.trans ext₃).recordAt? isRecord
  have number₃ : r'.serial? = some d.nextNode := by
    rw [← ext₃.numberAt? number, Draft.numberAt?, isRecord', Option.bind_some]
  refine ⟨j, d₁, d₂, d₃, _, made, marked, marked', copied, reg',
    (ext₁.trans (ext₂.trans ext₃)).file reg.unused _, ⟨r', isRecord', numbers, number₃⟩, number', ?_,
    known, reg₃.known number', ?_⟩
  · exact Nat.lt_of_lt_of_le (by rw [next₂]; exact Nat.lt_succ_self _) ext₃.nextNode
  · simp only [getElem?_insert, if_true]
    by_cases own : d.nextNode = j
    · subst own
      cases noted.symm.trans (same.trans blank)
      exact ⟨[], if_pos rfl, rfl⟩
    · exact ⟨l, (if_neg own).trans noted, rfl⟩

/-! ### Copies of items -/

/-- Items have been copied, without some of the notes of their nodes.  The sketches and places of the
originals are given; the pairs are those of the numbers of a copy and of its original. -/
structure Copied (skip : List NoteName) (n : Nat) (d d' : Draft) (ss : List (Sketch × List Nat))
    (ys : List Item) (pairs : List (Nat × Nat)) : Prop where
  registered : d'.Registered
  kept : d.Extends d'
  copies : ∃ ts, Forall₂ (fun y t => d'.survey n y = some t) ys ts ∧
    ts.map fst = ss.map fst ∧
    (ts.flatMap snd).map d'.numberAt? = (pairs.map fst).map some
  originals : (ss.flatMap snd).map d'.numberAt? = (pairs.map snd).map some
  distinct : (pairs.map fst).Nodup
  new : ∀ e ∈ pairs, d.nextNode ≤ e.1 ∧ e.1 < d'.nextNode
  noted : ∀ e ∈ pairs, d'.Noted skip e.1 e.2

namespace Copied

variable {skip : List NoteName} {ss ss' : List (Sketch × List Nat)} {ys ys' : List Item}
  {pairs pairs' : List (Nat × Nat)}

theorem nil (reg : d'.Registered) (ext : d.Extends d') : Copied skip n d d' [] [] []
  := ⟨reg, ext, ⟨[], .nil, rfl, rfl⟩, rfl, .nil, by simp, by simp⟩

theorem append (first : Copied skip n d d₁ ss ys pairs) (second : Copied skip n d₁ d' ss' ys' pairs') :
  Copied skip n d d' (ss ++ ss') (ys ++ ys') (pairs ++ pairs')
  := by
  obtain ⟨ts, are, same, numbers⟩ := first.copies
  obtain ⟨ts', are', same', numbers'⟩ := second.copies
  have ext := second.kept
  refine ⟨second.registered, first.kept.trans ext, ⟨ts ++ ts', ?_, ?_, ?_⟩, ?_, ?_, ?_, ?_⟩
  · exact rel_append (are.imp fun _ _ => ext.survey (Nat.le_refl n)) are'
  · rw [map_append, map_append, same, same']
  · rw [flatMap_append, map_append, map_append, map_append, ext.numbers numbers,
      numbers']
  · rw [flatMap_append, map_append, map_append, map_append,
      ext.numbers first.originals, second.originals]
  · rw [map_append, nodup_append]
    refine ⟨first.distinct, second.distinct, fun i here j there => ?_⟩
    obtain ⟨e, member, rfl⟩ := mem_map.1 here
    obtain ⟨e', member', rfl⟩ := mem_map.1 there
    have below := (first.new e member).2
    have above := (second.new e' member').1
    omega
  · intro e member
    rcases mem_append.1 member with here | there
    · exact ⟨(first.new e here).1, Nat.lt_of_lt_of_le (first.new e here).2 ext.nextNode⟩
    · exact ⟨Nat.le_trans first.kept.nextNode (second.new e there).1, (second.new e there).2⟩
  · intro e member
    rcases mem_append.1 member with here | there
    · exact (first.noted e here).later ext
    · exact second.noted e there

theorem later (copied : Copied skip n d d₁ ss ys pairs) (reg : d'.Registered) (ext : d₁.Extends d') :
  Copied skip n d d' ss ys pairs
  := by simpa using copied.append (.nil reg ext)

theorem mapM (skip : List NoteName) {α β γ : Type} {f : α → Edit (β × List (Nat × Nat))}
    (source : α → Item) (target : β → Item) (name : α → γ) (name' : β → γ)
    (step : ∀ {a d s}, d.Registered → d.survey n (source a) = some s → ∃ b pairs d',
      f a d = .ok (b, pairs) d' ∧ name' b = name a ∧ Copied skip n d d' [s] [target b] pairs)
    {as : List α} (reg : d.Registered)
    (are : Forall₂ (fun a s => d.survey n (source a) = some s) as ss) :
  ∃ parts d', as.mapM f d = .ok parts d' ∧ (parts.map fst).map name' = as.map name ∧
    Copied skip n d d' ss ((parts.map fst).map target) (parts.flatMap snd)
  := by
  induction as generalizing d ss with
  | nil =>
    cases are
    exact ⟨[], d, rfl, rfl, .nil reg (.refl d)⟩
  | cons a as ih =>
    cases are with
    | cons isTree rest =>
      obtain ⟨b, pairs, d₁, run, named, first⟩ := step reg isTree
      obtain ⟨parts, d', runs, names, others⟩ :=
        ih first.registered (rest.imp fun _ _ => first.kept.survey (Nat.le_refl n))
      refine ⟨(b, pairs) :: parts, d', ?_, by simp only [map_cons, named, names],
        first.append others⟩
      rw [mapM_cons]
      exact bind_eq_ok.2 ⟨_, d₁, run, bind_eq_ok.2 ⟨_, d', runs, rfl⟩⟩

theorem same {s : Sketch} (reg : d.Registered) (isTree : d.survey n x = some (s, [])) :
  Copied skip n d d [(s, [])] [x] []
  := ⟨reg, .refl d, ⟨[(s, [])], .cons isTree .nil, rfl, rfl⟩, rfl, .nil, by simp, by simp⟩

theorem list (copied : Copied skip n d d₁ ss ys pairs) :
  ∃ d', newList ys d₁ = .ok (.list d₁.fresh) d' ∧
    Copied skip (n + 1) d d' [(.list (ss.map fst), ss.flatMap snd)] [.list d₁.fresh] pairs
  := by
  obtain ⟨d', made, reg, ext, found, -⟩ := copied.registered.newList ys
  have copied := copied.later reg ext
  obtain ⟨ts, are, same, numbers⟩ := copied.copies
  have survey := survey_list.2 ⟨ys, ts, found, are, rfl⟩
  exact ⟨d', made, reg, copied.kept, ⟨_, .cons survey .nil, by simp [same], by simpa using numbers⟩,
    by simpa using copied.originals, copied.distinct, copied.new, copied.noted⟩

theorem node {attrs : List (Attr × Item)} (first : Copied skip n d d₁ ss (attrs.map snd) pairs)
    (names : attrs.map fst = r.parts.map fst) (found : d.recordAt? p = some r) :
  ∃ j d₂ d₃ d₄ d', Edit.newPlace none ⟨r.kind, attrs⟩ d₁ = .ok d₁.fresh d₂ ∧
    Edit.mark d₁.fresh d₂ = .ok d₁.nextNode d₃ ∧ Edit.mark p d₃ = .ok j d₄ ∧
    Edit.copyNotes d₁.nextNode j skip d₄ = .ok () d' ∧ Copied skip (n + 1) d d'
      [(.node r.kind (r.parts.map fst) (ss.map fst), ss.flatMap snd ++ [p])]
      [.place d₁.fresh] (pairs ++ [(d₁.nextNode, j)])
  := by
  obtain ⟨unnumbered, own⟩ := r.of_names attrs names r.kind
  obtain ⟨r₁, found₁, -⟩ := first.kept.recordAt? found
  obtain ⟨j, d₂, d₃, d₄, d', made, marked, marked', noted, reg, ext, ⟨r', isRecord, numbers, number⟩,
    number', next, isNoted⟩ := first.registered.duplicate unnumbered found₁ skip
  have copied := first.later reg ext
  obtain ⟨ts, are, same, numbers'⟩ := copied.copies
  rw [← own, ← numbers.parts] at are
  have survey := survey_place.2 ⟨r', ts, isRecord, are, rfl⟩
  rw [numbers.parts, numbers.kind, own, names] at survey
  have new : d'.numberAt? d₁.fresh = some d₁.nextNode := by rw [Draft.numberAt?, isRecord]; exact number
  refine ⟨j, d₂, d₃, d₄, d', made, marked, marked', noted, reg, copied.kept,
    ⟨_, .cons survey .nil, by simp [same], by simp [new, numbers']⟩, by simp [number', copied.originals],
    ?_, ?_, ?_⟩
  · rw [map_append, nodup_append]
    refine ⟨first.distinct, pairwise_singleton .., fun i here i' there => ?_⟩
    obtain ⟨e, member, rfl⟩ := mem_map.1 here
    obtain rfl := mem_singleton.1 there
    exact Nat.ne_of_lt (first.new e member).2
  · simp only [mem_append, mem_singleton]
    rintro e (member | rfl)
    · exact copied.new e member
    · exact ⟨first.kept.nextNode, next⟩
  · simp only [mem_append, mem_singleton]
    rintro e (member | rfl)
    · exact copied.noted e member
    · exact isNoted

end Copied

theorem copyItem_copied (skip : List NoteName) (reg : d.Registered) (isTree : d.survey n x = some s) :
  ∃ y pairs d', copyItem skip n x d = .ok (y, pairs) d' ∧ Copied skip n d d' [s] [y] pairs
  := by
  induction n generalizing d x s with
  | zero => cases isTree
  | succ n ih =>
    cases x with
    | leaf t =>
      cases isTree
      exact ⟨.leaf t, [], d, rfl, .same reg rfl⟩
    | bytes t =>
      cases isTree
      exact ⟨.bytes t, [], d, rfl, .same reg rfl⟩
    | list l =>
      obtain ⟨xs, ss, found, are, rfl⟩ := survey_list.1 isTree
      obtain ⟨parts, d₁, runs, -, copied⟩ := Copied.mapM skip (f := copyItem skip n) id id
        (fun _ => ()) (fun _ => ()) (fun reg isTree => by
          obtain ⟨y, pairs, d', run, copied⟩ := ih reg isTree
          exact ⟨y, pairs, d', run, rfl, copied⟩) reg are
      rw [map_id] at copied
      obtain ⟨d', made, copied⟩ := copied.list
      refine ⟨_, _, d', ?_, copied⟩
      have read : items l d = .ok xs d := by
        change EStateM.Result.ok ((d.lists[l]?).getD []) d = _
        rw [found, Option.getD_some]
      refine bind_eq_ok.2 ⟨xs, d, read, bind_eq_ok.2 ⟨parts, d₁, runs, ?_⟩⟩
      exact bind_eq_ok.2 ⟨_, d', made, rfl⟩
    | place p =>
      obtain ⟨r, ss, found, are, rfl⟩ := survey_place.1 isTree
      obtain ⟨parts, d₁, runs, names, first⟩ := Copied.mapM skip
        (f := fun e => copyItem skip n e.2 >>= fun c => pure ((e.1, c.1), c.2)) snd snd
        fst fst (fun {e _ _} reg isTree => by
          obtain ⟨y, pairs, d', run, copied⟩ := ih reg isTree
          exact ⟨(e.1, y), pairs, d', bind_eq_ok.2 ⟨_, d', run, rfl⟩, rfl, copied⟩) reg
        (forall₂_map_left_iff.1 are)
      obtain ⟨j, d₂, d₃, d₄, d', made, marked, marked', noted, copied⟩ := first.node names found
      refine ⟨_, _, d', ?_, copied⟩
      refine bind_eq_ok.2 ⟨r, d, record_eq_ok.2 ⟨found, rfl⟩, ?_⟩
      refine bind_eq_ok.2 ⟨parts, d₁, runs, bind_eq_ok.2 ⟨d₁.fresh, d₂, made, ?_⟩⟩
      refine bind_eq_ok.2 ⟨d₁.nextNode, d₃, marked, bind_eq_ok.2 ⟨j, d₄, marked', ?_⟩⟩
      exact bind_eq_ok.2 ⟨(), d', noted, rfl⟩

/-- A tree is copied to one that looks the same.  Its nodes have numbers of their own that were not in use,
which are paired with those of the originals, and the notes of the originals apart from some; the draft is
as it was before, but for numbers of originals that had none. -/
theorem copies_are_fresh_and_faithful (skip : List NoteName) {t : Sketch} {ps : List Nat}
    (reg : d.Registered) (isTree : d.survey n x = some (t, ps)) :
  ∃ y pairs d' qs, (do Edit.copyItem skip (← Edit.depth) x) d = .ok (y, pairs) d' ∧
    d'.survey (2 * d.fresh + 2) y = some (t, qs) ∧
    qs.map d'.numberAt? = (pairs.map Prod.fst).map some ∧
    ps.map d'.numberAt? = (pairs.map Prod.snd).map some ∧ (pairs.map Prod.fst).Nodup ∧
    (∀ e ∈ pairs, d.nodes.contains e.1 = false ∧ d'.Noted skip e.1 e.2) ∧ d.Extends d'
  := by
  obtain ⟨y, pairs, d', run, copied⟩ := copyItem_copied skip reg (reg.toTidy.survey isTree)
  obtain ⟨ts, are, same, numbers⟩ := copied.copies
  cases are with
  | cons isCopy rest =>
    cases rest
    rename_i s'
    obtain ⟨t', qs⟩ := s'
    obtain rfl : t' = t := by simpa using same
    refine ⟨y, pairs, d', qs, run, isCopy, by simpa using numbers, by simpa using copied.originals,
      copied.distinct, fun e member => ⟨?_, copied.noted e member⟩, copied.kept⟩
    refine Bool.eq_false_iff.2 fun known => ?_
    exact Nat.not_lt.2 (copied.new e member).1 (reg.node _ known)

def nested : Draft where
  places := .ofList [(0, ⟨0, none⟩), (1, ⟨1, none⟩), (2, ⟨2, none⟩)] compare
  records := .ofList [(0, ⟨.arrayExpression, [(.elements, .list 3), (.serial, .leaf (.int 0))]⟩),
    (1, ⟨.literal, [(.value, .leaf (.int 1)), (.serial, .leaf (.int 1))]⟩), (2, ⟨.identifier, []⟩)] compare
  lists := .ofList [(3, [.list 4, .place 2]), (4, [.place 1])] compare
  fresh := 5
  nodes := .ofList [(0, 0), (1, 1)] compare
  notes := .ofList [(0, [(.impure, .flag true), (.isUpdated, .flag true)]), (1, [])] compare
  nextNode := 2

theorem registered_nested : nested.Registered := by
  have entered : ∀ (n : Nat) (r : Record), nested.records[n]? = some r → ∀ i ∈ r.serial?,
      nested.nodes.contains i = true := by decide +kernel
  have noted : ∀ (i : Nat) p, nested.nodes[i]? = some p → (nested.notes[i]?).isSome = true := by decide +kernel
  refine ⟨by decide +kernel, fun n r i found => entered n r found i, fun i known => ?_, by decide +kernel⟩
  rw [Std.TreeMap.contains_eq_isSome_getElem?] at known
  obtain ⟨p, found⟩ := Option.isSome_iff_exists.1 known
  exact Option.isSome_iff_exists.1 (noted i p found)

theorem copies_are_fresh_and_faithful_nested :
  nested.Registered ∧ ∃ t ps, nested.survey 5 (.place 0) = some (t, ps) ∧
    ∃ y pairs d' qs, (do Edit.copyItem [.impure] (← Edit.depth) (.place 0)) nested = .ok (y, pairs) d' ∧
      d'.survey 12 y = some (t, qs) ∧ qs.map d'.numberAt? = (pairs.map Prod.fst).map some ∧
      ps.map d'.numberAt? = (pairs.map Prod.snd).map some ∧ (pairs.map Prod.fst).Nodup ∧
      (∀ e ∈ pairs, nested.nodes.contains e.1 = false ∧ d'.Noted [.impure] e.1 e.2) ∧ nested.Extends d'
  := by
  have found : (nested.survey 5 (.place 0)).isSome = true := by decide +kernel
  obtain ⟨⟨t, ps⟩, isTree⟩ := Option.isSome_iff_exists.1 found
  exact ⟨registered_nested, t, ps, isTree,
    copies_are_fresh_and_faithful [.impure] registered_nested isTree⟩

end Draft

end ScriptLens
