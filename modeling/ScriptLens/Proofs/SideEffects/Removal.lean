import ScriptLens.Proofs.SideEffects.Marks

/-!
# Removal of statements without effects

The second of two passes removes the expression statements whose expression is not marked.
-/

namespace ScriptLens

open List

namespace Draft

def isUseless (d : Draft) (p : Nat) : Bool :=
  d.kindAt p == .expressionStatement &&
    match d.attrAt p .expression with
    | .place e => !Edit.holds (d.noteAt e .sideEffects)
    | _ => false

theorem isUseless_iff {d : Draft} {p : Nat} :
  d.isUseless p = true ↔ d.kindAt p = .expressionStatement ∧
    ∃ e, d.attrAt p .expression = .place e ∧ Edit.holds (d.noteAt e .sideEffects) = false
  := by
  rw [isUseless, Bool.and_eq_true, beq_iff_eq]
  cases d.attrAt p .expression with
  | place e => simp
  | _ => simp

end Draft

namespace Pass.SideEffects

variable {d d' d0 : Draft} {p q l program : Nat}

def counts (n : NoteName) : Bool := n == .countedStatement

instance : Edit.Allows counts .countedStatement := ⟨rfl⟩

theorem isUseless_of_annotated (annotated : d.Annotated counts d') : d'.isUseless p = d.isUseless p
  := by
  simp only [Draft.isUseless, annotated.kind, annotated.attr p .expression (by decide),
    annotated.note _ .sideEffects rfl]

theorem isUseless_eq_ok {b : Bool} (tidy : d.Tidy) (run : isUseless p d = .ok b d') :
  d'.Tidy ∧ d.Annotated counts d' ∧ b = d.isUseless p
  := by
  have tail {d1 : Draft} (tidy1 : d1.Tidy) (annotated1 : d.Annotated counts d1) (last : (do
        if (← Edit.kind p) == .expressionStatement then
          let e ← Edit.child p .expression
          if !Edit.holds (← Edit.note e .sideEffects) then
            Edit.count fun s => { s with statements.done := s.statements.done + 1 }
            return true
        return false : Edit Bool) d1 = .ok b d') :
      d'.Tidy ∧ d.Annotated counts d' ∧ b = d.isUseless p := by
    rw [← isUseless_of_annotated annotated1, Draft.isUseless]
    obtain ⟨k, d2, isKind, afterKind⟩ := Edit.bind_eq_ok.1 last
    obtain ⟨rfl, rfl⟩ := Edit.kind_eq_ok isKind
    split at afterKind
    · rename_i isExpression
      obtain ⟨e, d3, isChild, afterChild⟩ := Edit.bind_eq_ok.1 afterKind
      obtain ⟨expression, rfl⟩ := Edit.child_eq_ok isChild
      obtain ⟨v, d4, isNote, afterNote⟩ := Edit.bind_eq_ok.1 afterChild
      obtain ⟨tidy4, annotated4⟩ := Edit.Annotates.annotates (W := counts) tidy1 isNote
      rw [isExpression, expression, Bool.true_and]
      dsimp only
      rw [← Edit.note_value tidy1.unused isNote]
      split at afterNote
      · rename_i unmarked
        obtain ⟨u, d5, isCount, ended⟩ := Edit.bind_eq_ok.1 afterNote
        obtain ⟨tidy5, annotated5⟩ := Edit.Annotates.annotates (W := counts) tidy4 isCount
        cases ended
        exact ⟨tidy5, (annotated1.trans annotated4).trans annotated5, unmarked.symm⟩
      · rename_i marked
        cases afterNote
        exact ⟨tidy4, annotated1.trans annotated4, (Bool.eq_false_iff.2 marked).symm⟩
    · rename_i other
      cases afterKind
      exact ⟨tidy1, annotated1, by rw [Bool.eq_false_iff.2 other]; rfl⟩
  obtain ⟨v, d1, isNote, afterNote⟩ := Edit.bind_eq_ok.1 run
  obtain ⟨tidy1, annotated1⟩ := Edit.Annotates.annotates (W := counts) tidy isNote
  split at afterNote
  · obtain ⟨u, d2, isCount, afterCount⟩ := Edit.bind_eq_ok.1 afterNote
    obtain ⟨tidy2, annotated2⟩ := Edit.Annotates.annotates (W := counts) tidy1 isCount
    obtain ⟨u', d3, noted, last⟩ := Edit.bind_eq_ok.1 afterCount
    obtain ⟨tidy3, annotated3⟩ := Edit.Annotates.annotates (W := counts) tidy2 noted
    exact tail tidy3 ((annotated1.trans annotated2).trans annotated3) last
  · exact tail tidy1 annotated1 afterNote

variable {us : List Nat} {x : Item} {xs : List Item}

theorem filterM_eq_ok {ps : List Nat} (tidy : d.Tidy) (run : ps.filterM isUseless d = .ok us d') :
  d'.Tidy ∧ d.Annotated counts d' ∧ us = ps.filter d.isUseless
  := by
  have collects (ps found us : List Nat) (d1 : Draft) (tidy1 : d1.Tidy) (annotated1 : d.Annotated counts d1)
      (run : ps.filterAuxM isUseless found d1 = .ok us d') :
      d'.Tidy ∧ d.Annotated counts d' ∧ us = (ps.filter d.isUseless).reverse ++ found := by
    induction ps generalizing found d1 with
    | nil =>
      cases run
      exact ⟨tidy1, annotated1, rfl⟩
    | cons p ps ih =>
      obtain ⟨b, d2, isTest, rest⟩ := Edit.bind_eq_ok.1 run
      obtain ⟨tidy2, annotated2, rfl⟩ := isUseless_eq_ok tidy1 isTest
      rw [isUseless_of_annotated annotated1] at rest
      obtain ⟨tidy', annotated', rfl⟩ := ih _ d2 tidy2 (annotated1.trans annotated2) rest
      refine ⟨tidy', annotated', ?_⟩
      cases useless : d.isUseless p <;> simp [useless]
  obtain ⟨found, d1, auxRun, ⟨⟩⟩ := Edit.bind_eq_ok.1 run
  obtain ⟨tidy', annotated', rfl⟩ := collects ps [] found d tidy (.refl _ _) auxRun
  exact ⟨tidy', annotated', by simp⟩

/-! ### Lists -/

def remaining (us : List Nat) (xs : List Item) : List Item := us.foldl (fun xs p => without p xs) xs

theorem without_subset (p : Nat) (xs : List Item) : without p xs ⊆ xs := by
  induction xs with
  | nil => exact List.Subset.refl _
  | cons x xs ih =>
    have later : x :: without p xs ⊆ x :: xs := cons_subset_cons x ih
    cases x with
    | place q =>
      rw [without]
      split
      · exact subset_cons_self _ _
      · exact later
    | _ => exact later

theorem mem_without (member : x ∈ xs) (differs : x ≠ .place p) : x ∈ without p xs := by
  induction xs with
  | nil => cases member
  | cons y xs ih =>
    have later (isLater : x ∈ xs) : x ∈ y :: without p xs := mem_cons_of_mem _ (ih isLater)
    rcases mem_cons.1 member with rfl | isLater
    · cases x with
      | place q =>
        rw [without, if_neg]
        · exact mem_cons_self
        · intro same
          exact differs (by rw [beq_iff_eq.1 same])
      | _ => exact mem_cons_self
    · cases y with
      | place q =>
        rw [without]
        split
        · exact isLater
        · exact later isLater
      | _ => exact later isLater

theorem remaining_subset (us : List Nat) (xs : List Item) : remaining us xs ⊆ xs := by
  induction us generalizing xs with
  | nil => exact List.Subset.refl _
  | cons p us ih => exact List.Subset.trans (ih (without p xs)) (without_subset p xs)

theorem mem_remaining (member : x ∈ xs) (kept : ∀ p ∈ us, x ≠ .place p) : x ∈ remaining us xs := by
  induction us generalizing xs with
  | nil => exact member
  | cons p us ih =>
    refine ih (mem_without member (kept p mem_cons_self)) ?_
    exact fun q isLater => kept q (mem_cons_of_mem _ isLater)

def occurrences (p : Nat) (xs : List Item) : Nat := xs.countP fun x => Edit.Item.place? x == some p

theorem occurrences_without (p q : Nat) (xs : List Item) :
  occurrences p (without q xs) = occurrences p xs - if q = p then 1 else 0
  := by
  induction xs with
  | nil => simp [without, occurrences]
  | cons x xs ih =>
    have later (other : Edit.Item.place? x ≠ some p) :
        occurrences p (x :: without q xs) = occurrences p (x :: xs) - if q = p then 1 else 0 := by
      rw [occurrences, occurrences, countP_cons_of_neg (by simpa using other),
        countP_cons_of_neg (by simpa using other)]
      exact ih
    cases x with
    | place r =>
      rw [without]
      split
      · rename_i same
        obtain rfl := beq_iff_eq.1 same
        by_cases isP : q = p
        · subst isP
          simp [occurrences, Edit.Item.place?]
        · simp [occurrences, Edit.Item.place?, isP]
      · rename_i differs
        by_cases isP : r = p
        · subst isP
          have other : q ≠ r := fun same => differs (beq_iff_eq.2 same)
          simp only [occurrences, Edit.Item.place?] at ih ⊢
          simp [ih, other]
        · exact later (by simpa [Edit.Item.place?] using isP)
    | _ =>
      apply later
      intro impossible
      cases impossible

theorem occurrences_remaining (p : Nat) (us : List Nat) (xs : List Item) :
  occurrences p (remaining us xs) = occurrences p xs - us.count p
  := by
  induction us generalizing xs with
  | nil => rfl
  | cons q us ih =>
    rw [remaining, foldl_cons]
    refine (ih (without q xs)).trans ?_
    rw [occurrences_without, count_cons, Nat.sub_sub, Nat.add_comm]
    simp [beq_iff_eq]

theorem test_of_remaining {f : Nat → Bool}
    (left : .place p ∈ remaining ((xs.filterMap Edit.Item.place?).filter f) xs) : f p = false
  := by
  rw [Bool.eq_false_iff]
  intro passes
  have none : occurrences p (remaining ((xs.filterMap Edit.Item.place?).filter f) xs) = 0 := by
    rw [occurrences_remaining, count_filter passes, count_filterMap]
    exact Nat.sub_self _
  rw [occurrences, countP_eq_zero] at none
  exact none _ left (beq_iff_eq.2 rfl)

theorem forM_eq_ok
    (run : (us.forM fun p => do Edit.setItems l (without p (← Edit.items l)) : Edit Unit) d = .ok () d') :
  ∃ ls, d' = { d with lists := ls } ∧ (∀ n, n ≠ l → ls[n]? = d.lists[n]?) ∧
    d'.listAt l = remaining us (d.listAt l) ∧ (us = [] → ls = d.lists)
  := by
  induction us generalizing d with
  | nil =>
    cases run
    exact ⟨_, rfl, fun _ _ => rfl, rfl, fun _ => rfl⟩
  | cons p us ih =>
    obtain ⟨u, d1, stepRun, rest⟩ := Edit.bind_eq_ok.1 run
    obtain ⟨xs, d2, itemsRun, set⟩ := Edit.bind_eq_ok.1 stepRun
    obtain ⟨rfl, rfl⟩ := Edit.items_eq_ok itemsRun
    cases set
    obtain ⟨ls, rfl, others, here, -⟩ := ih rest
    refine ⟨ls, rfl, fun n differs => ?_, ?_, nofun⟩
    · rw [others n differs, Std.TreeMap.getElem?_insert]
      simp [differs.symm]
    · rw [here, remaining, remaining, foldl_cons, Draft.listAt, Std.TreeMap.getElem?_insert_self,
        Option.getD_some]

/-! ### The walk -/

/-- A draft from which statements are being removed: all else is as it was, and what has been removed are
statements that the walk comes to, with expressions that are not marked. -/
structure Cleaned (d0 : Draft) (program : Nat) (d : Draft) : Prop where
  tidy : d.Tidy
  thins : d0.Thins False d
  note : ∀ p, d.noteAt p .sideEffects = d0.noteAt p .sideEffects
  removed : ∀ l x, x ∈ d0.listAt l → x ∉ d.listAt l →
    ∃ p, x = .place p ∧ d0.isUseless p = true ∧ d0.Reached program (.stmt x)

theorem Cleaned.isUseless (cleaned : Cleaned d0 program d) : d.isUseless p = d0.isUseless p := by
  simp only [Draft.isUseless, cleaned.thins.kind, cleaned.thins.attr p .expression (by decide),
    cleaned.note]

theorem cleanList_eq_ok (cleaned : Cleaned d0 program d)
    (reached : ∀ x ∈ d0.listAt l, d0.Reached program (.stmt x)) (run : cleanList l d = .ok () d') :
  Cleaned d0 program d' ∧ ∀ p, .place p ∈ d'.listAt l → d0.isUseless p = false
  := by
  obtain ⟨xs, d1, itemsRun, afterItems⟩ := Edit.bind_eq_ok.1 run
  obtain ⟨rfl, rfl⟩ := Edit.items_eq_ok itemsRun
  obtain ⟨us, d2, filterRun, forRun⟩ := Edit.bind_eq_ok.1 afterItems
  obtain ⟨tidy2, annotated, rfl⟩ := filterM_eq_ok cleaned.tidy filterRun
  obtain ⟨ls, rfl, others, here, none⟩ := forM_eq_ok forRun
  have same : d1.isUseless = d0.isUseless := funext fun p => cleaned.isUseless
  rw [annotated.list, same] at here
  have subset : (Draft.listAt { d2 with lists := ls } l) ⊆ d1.listAt l := here ▸ remaining_subset _ _
  have list (n : Nat) (differs : n ≠ l) : Draft.listAt { d2 with lists := ls } n = d1.listAt n := by
    rw [Draft.listAt, others n differs, Draft.listAt, annotated.lists]
  -- a list without items is not changed, so that the list is one of the draft
  have old (n : Nat) (xs : List Item) (found : ls[n]? = some xs) : n < d2.fresh := by
    by_cases isHere : n = l
    · subst isHere
      cases isList : d2.lists[n]? with
      | some ys => exact tidy2.list n ys isList
      | none =>
        have empty : d1.listAt n = [] := by rw [← annotated.list, Draft.listAt, isList, Option.getD_none]
        rw [empty] at none
        rw [none rfl, isList] at found
        cases found
    · rw [others n isHere] at found
      exact tidy2.list n xs found
  refine ⟨⟨?_, ⟨?_, ?_, ?_⟩, ?_, ?_⟩, ?_⟩
  · exact ⟨tidy2.place, tidy2.record, old, tidy2.serial, tidy2.node⟩
  · exact fun p => (annotated.kind p).trans (cleaned.thins.kind p)
  · exact fun p k plain => (annotated.attr p k plain.1).trans (cleaned.thins.attr p k plain)
  · intro n
    refine ⟨?_, False.elim⟩
    by_cases isHere : n = l
    · subst isHere
      exact List.Subset.trans subset (cleaned.thins.list n).subset
    · rw [list n isHere]
      exact (cleaned.thins.list n).subset
  · exact fun p => (annotated.note p _ rfl).trans (cleaned.note p)
  · intro n x before after
    by_cases isHere : n = l
    · subst isHere
      by_cases still : x ∈ d1.listAt n
      · by_contra kept
        refine after (here ▸ mem_remaining still ?_)
        rintro p isUseless rfl
        exact kept ⟨p, rfl, (mem_filter.1 isUseless).2, reached _ before⟩
      · exact cleaned.removed n x before still
    · rw [list n isHere] at after
      exact cleaned.removed n x before after
  · intro p left
    rw [here] at left
    exact test_of_remaining left

def removerTour (d0 : Draft) (program : Nat) : Tour False d0 remover where
  inv _ d := Cleaned d0 program d
  later _ _ := True
  met _ _ := True
  told _ _ _ := True
  reached := d0.Reached program
  thins cleaned := cleaned.thins
  refl _ := trivial
  trans _ _ := trivial
  stays _ _ := trivial
  keeps _ _ := trivial
  kids reached _ kid := reached.kid kid
  nothing _ _ := trivial
  beforeExpr := by
    intro p s d b s' d' _ cleaned run
    cases run
    exact ⟨rfl, cleaned, trivial, trivial⟩
  beforeStmt := by
    intro p s d b s' d' _ cleaned run
    cases run
    exact ⟨rfl, cleaned, trivial, trivial⟩
  afterExpr := by
    intro p ks rs s d r s' d' _ cleaned _ _ _ run
    cases run
    exact ⟨cleaned, trivial, trivial⟩
  afterStmt := by
    intro p last ks ls rs s d r s' d' reached isLast cleaned _ _ _ run
    refine ⟨?_, trivial, trivial⟩
    obtain ⟨k, d1, isKind, afterKind⟩ := lift_bind_eq_ok.1 run
    obtain ⟨rfl, rfl⟩ := Edit.kind_eq_ok isKind
    split at afterKind
    · rename_i isBlock
      obtain ⟨x, d2, isAttr, afterAttr⟩ := lift_bind_eq_ok.1 afterKind
      obtain ⟨rfl, rfl⟩ := Edit.attr_eq_ok isAttr
      rw [cleaned.thins.attr last .body (by decide)] at afterAttr
      cases isList : d0.attrAt last .body with
      | list l =>
        rw [isList] at afterAttr
        obtain ⟨u, s3, d3, cleanRun, ended⟩ := bind_eq_ok.1 afterAttr
        obtain ⟨isClean, -⟩ := lift_eq_ok.1 cleanRun
        cases ended
        have reachedLast : d0.Reached program (.stmt (.place last)) := by
          rcases isLast with rfl | kid
          · exact reached
          · exact reached.kid kid
        refine (cleanList_eq_ok cleaned (fun x isItem => reachedLast.kid ?_) isClean).1
        rw [cleaned.thins.kind] at isBlock
        rw [Draft.kids, Draft.stmtKids, beq_iff_eq.1 isBlock, isList]
        exact mem_map.2 ⟨x, isItem, rfl⟩
      | _ =>
        rw [isList] at afterAttr
        cases afterAttr
        exact cleaned
    · cases afterKind
      exact cleaned

theorem remover_eq_ok (tidy : d.Tidy) (run : remover.run program () d = .ok () d') :
  Cleaned d program d' ∧ ∃ l, d.attrAt program .body = .list l ∧
    ∀ p, .place p ∈ d'.listAt l → d.isUseless p = false
  := by
  have cleaned : Cleaned d program d :=
    ⟨tidy, ⟨fun _ => rfl, fun _ _ _ => rfl, fun _ => .refl False _⟩, fun _ => rfl,
      fun _ _ before after => absurd before after⟩
  have reached (x : Item) (isItem : x ∈ d.itemsAt (d.attrAt program .body)) :
      d.Reached program (.stmt x) := ⟨x, isItem, .refl _⟩
  obtain ⟨-, -, _, d1, -, cleaned1, -, -, l, isList, ended⟩ :=
    (removerTour d program).run cleaned reached run
  obtain ⟨cleanRun, -⟩ := lift_eq_ok.1 ended
  rw [isList] at reached
  obtain ⟨cleaned', left⟩ := cleanList_eq_ok cleaned1 reached cleanRun
  exact ⟨cleaned', l, isList, left⟩

end Pass.SideEffects

end ScriptLens
