import ScriptLens.Proofs.Draft.Annotate
import ScriptLens.Proofs.Rename.Names

/-!
# Where names are changed

When the walk comes to an expression or a statement, the names of some nodes are changed: those of
identifiers that are evaluated or assigned to, of parameters, and of what is declared.
-/

open ScriptLens.Edit ScriptLens.Draft List Option

namespace ScriptLens

def Record.name? (r : Record) : Option Text :=
  match r.attrs.lookup .name with
  | some (.leaf t) => t.text?
  | _ => none

namespace Draft

variable {d d' : Draft} {p q : Nat}

theorem nameAt?_eq (d : Draft) (p : Nat) : d.nameAt? p = (d.recordAt? p).bind Record.name? := by
  rw [nameAt?, attrAt]
  cases d.recordAt? p with
  | none => rfl
  | some r =>
    rw [bind_some, bind_some, Record.name?]
    cases r.attrs.lookup .name with
    | none => rfl
    | some x =>
      cases x with
      | leaf t => cases t <;> rfl
      | _ => rfl

theorem Shares.refl {r : Record} (found : d.recordAt? p = some r) : d.Shares p p := by
  obtain ⟨c, placed, -⟩ := recordAt?_eq_some.1 found
  exact ⟨c, c, placed, placed, rfl⟩

theorem recordAt?_changeRecord {f : Record → Record} (run : changeRecord p f d = .ok () d') (q : Nat) :
  (∃ r, d.Shares p q ∧ d.recordAt? p = some r ∧ d.recordAt? q = some r ∧ d'.recordAt? q = some (f r)) ∨
    ¬d.Shares p q ∧ d'.recordAt? q = d.recordAt? q
  := by
  obtain ⟨c, r, placed, kept, rfl⟩ := changeRecord_eq_ok run
  have here : d.recordAt? p = some r := recordAt?_eq_some.2 ⟨c, placed, kept⟩
  have after : recordAt? { d with records := d.records.insert c.record (f r) } q =
      (d.places[q]?).bind fun e => if c.record = e.record then some (f r) else d.records[e.record]? := by
    simp only [recordAt?, getElem?_insert]
  rw [after]
  cases placed' : d.places[q]? with
  | none =>
    right
    constructor
    · rintro ⟨-, e, -, found, -⟩
      cases placed'.symm.trans found
    · rw [recordAt?, placed']
      rfl
  | some e =>
    rw [bind_some]
    by_cases same : c.record = e.record
    · left
      have shares : d.Shares p q := ⟨c, e, placed, placed', same⟩
      exact ⟨r, shares, here, shares.record.trans here, if_pos same⟩
    · right
      constructor
      · rintro ⟨c', e', found, found', same'⟩
        cases placed.symm.trans found
        cases placed'.symm.trans found'
        exact same same'
      · rw [if_neg same, recordAt?, placed', bind_some]

end Draft

namespace Edit

variable {d d' : Draft} {p : Nat}

theorem nameOf_eq_ok {t : Tree} (run : nameOf p d = .ok t d') : d' = d ∧ t.text? = d.nameAt? p := by
  have ended := attr_bind_eq_ok run
  rw [nameAt?]
  cases found : d.attrAt p .name with
  | leaf t' =>
    rw [found] at ended
    cases ended
    cases t <;> exact ⟨rfl, rfl⟩
  | _ =>
    rw [found] at ended
    cases ended
    exact ⟨rfl, rfl⟩

theorem nameOf_ends {r : Record} (found : d.recordAt? p = some r) : ∃ t, nameOf p d = .ok t d := by
  have read := attr_run found .name
  cases name : (r.attrs.lookup .name).getD (.leaf .null) with
  | leaf t => exact ⟨t, bind_eq_ok.2 ⟨.leaf t, d, name ▸ read, rfl⟩⟩
  | bytes t => exact ⟨.null, bind_eq_ok.2 ⟨.bytes t, d, name ▸ read, rfl⟩⟩
  | place q => exact ⟨.null, bind_eq_ok.2 ⟨.place q, d, name ▸ read, rfl⟩⟩
  | list l => exact ⟨.null, bind_eq_ok.2 ⟨.list l, d, name ▸ read, rfl⟩⟩

theorem changeRecord_ends {r : Record} (found : d.recordAt? p = some r) (f : Record → Record) :
  ∃ d', changeRecord p f d = .ok () d'
  := ⟨_, bind_eq_ok.2 ⟨r, d, record_eq_ok.2 ⟨found, rfl⟩, rfl⟩⟩

end Edit

/-! ### The places -/

namespace Draft

def declared? (d : Draft) : Item → Option Nat
  | .place q =>
    match d.attrAt q .id with
    | .place i => if d.kindAt i == .identifier then some i else none
    | _ => none
  | _ => none

def parameters (d : Draft) (p : Nat) : List Nat :=
  (d.itemsAt (d.attrAt p .params)).filterMap Item.place?

/-- The nodes whose names are of interest when the walk comes to a part. -/
def nameSites (d : Draft) : Part → List Nat
  | .expr (.place p) =>
    match d.kindAt p with
    | .identifier => [p]
    | .assignmentExpression => (Item.place? (d.attrAt p .left)).toList
    | .functionExpression | .arrowFunctionExpression => d.parameters p
    | _ => []
  | .stmt (.place p) =>
    match d.kindAt p with
    | .variableDeclaration => (d.itemsAt (d.attrAt p .declarations)).filterMap d.declared?
    | .functionDeclaration => d.parameters p ++ (Item.place? (d.attrAt p .id)).toList
    | .classDeclaration => (Item.place? (d.attrAt p .id)).toList
    | .methodDefinition => (Item.place? (d.attrAt p .value)).toList.flatMap d.parameters
    | _ => []
  | _ => []

def IsPlain (d : Draft) (p : Nat) : Prop := ∀ t, d.nameAt? p = some t → Pass.Rename.isOdd t = false

end Draft

namespace Pass.Rename

variable {choose : Choice} {d0 d d' : Draft} {M : Nat → Prop} {s s' : Names} {p : Nat}

/-- A draft in which some names have been changed, all of them at places of a kind. -/
structure Renamed (choose : Choice) (d0 : Draft) (M : Nat → Prop) (s : Names) (d : Draft) : Prop where
  sound : s.Sound choose
  places : d.places = d0.places
  lists : d.lists = d0.lists
  record : ∀ q r, d0.recordAt? q = some r → ∃ r', d.recordAt? q = some r' ∧ r'.kind = r.kind ∧
    ∀ a, a ≠ .name → r'.attrs.lookup a = r.attrs.lookup a
  missing : ∀ q, d0.recordAt? q = none → d.recordAt? q = none
  name : ∀ q, d.nameAt? q = d0.nameAt? q ∨
    M q ∧ ∃ t u, (t, u) ∈ s.given ∧ d0.nameAt? q = some t ∧ d.nameAt? q = some u

theorem Renamed.refl (d : Draft) (M : Nat → Prop) : Renamed choose d M {} d
  := ⟨.nil, rfl, rfl, fun _ r found => ⟨r, found, rfl, fun _ _ => rfl⟩, fun _ => id, fun _ => .inl rfl⟩

namespace Renamed

theorem shares {q : Nat} (renamed : Renamed choose d0 M s d) : d.Shares p q ↔ d0.Shares p q
  := by rw [Shares, Shares, renamed.places]

section

variable (renamed : Renamed choose d0 M s d)

include renamed

theorem alike : d.Alike d0 ∧ d0.Alike d := by
  have list (l : Nat) : d.listAt l = d0.listAt l := by rw [listAt, listAt, renamed.lists]
  constructor
  · refine ⟨fun q r found => ?_, fun l => (list l).symm⟩
    cases before : d0.recordAt? q with
    | none => cases (renamed.missing q before).symm.trans found
    | some r0 =>
      obtain ⟨r', found', kind, attrs⟩ := renamed.record q r0 before
      cases found.symm.trans found'
      exact ⟨r0, rfl, kind.symm, fun a plain => (attrs a plain.2).symm⟩
  · refine ⟨fun q r found => ?_, list⟩
    obtain ⟨r', found', kind, attrs⟩ := renamed.record q r found
    exact ⟨r', found', kind, fun a plain => attrs a plain.2⟩

theorem kind (q : Nat) : d.kindAt q = d0.kindAt q := by
  rw [kindAt, kindAt]
  cases before : d0.recordAt? q with
  | none => rw [renamed.missing q before]
  | some r =>
    obtain ⟨r', found, kind, -⟩ := renamed.record q r before
    rw [found, map_some, map_some, kind]

theorem attr (q : Nat) {a : Attr} (unnamed : a ≠ .name) :
  d.attrAt q a = d0.attrAt q a
  := by
  rw [attrAt, attrAt]
  cases before : d0.recordAt? q with
  | none => rw [renamed.missing q before]
  | some r =>
    obtain ⟨r', found, -, attrs⟩ := renamed.record q r before
    rw [found, bind_some, bind_some, attrs a unnamed]

theorem thins : d0.Thins True d := by
  refine ⟨renamed.kind, fun q a plain => renamed.attr q plain.2, fun l => ?_⟩
  rw [renamed.alike.2.list]
  exact .refl True _

omit renamed in
theorem name_of_odd {t : Text} (renamed : Renamed choose d0 M s d) (name : d.nameAt? p = some t)
    (odd : isOdd t = true) : d0.nameAt? p = some t
  := by
  rcases renamed.name p with same | ⟨-, t', u, given, -, changed⟩
  · rw [← same, name]
  · cases changed.symm.trans name
    cases (renamed.sound.isOdd_new (mem_map_of_mem given)).symm.trans odd

theorem meet_name (p : Nat) :
  meet (d.nameAt? p) s.old = meet (d0.nameAt? p) s.old
  := by
  rcases renamed.name p with same | ⟨-, t, u, given, before, after⟩
  · rw [same]
  · have old : t ∈ s.old := mem_map.2 ⟨_, given, rfl⟩
    have plain := renamed.sound.isOdd_new (mem_map_of_mem given)
    rw [before, after]
    simp [meet, old, plain]

end

end Renamed

theorem rename_eq_ok (renamed : Renamed choose d0 M s d) (allowed : ∀ q, d0.Shares p q → M q)
    (run : rename choose p s d = .ok ((), s') d') :
  Renamed choose d0 M s' d' ∧ (∀ q, d.IsPlain q → d'.IsPlain q) ∧ d'.IsPlain p ∧ s.given <:+ s'.given ∧
    s'.old = meet (d0.nameAt? p) s.old
  := by
  obtain ⟨name, d1, isName, afterName⟩ := lift_bind_eq_ok.1 run
  obtain ⟨rfl, isText⟩ := nameOf_eq_ok isName
  obtain ⟨new, s2, d2, renamedRun, setRun⟩ := bind_eq_ok.1 afterName
  obtain ⟨rfl, sound', more, met, isNew, image⟩ := renamed_eq_ok renamed.sound renamedRun
  obtain ⟨changed, rfl⟩ := lift_eq_ok.1 setRun
  obtain ⟨c, r, placed, kept, isChanged⟩ := changeRecord_eq_ok changed
  have record := recordAt?_changeRecord changed
  have nameAfter (x : Record) : Record.name?
      { x with attrs := putItem .name (.leaf new) x.attrs } = new.text? := by
    rw [Record.name?, lookup_putItem, if_pos rfl]
  rw [isText] at isNew met image
  rw [renamed.meet_name p] at met
  -- the new name at a place that holds the record, and the old one elsewhere
  have names (q : Nat) : d2.Shares p q ∧ d2.nameAt? q = d2.nameAt? p ∧
      d'.nameAt? q = (d2.nameAt? p).map s'.image ∨ ¬d2.Shares p q ∧ d'.nameAt? q = d2.nameAt? q := by
    rcases record q with ⟨r, shares, here, before, after⟩ | ⟨other, same⟩
    · left
      refine ⟨shares, ?_, ?_⟩
      · rw [nameAt?_eq, nameAt?_eq, here, before]
      · rw [nameAt?_eq, after, bind_some, nameAfter, isNew]
    · right
      refine ⟨other, ?_⟩
      rw [nameAt?_eq, nameAt?_eq, same]
  have plainImage (t : Text) (name : d2.nameAt? p = some t) : isOdd (s'.image t) = false := by
    cases odd : isOdd t with
    | false => rw [sound'.image_of_plain odd, odd]
    | true => exact sound'.isOdd_new (mem_map.2 ⟨_, image t name odd, rfl⟩)
  have plainHere (t : Text) (name : (d2.nameAt? p).map s'.image = some t) : isOdd t = false := by
    obtain ⟨t', before, rfl⟩ := map_eq_some_iff.1 name
    exact plainImage t' before
  refine ⟨⟨sound', ?_, ?_, ?_, ?_, ?_⟩, ?_, ?_, more, met⟩
  · rw [isChanged]
    exact renamed.places
  · rw [isChanged]
    exact renamed.lists
  · intro q r0 before
    obtain ⟨r1, between, kind, attrs⟩ := renamed.record q r0 before
    rcases record q with ⟨r2, -, -, between', after⟩ | ⟨-, same⟩
    · cases between.symm.trans between'
      refine ⟨_, after, kind, fun a unnamed => ?_⟩
      rw [lookup_putItem, if_neg unnamed]
      exact attrs a unnamed
    · exact ⟨r1, same.trans between, kind, attrs⟩
  · intro q before
    rcases record q with ⟨r2, -, -, between, -⟩ | ⟨-, same⟩
    · cases (renamed.missing q before).symm.trans between
    · exact same.trans (renamed.missing q before)
  · intro q
    rcases names q with ⟨shares, same, after⟩ | ⟨-, same⟩
    · cases between : d2.nameAt? p with
      | none =>
        left
        rw [between] at same after
        rcases renamed.name q with unchanged | ⟨-, t, u, -, -, changed⟩
        · rw [after, ← unchanged, same]
          rfl
        · cases same.symm.trans changed
      | some t =>
        rw [between] at same after
        cases odd : isOdd t with
        | false =>
          rw [map_some, sound'.image_of_plain odd, ← same] at after
          rw [after]
          refine (renamed.name q).imp_right fun changed => ?_
          obtain ⟨inside, t', u, given, before⟩ := changed
          exact ⟨inside, t', u, more.subset given, before⟩
        | true =>
          right
          exact ⟨allowed q (renamed.shares.1 shares), t, s'.image t, image t between odd,
            renamed.name_of_odd same odd, after⟩
    · rw [same]
      refine (renamed.name q).imp_right fun changed => ?_
      obtain ⟨inside, t', u, given, before⟩ := changed
      exact ⟨inside, t', u, more.subset given, before⟩
  · intro q plain t name
    rcases names q with ⟨-, -, after⟩ | ⟨-, same⟩
    · exact plainHere t (after.symm.trans name)
    · exact plain t (same.symm.trans name)
  · intro t name
    rcases names p with ⟨-, -, after⟩ | ⟨other, -⟩
    · exact plainHere t (after.symm.trans name)
    · exact absurd ⟨c, c, placed, placed, rfl⟩ other

theorem rename_ends {r : Record} (renamed : Renamed choose d0 M s d) (found : d.recordAt? p = some r)
    (differ : Differ choose (meet (d0.nameAt? p) s.old).length) : ∃ s' d', rename choose p s d = .ok ((), s') d'
  := by
  obtain ⟨name, isName⟩ := nameOf_ends found
  obtain ⟨-, isText⟩ := nameOf_eq_ok isName
  rw [← renamed.meet_name p, ← isText] at differ
  obtain ⟨new, s', renamedRun⟩ := renamed_ends renamed.sound d name differ
  obtain ⟨d', changed⟩ := changeRecord_ends found fun r =>
    { r with attrs := putItem .name (.leaf new) r.attrs }
  refine ⟨s', d', bind_eq_ok.2 ⟨name, s, d, lift_eq_ok.2 ⟨isName, rfl⟩, ?_⟩⟩
  exact bind_eq_ok.2 ⟨new, s', d, renamedRun, lift_eq_ok.2 ⟨changed, rfl⟩⟩

/-! ### Computations that rename -/

/-- A computation renames nodes, among them those at the given places. -/
structure Renames {α : Type} (choose : Choice) (d0 : Draft) (M : Nat → Prop) (ps : List Nat) (x : Walk Names α) : Prop where
  renames {s : Names} {d : Draft} {a : α} {s' : Names} {d' : Draft} : Renamed choose d0 M s d →
    x s d = .ok (a, s') d' →
    Renamed choose d0 M s' d' ∧ (∀ q, d.IsPlain q → d'.IsPlain q) ∧ ∀ q ∈ ps, d'.IsPlain q

namespace Renames

variable {α β : Type} {ps qs : List Nat} {f : α → Walk Names β} {a : Attr}

theorem pure {b : β} : Renames choose d0 M [] (Pure.pure b) := by
  constructor
  intro s d b' s' d' renamed run
  cases run
  exact ⟨renamed, fun _ => id, by simp⟩

theorem bind {x : Walk Names α} (first : Renames choose d0 M ps x) (rest : ∀ a, Renames choose d0 M qs (f a)) :
  Renames choose d0 M (ps ++ qs) (x >>= f)
  := by
  constructor
  intro s d b s' d' renamed run
  obtain ⟨a, s1, d1, run1, run2⟩ := bind_eq_ok.1 run
  obtain ⟨renamed1, later1, plain1⟩ := first.renames renamed run1
  obtain ⟨renamed', later', plain'⟩ := (rest a).renames renamed1 run2
  refine ⟨renamed', fun q plain => later' q (later1 q plain), fun q member => ?_⟩
  rcases mem_append.1 member with here | there
  · exact later' q (plain1 q here)
  · exact plain' q there

theorem read {x : Edit α}
    (reads : ∀ {d a d'}, d0.Thins True d → x d = .ok a d' → d' = d ∧ Renames choose d0 M ps (f a)) :
  Renames choose d0 M ps (liftM x >>= f)
  := by
  constructor
  intro s d b s' d' renamed run
  obtain ⟨a, d1, isRead, rest⟩ := lift_bind_eq_ok.1 run
  obtain ⟨rfl, renames⟩ := reads renamed.thins isRead
  exact renames.renames renamed rest

theorem kind {f : Kind → Walk Names β} (rest : Renames choose d0 M ps (f (d0.kindAt p))) :
  Renames choose d0 M ps (liftM (kind p) >>= f)
  := by
  refine read fun thins isRead => ?_
  obtain ⟨rfl, rfl⟩ := kind_eq_ok isRead
  rw [thins.kind]
  exact ⟨rfl, rest⟩

theorem child {f : Nat → Walk Names β}
    (rest : ∀ q, d0.attrAt p a = .place q → Renames choose d0 M ps (f q)) (plain : a.Plain := by decide) :
  Renames choose d0 M ps (liftM (child p a) >>= f)
  := by
  refine read fun thins isRead => ?_
  obtain ⟨isChild, rfl⟩ := child_eq_ok isRead
  rw [thins.attr p a plain] at isChild
  exact ⟨rfl, rest _ isChild⟩

theorem itemsOf {f : List Item → Walk Names β}
    (rest : Renames choose d0 M ps (f (d0.itemsAt (d0.attrAt p a)))) (plain : a.Plain := by decide) :
  Renames choose d0 M ps (liftM (itemsOf p a) >>= f)
  := by
  refine read fun thins isRead => ?_
  obtain ⟨-, rfl, rfl⟩ := itemsOf_eq_ok isRead
  rw [(thins.items plain).whole trivial]
  exact ⟨rfl, rest⟩

theorem placeOf {x : Item} {f : Nat → Walk Names β} (rest : ∀ q, x = .place q → Renames choose d0 M ps (f q)) :
  Renames choose d0 M ps (placeOf x >>= f)
  := by
  constructor
  intro s d b s' d' renamed run
  obtain ⟨q, s1, d1, placeRun, afterPlace⟩ := bind_eq_ok.1 run
  cases x with
  | place q' =>
    cases placeRun
    exact (rest q rfl).renames renamed afterPlace
  | _ => cases placeRun

theorem forM {f : Item → Walk Names PUnit} (sites : Item → Option Nat) (l : List Item)
    (each : ∀ x ∈ l, Renames choose d0 M (sites x).toList (f x)) :
  Renames choose d0 M (l.filterMap sites) (l.forM f)
  := by
  induction l with
  | nil => exact pure
  | cons x l ih =>
    have both := (each x mem_cons_self).bind fun _ =>
      ih fun y member => each y (mem_cons_of_mem _ member)
    rw [filterMap_cons]
    cases site : sites x <;> (rw [site] at both; exact both)

end Renames

section

variable (allowed : ∀ q, d0.Shares p q → M q)

include allowed

theorem renames_rename : Renames choose d0 M [p] (rename choose p) := by
  constructor
  intro s d _ s' d' renamed run
  obtain ⟨renamed', later, plain, -⟩ := rename_eq_ok renamed allowed run
  refine ⟨renamed', later, fun q member => ?_⟩
  rw [mem_singleton.1 member]
  exact plain

theorem renames_identifier :
  Renames choose d0 M [p] (do
    if (← nameOf p).text? != some (Text.ofString "uncreate_defd") then rename choose p)
  := by
  constructor
  intro s d _ s' d' renamed run
  obtain ⟨name, d1, isName, rest⟩ := lift_bind_eq_ok.1 run
  obtain ⟨rfl, isText⟩ := nameOf_eq_ok isName
  split at rest
  · exact (renames_rename allowed).renames renamed rest
  · rename_i same
    cases rest
    refine ⟨renamed, fun _ => id, fun q member t found => ?_⟩
    rw [mem_singleton.1 member, ← isText] at found
    rw [found] at same
    obtain rfl : t = Text.ofString "uncreate_defd" := by simpa using same
    decide +kernel

end

theorem renames_forNodes {l : List Item}
    (allowed : ∀ p ∈ l.filterMap Item.place?, ∀ q, d0.Shares p q → M q) :
  Renames choose d0 M (l.filterMap Item.place?) (forNodes (rename choose) l)
  := by
  refine .forM _ l fun x member => .placeOf ?_
  rintro q rfl
  exact renames_rename (allowed q (mem_filterMap.2 ⟨_, member, rfl⟩))

theorem renames_parameters (allowed : ∀ q ∈ d0.parameters p, ∀ q', d0.Shares q q' → M q') :
  Renames choose d0 M (d0.parameters p) (do forNodes (rename choose) (← itemsOf p .params))
  := .itemsOf (renames_forNodes allowed)

theorem renames_expr (allowed : ∀ q ∈ d0.nameSites (.expr (.place p)), ∀ q', d0.Shares q q' → M q') :
  Renames choose d0 M (d0.nameSites (.expr (.place p))) (namesInExpr (rename choose) p)
  := by
  refine .kind ?_
  rw [nameSites] at allowed ⊢
  generalize d0.kindAt p = k at allowed ⊢
  cases k with
  | identifier => exact renames_identifier (allowed p (mem_singleton_self p))
  | assignmentExpression =>
    refine .child fun q isLeft => ?_
    rw [isLeft] at allowed ⊢
    exact renames_rename (allowed q (mem_singleton_self q))
  | functionExpression | arrowFunctionExpression => exact renames_parameters allowed
  | _ => exact .pure

theorem renames_stmt (allowed : ∀ q ∈ d0.nameSites (.stmt (.place p)), ∀ q', d0.Shares q q' → M q') :
  Renames choose d0 M (d0.nameSites (.stmt (.place p))) (namesInStmt (rename choose) p)
  := by
  refine .kind ?_
  rw [nameSites] at allowed ⊢
  generalize d0.kindAt p = k at allowed ⊢
  cases k with
  | variableDeclaration =>
    refine .itemsOf (.forM d0.declared? _ fun x member => .placeOf ?_)
    rintro q rfl
    refine .child fun i isDeclared => .kind ?_
    have declared : d0.declared? (.place q) = if d0.kindAt i == .identifier then some i else none := by
      rw [declared?, isDeclared]
    rw [declared]
    split
    · rename_i isIdentifier
      rw [if_pos isIdentifier] at declared
      exact renames_rename (allowed i (mem_filterMap.2 ⟨_, member, declared⟩))
    · exact .pure
  | functionDeclaration =>
    obtain ⟨parameters, name⟩ := forall_mem_append.1 allowed
    refine .itemsOf (.bind (renames_forNodes parameters) fun _ => ?_)
    refine .child fun q isName => ?_
    rw [isName] at name ⊢
    exact renames_rename (name q (mem_singleton_self q))
  | classDeclaration =>
    refine .child fun q isName => ?_
    rw [isName] at allowed ⊢
    exact renames_rename (allowed q (mem_singleton_self q))
  | methodDefinition =>
    refine .child fun q isValue => ?_
    rw [isValue] at allowed ⊢
    dsimp only [Item.place?, toList] at allowed ⊢
    rw [flatMap_singleton] at allowed ⊢
    exact renames_parameters allowed
  | _ => exact .pure

end Pass.Rename

end ScriptLens
