import Mathlib.Data.Set.Function
import ScriptLens.Draft.Load
import ScriptLens.Proofs.Rename.Sites

/-!
# Consistent renaming

Names are to be changed consistently: wherever a name occurs it is changed to the same name,
different names are changed to different ones, and names that do not look as if a machine had made
them are left alone.
-/

open ScriptLens.Edit ScriptLens.Draft Option

namespace ScriptLens

namespace Pass.Rename

variable {σ τ : Type} {d : Draft} {p : Nat}

def collect (p : Nat) : Walk (List Text) Unit := do
  let name ← nameOf p
  modify (meet name.text?)

def survey : Pass (List Text) := overNames collect

theorem length_meet (name : Option Text) (l : List Text) : l.length ≤ (meet name l).length := by
  cases name with
  | none => exact Nat.le_refl _
  | some t =>
    rw [meet]
    split
    · exact Nat.le_succ _
    · exact Nat.le_refl _

theorem collect_eq_ok {l l' : List Text} {d d' : Draft} (run : collect p l d = .ok ((), l') d') :
  d' = d ∧ l' = meet (d.nameAt? p) l
  := by
  obtain ⟨name, d1, isName, ended⟩ := lift_bind_eq_ok.1 run
  obtain ⟨rfl, isText⟩ := nameOf_eq_ok isName
  cases ended
  rw [isText]
  exact ⟨rfl, rfl⟩

theorem collect_ends {r : Record} (found : d.recordAt? p = some r) (l : List Text) :
  collect p l d = .ok ((), meet (d.nameAt? p) l) d
  := by
  obtain ⟨name, isName⟩ := nameOf_ends found
  obtain ⟨-, isText⟩ := nameOf_eq_ok isName
  refine bind_eq_ok.2 ⟨name, l, d, lift_eq_ok.2 ⟨isName, rfl⟩, ?_⟩
  rw [isText]
  rfl

theorem record_of_nameOf {t : Tree} {d' : Draft} (run : nameOf p d = .ok t d') :
  ∃ r, d.recordAt? p = some r
  := by
  obtain ⟨x, d1, read, -⟩ := Edit.bind_eq_ok.1 run
  obtain ⟨r, d2, found, -⟩ := Edit.bind_eq_ok.1 read
  exact ⟨r, (record_eq_ok.1 found).1⟩

/-! ### Walks over names in step -/

def spared : Option Text := some (Text.ofString "uncreate_defd")

theorem steps_nameOf {L : Lockstep σ τ}
    (same : ∀ {s d t e}, L.rel s d t e → (d.nameAt? p = spared ↔ e.nameAt? p = spared)) :
  Steps L (fun a b => a.text? = spared ↔ b.text? = spared) (liftM (nameOf p)) (liftM (nameOf p))
  := by
  constructor
  · intro s d name s' d' lost run
    obtain ⟨-, rfl⟩ := lift_eq_ok.1 run
    exact lost
  · intro s d t e name s' d' rel run
    obtain ⟨isName, rfl⟩ := lift_eq_ok.1 run
    obtain ⟨rfl, isText⟩ := nameOf_eq_ok isName
    obtain ⟨r, found⟩ := record_of_nameOf isName
    obtain ⟨r', found', -⟩ := (L.alike rel).record p r found
    obtain ⟨name', isName'⟩ := nameOf_ends found'
    obtain ⟨-, isText'⟩ := nameOf_eq_ok isName'
    refine .inl ⟨name', t, e, lift_eq_ok.2 ⟨isName', rfl⟩, rel, ?_⟩
    rw [isText, isText']
    exact same rel

section

variable {L : Lockstep σ τ} {act : Nat → Walk σ Unit} {act' : Nat → Walk τ Unit}
  (acts : ∀ p, Steps L whatever (act p) (act' p))

include acts

theorem steps_forNodes (l : List Item) : Steps L whatever (forNodes act l) (forNodes act' l) := by
  induction l with
  | nil => exact .pure trivial
  | cons x l ih => exact .any (.same .placeOf acts) fun _ _ => ih

theorem steps_namesInStmt (p : Nat) : Steps L whatever (namesInStmt act p) (namesInStmt act' p)
  := by
  have declarations (l : List Item) : Steps L whatever
      (l.forM fun x => do
        let id ← child (← placeOf x) .id
        if (← kind id) == .identifier then act id)
      (l.forM fun x => do
        let id ← child (← placeOf x) .id
        if (← kind id) == .identifier then act' id) := by
    induction l with
    | nil => exact .pure trivial
    | cons x l ih =>
      refine .any (.same .placeOf fun q => .same .child fun i => ?_) fun _ _ => ih
      exact .same .kind fun _ => .ite (acts i) (.pure trivial)
  refine .same .kind fun k => ?_
  cases k with
  | variableDeclaration => exact .same .itemsOf declarations
  | functionDeclaration =>
    refine .same .itemsOf fun l => .any (steps_forNodes acts l) fun _ _ => ?_
    exact .same .child acts
  | classDeclaration => exact .same .child acts
  | methodDefinition =>
    exact .same .child fun q => .same .itemsOf (steps_forNodes acts)
  | _ => exact .pure trivial

theorem steps_namesInExpr (p : Nat)
    (same : ∀ {s d t e}, L.rel s d t e → (d.nameAt? p = spared ↔ e.nameAt? p = spared)) :
  Steps L whatever (namesInExpr act p) (namesInExpr act' p)
  := by
  have check (a b : Tree) (same : a.text? = spared ↔ b.text? = spared) : Steps L whatever
      (if a.text? != spared then act p else return ()) (if b.text? != spared then act' p else return ()) := by
    have isSame : (a.text? != spared) = (b.text? != spared) := by
      rw [Bool.eq_iff_iff, bne_iff_ne, bne_iff_ne, ne_eq, ne_eq, same]
    rw [isSame]
    exact .ite (acts p) (.pure trivial)
  refine .same .kind fun k => ?_
  cases k with
  | identifier => exact .bind (steps_nameOf same) check fun a => ⟨a, check a a Iff.rfl⟩
  | assignmentExpression => exact .same .child acts
  | functionExpression | arrowFunctionExpression =>
    exact .same .itemsOf (steps_forNodes acts)
  | _ => exact .pure trivial

theorem inStep_overNames
    (same : ∀ {s d t e}, L.rel s d t e → ∀ p, d.nameAt? p = spared ↔ e.nameAt? p = spared) :
  InStep L (overNames act) (overNames act')
  where
  beforeExpr p := .any (steps_namesInExpr acts p fun rel => same rel p) fun _ _ => .pure rfl
  beforeStmt p := .any (steps_namesInStmt acts p) fun _ _ => .pure rfl
  afterExpr _ _ _ := .pure trivial
  afterStmt _ _ _ := .pure trivial
  afterProgram _ := .pure trivial

end

/-! ### Renaming and the survey -/

/-- Renaming has changed a draft, and the survey has collected the names that were given new ones. -/
structure Surveyed (choose : Choice) (d0 : Draft) (s : Names) (d : Draft) (l : List Text) (e : Draft) : Prop where
  renamed : Renamed choose d0 (fun _ => True) s d
  old : l = s.old
  same : e = d0

/-- Where renaming ends, so does the survey. -/
def toSurvey (choose : Choice) (d0 : Draft) : Lockstep Names (List Text) where
  rel := Surveyed choose d0
  lost _ := False
  alike surveyed := surveyed.same ▸ surveyed.renamed.alike.1

/-- Where the survey ends, so does renaming, unless two of the new names are the same. -/
def fromSurvey (choose : Choice) (d0 : Draft) : Lockstep (List Text) Names where
  rel l e s d := Surveyed choose d0 s d l e
  lost l := ¬Differ choose l.length
  alike surveyed := surveyed.same ▸ surveyed.renamed.alike.2

variable {choose : Choice} {d0 : Draft}

theorem Surveyed.name {s : Names} {l : List Text} {e : Draft} (surveyed : Surveyed choose d0 s d l e) (p : Nat) :
  d.nameAt? p = spared ↔ e.nameAt? p = spared
  := by
  rw [surveyed.same]
  rcases surveyed.renamed.name p with same | ⟨-, t, u, given, before, after⟩
  · rw [same]
  · have odd := surveyed.renamed.sound.odd t (List.mem_map.2 ⟨_, given, rfl⟩)
    obtain ⟨i, -, rfl⟩ := surveyed.renamed.sound.exists_nth (List.mem_map.2 ⟨_, given, rfl⟩)
    have isNew : nth choose i ≠ Text.ofString "uncreate_defd" := nth_ne_of_long (by decide) i
    have isOld : t ≠ Text.ofString "uncreate_defd" := by
      rintro rfl
      exact absurd odd (by decide +kernel)
    rw [before, after, spared, some.injEq, some.injEq]
    exact iff_of_false isNew isOld

theorem inStep_toSurvey (d0 : Draft) : InStep (toSurvey choose d0) (pass choose) survey := by
  refine inStep_overNames (fun p => ⟨fun lost _ => lost, ?_⟩) Surveyed.name
  rintro s d l e _ s' d' ⟨renamed, rfl, rfl⟩ run
  obtain ⟨renamed', -, -, -, old⟩ := rename_eq_ok renamed (fun _ _ => trivial) run
  obtain ⟨name, s1, d1, nameRun, -⟩ := bind_eq_ok.1 run
  obtain ⟨isName, -⟩ := lift_eq_ok.1 nameRun
  obtain ⟨r, found⟩ := record_of_nameOf isName
  obtain ⟨r', found', -⟩ := renamed.alike.1.record p r found
  exact .inl ⟨(), _, _, collect_ends found' _, ⟨renamed', old.symm, rfl⟩, trivial⟩

theorem inStep_fromSurvey (d0 : Draft) : InStep (fromSurvey choose d0) survey (pass choose) := by
  refine inStep_overNames (fun p => ⟨?_, ?_⟩) fun surveyed p => (surveyed.name p).symm
  · intro l d _ l' d' lost run
    obtain ⟨-, rfl⟩ := collect_eq_ok run
    exact fun differ => lost (differ.of_le (length_meet _ l))
  · rintro l e s d _ l' e' ⟨renamed, rfl, rfl⟩ run
    obtain ⟨rfl, rfl⟩ := collect_eq_ok run
    by_cases differ : Differ choose (meet (e'.nameAt? p) s.old).length
    · obtain ⟨name, _, d1, nameRun, -⟩ := bind_eq_ok.1 run
      obtain ⟨isName, -⟩ := lift_eq_ok.1 nameRun
      obtain ⟨r, found⟩ := record_of_nameOf isName
      obtain ⟨r', found', -⟩ := renamed.alike.2.record p r found
      obtain ⟨s', d', ends⟩ := rename_ends renamed found' differ
      obtain ⟨renamed', -, -, -, old⟩ := rename_eq_ok renamed (fun _ _ => trivial) ends
      exact .inl ⟨(), s', d', ends, ⟨renamed', old.symm, rfl⟩, trivial⟩
    · exact .inr differ

theorem ends_iff {program : Nat} (d : Draft) :
  (∃ s d', (pass choose).run program {} d = .ok s d') ↔
    ∃ names d', survey.run program [] d = .ok names d' ∧ Differ choose names.length
  := by
  have start : Surveyed choose d {} d [] d := ⟨.refl d _, rfl, rfl⟩
  constructor
  · rintro ⟨s, d', run⟩
    obtain ⟨names, e, ends, surveyed⟩ | lost := (inStep_toSurvey d).run start run
    · refine ⟨names, e, ends, ?_⟩
      rw [surveyed.old, Names.old, List.length_map]
      exact surveyed.renamed.sound.differ
    · exact lost.elim
  · rintro ⟨names, d', run, differ⟩
    obtain ⟨s, e, ends, -⟩ | lost := (inStep_fromSurvey d).run start run
    · exact ⟨s, e, ends⟩
    · exact absurd differ lost

end Pass.Rename

/-! ### What it is to be consistent -/

namespace Draft

/-- A part that the walk comes to has a site of interest with the record of a place. -/
def Meets (d : Draft) (program p : Nat) : Prop :=
  ∃ k, d.Reached program k ∧ ∃ q ∈ d.nameSites k, d.Shares q p

/-- The walk meets an odd name at one of the places. -/
def MeetsName (d : Draft) (program : Nat) (places : Set Nat) (t : Text) : Prop :=
  Pass.Rename.isOdd t = true ∧ ∃ p ∈ places, d.nameAt? p = some t ∧ d.Meets program p

/-- The names at some places are changed by a function that keeps different names apart and leaves alone
those that are not odd. -/
def Consistent (d d' : Draft) (places : Set Nat) : Prop :=
  ∃ f : Text → Text, Set.InjOn f {t | ∃ p ∈ places, d.nameAt? p = some t} ∧
    (∀ t, Pass.Rename.isOdd t = false → f t = t) ∧ ∀ p ∈ places, d'.nameAt? p = (d.nameAt? p).map f

end Draft

namespace Pass.Rename

variable {choose : Choice} {d d' : Draft} {program p q : Nat} {s : Names}

open Classical in
noncomputable def Names.on (s : Names) (names : Text → Prop) (t : Text) : Text :=
  if names t then s.image t else t

variable {names : Text → Prop} {t : Text}

theorem Names.on_of (inside : names t) : s.on names t = s.image t
  := if_pos inside

theorem Names.on_of_not (outside : ¬names t) : s.on names t = t
  := if_neg outside

/-- Each part that has been walked has plain names only. -/
def renamerTour (choose : Choice) (d0 : Draft) (program : Nat) : Tour True d0 (pass choose) where
  inv := Renamed choose d0 (d0.Meets program)
  later d d' := ∀ q, d.IsPlain q → d'.IsPlain q
  met k d := ∀ q ∈ d0.nameSites k, d.IsPlain q
  told k _ d := ∀ k', d0.Leads k k' → ∀ q ∈ d0.nameSites k', d.IsPlain q
  reached := d0.Reached program
  thins renamed := renamed.thins
  refl _ _ := id
  trans first second q := second q ∘ first q
  stays met later q member := later q (met q member)
  keeps told later k leads q member := later q (told k leads q member)
  kids reached _ kid := reached.kid kid
  nothing := by
    intro x s d nothing renamed k leads
    cases x with
    | place p => cases nothing
    | _ =>
      cases leads with
      | refl => simp [nameSites]
      | step kid _ => cases kid
  beforeExpr := by
    intro p s d b s' d' reached renamed run
    obtain ⟨_, s1, d1, namesRun, ⟨⟩⟩ := bind_eq_ok.1 run
    exact ⟨rfl, (renames_expr fun q site q' shares => ⟨_, reached, q, site, shares⟩).renames renamed namesRun⟩
  beforeStmt := by
    intro p s d b s' d' reached renamed run
    obtain ⟨_, s1, d1, namesRun, ⟨⟩⟩ := bind_eq_ok.1 run
    exact ⟨rfl, (renames_stmt fun q site q' shares => ⟨_, reached, q, site, shares⟩).renames renamed namesRun⟩
  afterExpr := by
    intro p ks rs s d r s' d' _ renamed met thinned told run
    cases run
    obtain rfl := thinned.whole trivial
    refine ⟨renamed, fun _ => id, fun k leads => ?_⟩
    cases leads with
    | refl => exact met
    | step kid onwards =>
      obtain ⟨_, -, below⟩ := exists_of_forall₂ told kid
      exact below k onwards
  afterStmt := by
    intro p last ks ls rs s d r s' d' _ _ renamed met thinned told run
    cases run
    obtain rfl := thinned.whole trivial
    refine ⟨renamed, fun _ => id, fun k leads => ?_⟩
    cases leads with
    | refl => exact met
    | step kid onwards =>
      obtain ⟨_, -, below⟩ := exists_of_forall₂ told kid
      exact below k onwards

theorem run_eq_ok (run : (pass choose).run program {} d = .ok s d') :
  Renamed choose d (d.Meets program) s d' ∧ ∀ p, d.Meets program p → d'.IsPlain p
  := by
  have reached (x : Item) (isItem : x ∈ d.itemsAt (d.attrAt program .body)) :
      d.Reached program (.stmt x) := ⟨x, isItem, .refl _⟩
  obtain ⟨ks, rs, s1, d1, thinned, renamed, -, told, l, -, ended⟩ :=
    (renamerTour choose d program).run (.refl d _) reached run
  cases ended
  obtain rfl := thinned.whole trivial
  refine ⟨renamed, ?_⟩
  rintro p ⟨k, ⟨x, isItem, leads⟩, q, site, shares⟩ t name
  obtain ⟨_, -, below⟩ := exists_of_forall₂ told (List.mem_map_of_mem isItem)
  apply below k leads q site t
  rw [nameAt?_eq] at name ⊢
  rw [← (renamed.shares.2 shares).record]
  exact name

section

variable (run : (pass choose).run program {} d = .ok s d')

include run

theorem nameAt?_of_meets (meets : d.Meets program p) : d'.nameAt? p = (d.nameAt? p).map s.image
  := by
  obtain ⟨renamed, plain⟩ := run_eq_ok run
  rcases renamed.name p with same | ⟨-, t, u, given, before, after⟩
  · rw [same]
    cases name : d.nameAt? p with
    | none => rfl
    | some t =>
      rw [map_some, renamed.sound.image_of_plain (plain p meets t (same.trans name))]
  · rw [before, after, map_some, renamed.sound.image_of_given given]

theorem nameAt?_of_missed (missed : ¬d.Meets program p) : d'.nameAt? p = d.nameAt? p := by
  obtain ⟨renamed, -⟩ := run_eq_ok run
  exact (renamed.name p).resolve_right fun changed => missed changed.1

variable {t : Text} {places : Set Nat}

theorem given_of_meets (meets : d.Meets program p) (name : d.nameAt? p = some t)
    (odd : isOdd t = true) : (t, s.image t) ∈ s.given
  := by
  obtain ⟨renamed, plain⟩ := run_eq_ok run
  rcases renamed.name p with same | ⟨-, t', u, given, before, -⟩
  · cases (plain p meets t (same.trans name)).symm.trans odd
  · cases before.symm.trans name
    rwa [renamed.sound.image_of_given given]

theorem isOdd_image (meets : d.Meets program p) (name : d.nameAt? p = some t)
    (odd : isOdd t = true) : isOdd (s.image t) = false
  := (run_eq_ok run).1.sound.isOdd_new (List.mem_map.2 ⟨_, given_of_meets run meets name odd, rfl⟩)

theorem image_injective {t' : Text} (meets : d.Meets program p) (name : d.nameAt? p = some t)
    (odd : isOdd t = true) (meets' : d.Meets program q) (name' : d.nameAt? q = some t')
    (odd' : isOdd t' = true) (same : s.image t = s.image t') : t = t'
  := by
  have given := given_of_meets run meets name odd
  have given' := given_of_meets run meets' name' odd'
  have both := List.inj_on_of_nodup_map (run_eq_ok run).1.sound.distinct given given' same
  exact (Prod.mk.inj both).1

theorem consistent_of
    (together : ∀ p ∈ places, ∀ q ∈ places, ∀ t, isOdd t = true → d.nameAt? p = some t →
      d.nameAt? q = some t → d.Meets program p → d.Meets program q)
    (apart : ∀ p ∈ places, ∀ q ∈ places, ∀ t, isOdd t = true → d.nameAt? p = some t →
      d.Meets program p → d.nameAt? q ≠ d'.nameAt? p) : d.Consistent d' places
  := by
  -- a name that is met does not become one that occurs
  have clash {t t' : Text} {p' : Nat} (isMet : d.MeetsName program places t) (inside' : p' ∈ places)
      (name' : d.nameAt? p' = some t') (same : s.image t = t') : False := by
    obtain ⟨odd, q, inside, name, meets⟩ := isMet
    refine apart q inside p' inside' t odd name meets ?_
    rw [nameAt?_of_meets run meets, name, name', map_some, same]
  have plainStays {t : Text} (plain : isOdd t = false) : s.on (d.MeetsName program places) t = t :=
    Names.on_of_not fun isMet => Bool.noConfusion (plain.symm.trans isMet.1)
  refine ⟨s.on (d.MeetsName program places), ?_, fun t => plainStays, ?_⟩
  · rintro t ⟨p, inside, name⟩ t' ⟨p', inside', name'⟩ same
    by_cases isMet : d.MeetsName program places t
    · rw [Names.on_of isMet] at same
      by_cases isMet' : d.MeetsName program places t'
      · rw [Names.on_of isMet'] at same
        obtain ⟨odd, q, -, found, meets⟩ := isMet
        obtain ⟨odd', q', -, found', meets'⟩ := isMet'
        exact image_injective run meets found odd meets' found' odd' same
      · rw [Names.on_of_not isMet'] at same
        exact (clash isMet inside' name' same).elim
    · rw [Names.on_of_not isMet] at same
      by_cases isMet' : d.MeetsName program places t'
      · rw [Names.on_of isMet'] at same
        exact (clash isMet' inside name same.symm).elim
      · rwa [Names.on_of_not isMet'] at same
  · intro p inside
    by_cases meets : d.Meets program p
    · rw [nameAt?_of_meets run meets]
      refine map_congr fun t name => ?_
      cases odd : isOdd t with
      | true => exact (Names.on_of ⟨odd, p, inside, name, meets⟩).symm
      | false => rw [plainStays odd, (run_eq_ok run).1.sound.image_of_plain odd]
    · rw [nameAt?_of_missed run meets]
      cases name : d.nameAt? p with
      | none => rfl
      | some t =>
        rw [map_some, Names.on_of_not]
        rintro ⟨odd, q, inside', name', meets'⟩
        exact meets (together q inside' p inside t odd name' name meets')

theorem Consistent.together (consistent : d.Consistent d' places)
    (inside : p ∈ places) (inside' : q ∈ places) (odd : isOdd t = true) (name : d.nameAt? p = some t)
    (name' : d.nameAt? q = some t) (meets : d.Meets program p) : d.Meets program q
  := by
  obtain ⟨f, -, -, images⟩ := consistent
  by_contra missed
  have first := images p inside
  have second := images q inside'
  rw [nameAt?_of_meets run meets, name, map_some, map_some] at first
  rw [nameAt?_of_missed run missed, name', map_some] at second
  have same : s.image t = t := (some.inj first).trans (some.inj second).symm
  have plain := isOdd_image run meets name odd
  rw [same] at plain
  cases plain.symm.trans odd

theorem Consistent.apart (consistent : d.Consistent d' places)
    (inside : p ∈ places) (inside' : q ∈ places) (odd : isOdd t = true) (name : d.nameAt? p = some t)
    (meets : d.Meets program p) : d.nameAt? q ≠ d'.nameAt? p
  := by
  obtain ⟨f, injective, plain, images⟩ := consistent
  intro same
  have first := images p inside
  rw [nameAt?_of_meets run meets, name, map_some] at same first
  have isPlain := isOdd_image run meets name odd
  have both : f (s.image t) = f t := by
    rw [plain _ isPlain]
    exact some.inj first
  have equal := injective ⟨q, inside', same⟩ ⟨p, inside, name⟩ both
  rw [equal] at isPlain
  cases isPlain.symm.trans odd

end

/-- However new names are chosen, renaming ends exactly if those for the odd names that the walk meets are
different.  It then changes nothing but names, and changes those at given places consistently exactly if
the walk meets all of them that have the same odd name, or none, and gives to none of them a name that is
already there. -/
theorem renaming_consistent_iff (choose : Choice) (d : Draft) (program : Nat) :
  ((∃ s d', (pass choose).run program {} d = .ok s d') ↔
    ∃ names d', survey.run program [] d = .ok names d' ∧
      ((List.range names.length).map (nth choose)).Nodup) ∧
  ∀ s d', (pass choose).run program {} d = .ok s d' →
    (d'.places = d.places ∧ d'.lists = d.lists ∧
      ∀ p, d'.kindAt p = d.kindAt p ∧ ∀ a, a ≠ .name → d'.attrAt p a = d.attrAt p a) ∧
    ∀ places : Set Nat, d.Consistent d' places ↔
      (∀ p ∈ places, ∀ q ∈ places, ∀ t, isOdd t = true → d.nameAt? p = some t → d.nameAt? q = some t →
        d.Meets program p → d.Meets program q) ∧
      ∀ p ∈ places, ∀ q ∈ places, ∀ t, isOdd t = true → d.nameAt? p = some t → d.Meets program p →
        d.nameAt? q ≠ d'.nameAt? p
  := by
  refine ⟨ends_iff d, fun s d' run => ⟨?_, fun places => ⟨fun consistent => ?_, fun both => ?_⟩⟩⟩
  · obtain ⟨renamed, -⟩ := run_eq_ok run
    exact ⟨renamed.places, renamed.lists, fun p => ⟨renamed.kind p, fun a => renamed.attr p⟩⟩
  · constructor
    · intro p inside q inside' t odd name name' meets
      exact Consistent.together run consistent inside inside' odd name name' meets
    · intro p inside q inside' t odd name meets
      exact Consistent.apart run consistent inside inside' odd name meets
  · exact consistent_of run both.1 both.2

/-! ### Programs with a loop -/

def sampleTree : Tree :=
  let name (r : Nat) : Tree := .node r .identifier [(.name, .text (.ofString "_0xa"))]
  let assignment (r : Nat) : Tree := .node r .expressionStatement [(.expression,
    .node (r + 1) .assignmentExpression [(.left, name (r + 2)), (.right, .node (r + 3) .literal [])])]
  .node 0 .program [(.body, .list [
    .node 1 .variableDeclaration [(.declarations, .list [
      .node 2 .variableDeclarator [(.id, name 3), (.initial, .node 4 .literal [])]])],
    assignment 5,
    .node 9 .doWhileStatement [(.body, .node 10 .blockStatement [(.body, .list [assignment 11])]),
      (.test, .node 15 .literal [])]])]

def sample : Draft := (load {} { fresh := 16 } sampleTree).1

theorem sample_run :
  ∃ s d', (pass .inTurn).run 0 {} sample = .ok s d' ∧ ∀ p ∈ [3, 7], d'.nameAt? p = some (Text.ofString "bedugau")
  := by
  have found : ends ((pass .inTurn).run 0 {}) sample (fun _ d' =>
      decide (∀ p ∈ ([3, 7] : List Nat), d'.nameAt? p = some (Text.ofString "bedugau"))) = true := by
    decide +kernel
  obtain ⟨s, d', run, new⟩ := exists_of_ends found
  exact ⟨s, d', run, of_decide_eq_true new⟩

theorem sample_meets (inside : p ∈ [3, 7]) : sample.Meets 0 p := by
  have shares (p : Nat) (member : p ∈ [3, 7]) : sample.Shares p p := by
    have found : ∀ p ∈ [3, 7], (sample.recordAt? p).isSome = true := by decide +kernel
    obtain ⟨r, isRecord⟩ := isSome_iff_exists.1 (found p member)
    exact .refl isRecord
  have statement (p : Nat) (member : p ∈ [1, 5]) : .place p ∈ sample.itemsAt (sample.attrAt 0 .body) := by
    have found : ∀ p ∈ [1, 5], p ∈ (sample.itemsAt (sample.attrAt 0 .body)).filterMap Item.place? := by
      decide +kernel
    exact mem_of_mem_places (found p member)
  obtain rfl | rfl : p = 3 ∨ p = 7 := by simpa using inside
  · exact ⟨.stmt (.place 1), ⟨.place 1, statement 1 (by decide), .refl _⟩, 3, by decide +kernel,
      shares 3 (by decide)⟩
  · exact ⟨.expr (.place 6), ⟨.place 5, statement 5 (by decide),
      .step (mem_kids_of_exprKids (by decide +kernel)) (.refl _)⟩, 7, by decide +kernel,
      shares 7 (by decide)⟩

/-- The names of the first two occurrences are changed consistently. -/
theorem renaming_consistent_sample :
  ∃ s d', (pass .inTurn).run 0 {} sample = .ok s d' ∧ sample.Consistent d' {p | p ∈ [3, 7]}
  := by
  obtain ⟨s, d', run, new⟩ := sample_run
  refine ⟨s, d', run, (((renaming_consistent_iff .inTurn sample 0).2 s d' run).2 _).2 ⟨?_, ?_⟩⟩
  · intro p _ q inside t _ _ _ _
    exact sample_meets inside
  · intro p inside q inside' t _ _ _
    have old : ∀ q ∈ [3, 7], sample.nameAt? q = some (Text.ofString "_0xa") := by decide +kernel
    rw [new p inside, old q inside']
    decide +kernel

def loopProgram : Text := Text.ofString "var _0xa = 1; do \x7b _0xa = 2; \x7d while (0);"

/-- A name in a loop that the walk leaves out is not changed, although it is changed elsewhere. -/
theorem renaming_inconsistent :
  ∃ o s d', analyze {} true loopProgram = .ok o ∧
    (pass .inTurn).run o.tree.ref {} (Draft.ofOutcome o) = .ok s d' ∧
    ¬(Draft.ofOutcome o).Consistent d' {p | (Draft.ofOutcome o).kindAt p = .identifier}
  := by
  have found : (analyze {} true loopProgram).toOption.any (fun o =>
      ends ((pass .inTurn).run o.tree.ref {}) (Draft.ofOutcome o) fun _ d' => decide (
        (∀ p ∈ ([1, 5] : List Nat), (Draft.ofOutcome o).kindAt p = .identifier) ∧
        (Draft.ofOutcome o).nameAt? 1 = (Draft.ofOutcome o).nameAt? 5 ∧
        d'.nameAt? 1 ≠ d'.nameAt? 5)) = true := by decide +kernel
  obtain ⟨o, run, found⟩ := except_any_eq_true found
  obtain ⟨s, d', renames, found⟩ := exists_of_ends found
  obtain ⟨identifiers, before, after⟩ := of_decide_eq_true found
  refine ⟨o, s, d', run, renames, ?_⟩
  rintro ⟨f, -, -, images⟩
  apply after
  rw [images 1 (identifiers 1 (by decide)), images 5 (identifiers 5 (by decide)), before]

end Pass.Rename

end ScriptLens
