import Mathlib.Data.List.Nodup
import ScriptLens.Pass.Rename
import ScriptLens.Proofs.Pass.Lockstep
import ScriptLens.Proofs.Scan.Lines

/-!
# The names that are given

However the sounds of new names are chosen, a new name does not look as if a machine had made it.  Two
new names may be the same.
-/

namespace ScriptLens

namespace Text

theorem length_append (s t : Text) : (s ++ t).length = s.length + t.length
  := Array.size_append

theorem get_append_left {s t : Text} {i : Nat} (inside : i < s.length) : (s ++ t).get i = s.get i := by
  rw [get, get, Array.getD_eq_getD_getElem?, Array.getD_eq_getD_getElem?]
  exact congrArg (Option.getD · 0) (Array.getElem?_append_left inside)

end Text

namespace Pass.Rename

open Names List

/-! ### Spoken names -/

section

variable (choose : Choice)

theorem sound_mem {l : List Text} (some : 0 < l.length) (k : Nat) : sound choose l k ∈ l := by
  rw [sound, getElem?_eq_getElem (Nat.mod_lt _ some), Option.getD_some]
  exact getElem_mem _

theorem length_spoken_le (k n : Nat) : (spoken choose k n).length ≤ 4 * n := by
  have short : ∀ t ∈ consonants ++ vowels, t.length ≤ 2 := by decide +kernel
  induction n generalizing k with
  | zero => exact Nat.le_refl 0
  | succ n ih =>
    have consonant := short _ (mem_append_left _ (sound_mem choose (by decide) k))
    have vowel := short _ (mem_append_right _ (sound_mem choose (by decide) (k + 1)))
    rw [spoken, Text.length_append, Text.length_append]
    have rest := ih (k + 2)
    omega

/-- A name that can be spoken begins with the beginning of a consonant. -/
theorem get_spoken (k n : Nat) : ∃ c ∈ consonants, (spoken choose k (n + 1)).get 0 = c.get 0 := by
  have begun : ∀ t ∈ consonants, 0 < t.length := by decide +kernel
  have consonant : sound choose consonants k ∈ consonants := sound_mem choose (by decide) k
  refine ⟨_, consonant, ?_⟩
  rw [spoken, Text.get_append_left, Text.get_append_left (begun _ consonant)]
  rw [Text.length_append]
  have := begun _ consonant
  omega

end

variable {choose : Choice}

/-- The new name that is the `i`-th to be made. -/
def nth (choose : Choice) (i : Nat) : Text := spoken choose (2 * syllables * i) syllables

/-- The first `n` new names are different. -/
def Differ (choose : Choice) (n : Nat) : Prop := ((range n).map (nth choose)).Nodup

theorem Differ.of_le {m n : Nat} (differ : Differ choose n) (fewer : m ≤ n) : Differ choose m
  := differ.sublist ((range_sublist.2 fewer).map _)

theorem isOdd_nth (i : Nat) : isOdd (nth choose i) = false := by
  obtain ⟨c, consonant, first⟩ := get_spoken choose (2 * syllables * i) 2
  have spelled : ∀ c ∈ consonants, c.get 0 ≠ 95 := by decide +kernel
  have short := length_spoken_le choose (2 * syllables * i) syllables
  have differs (t : Text) (nonempty : 0 < t.length) (line : t.get 0 = 95) :
      t.occursAt (nth choose i) 0 = false := by
    refine Bool.eq_false_iff.2 fun stands => spelled c consonant ?_
    rw [← first, ← line]
    exact Text.get_of_occursAt stands nonempty
  rw [isOdd, differs _ (by decide) (by decide), differs _ (by decide) (by decide), Bool.or_self,
    Bool.false_or, decide_eq_false, Bool.false_and]
  rw [syllables] at short
  exact Nat.not_le_of_lt (Nat.lt_of_le_of_lt short (by decide))

theorem nth_ne_of_long {t : Text} (long : 4 * syllables < t.length) (i : Nat) : nth choose i ≠ t := by
  rintro rfl
  exact Nat.not_le_of_lt long (length_spoken_le choose _ _)

/-! ### Tables of names -/

def Names.image (s : Names) (t : Text) : Text := (s.given.lookup t).getD t

def Names.old (s : Names) : List Text := s.given.map Prod.fst

def Names.new (s : Names) : List Text := s.given.map Prod.snd

/-- The table with one more name, for which a new one is made. -/
def Names.add (choose : Choice) (s : Names) (t : Text) : Names where
  given := (t, spoken choose s.taken syllables) :: s.given
  taken := s.taken + 2 * syllables

def meet (name : Option Text) (l : List Text) : List Text :=
  match name with
  | some t => if isOdd t && !l.contains t then t :: l else l
  | none => l

theorem meet_new {t : Text} {l : List Text} (odd : isOdd t = true) (unknown : t ∉ l) :
  meet (some t) l = t :: l
  := by simp [meet, odd, unknown]

/-- Different odd names have been given the names that can be spoken, in their order. -/
structure Names.Sound (choose : Choice) (s : Names) : Prop where
  taken : s.taken = 2 * syllables * s.given.length
  old : s.old.Nodup
  odd : ∀ t ∈ s.old, isOdd t = true
  new : s.new = ((range s.given.length).map (nth choose)).reverse
  distinct : s.new.Nodup

namespace Names.Sound

variable {s : Names} {t u : Text} (sound : s.Sound choose)

theorem nil : Sound choose {}
  := ⟨rfl, nodup_nil, by simp [Names.old], rfl, nodup_nil⟩

include sound

theorem exists_nth (given : u ∈ s.new) : ∃ i < s.given.length, nth choose i = u := by
  rw [sound.new, mem_reverse] at given
  obtain ⟨i, below, same⟩ := mem_map.1 given
  exact ⟨i, mem_range.1 below, same⟩

theorem isOdd_new (given : u ∈ s.new) : isOdd u = false := by
  obtain ⟨i, -, rfl⟩ := sound.exists_nth given
  exact isOdd_nth i

theorem differ : Differ choose s.given.length := by
  have distinct := sound.distinct
  rwa [sound.new, nodup_reverse] at distinct

theorem lookup_eq_some_iff : s.given.lookup t = some u ↔ (t, u) ∈ s.given := by
  constructor
  · intro found
    obtain ⟨l1, l2, same, -⟩ := List.lookup_eq_some_iff.1 found
    rw [same]
    exact List.mem_append_right _ List.mem_cons_self
  · intro member
    obtain ⟨l1, l2, same⟩ := List.append_of_mem member
    refine List.lookup_eq_some_iff.2 ⟨l1, l2, same, fun e before => bne_iff_ne.2 ?_⟩
    have old := sound.old
    rw [Names.old, same, List.map_append, List.map_cons, List.nodup_append] at old
    exact (old.2.2 _ (List.mem_map_of_mem before) _ List.mem_cons_self).symm

theorem image_of_given (given : (t, u) ∈ s.given) : s.image t = u
  := by rw [image, sound.lookup_eq_some_iff.2 given, Option.getD_some]

theorem image_of_plain (plain : isOdd t = false) : s.image t = t := by
  rw [image]
  cases found : s.given.lookup t with
  | none => rfl
  | some u =>
    have old : t ∈ s.old := mem_map.2 ⟨_, sound.lookup_eq_some_iff.1 found, rfl⟩
    cases plain.symm.trans (sound.odd t old)

omit sound in
theorem lookup_eq_none_iff : s.given.lookup t = none ↔ t ∉ s.old := by
  rw [List.lookup_eq_none_iff, Names.old, List.mem_map]
  constructor
  · rintro differs ⟨e, member, rfl⟩
    exact bne_iff_ne.1 (differs e member) rfl
  · intro unknown e member
    refine bne_iff_ne.2 ?_
    rintro rfl
    exact unknown ⟨e, member, rfl⟩

theorem add (odd : isOdd t = true) (unknown : t ∉ s.old)
    (fresh : (s.given.any fun p => p.2 == spoken choose s.taken syllables) = false) : (s.add choose t).Sound choose
  := by
  have next : spoken choose s.taken syllables = nth choose s.given.length := by rw [nth, sound.taken]
  constructor
  case taken =>
    rw [Names.add, sound.taken, length_cons, Nat.mul_succ]
  case old =>
    exact nodup_cons.2 ⟨unknown, sound.old⟩
  case odd =>
    intro u given
    rcases mem_cons.1 given with rfl | given
    · exact odd
    · exact sound.odd u given
  case new =>
    rw [Names.new, Names.add, map_cons, length_cons, range_succ, map_append,
      reverse_append, next, ← Names.new, sound.new]
    rfl
  case distinct =>
    refine nodup_cons.2 ⟨fun given => ?_, sound.distinct⟩
    obtain ⟨e, member, same⟩ := mem_map.1 given
    have differs := any_eq_false.1 fresh e member
    exact differs (beq_iff_eq.2 same)

theorem fresh (differ : Differ choose (s.given.length + 1)) :
  (s.given.any fun p => p.2 == spoken choose s.taken syllables) = false
  := by
  refine any_eq_false.2 fun e member same => ?_
  have given : nth choose s.given.length ∈ s.new := by
    rw [nth, ← sound.taken, ← beq_iff_eq.1 same]
    exact mem_map_of_mem member
  obtain ⟨i, below, same⟩ := sound.exists_nth given
  have earlier : i ∈ range (s.given.length + 1) := mem_range.2 (Nat.lt_succ_of_lt below)
  have isLast := inj_on_of_nodup_map differ earlier self_mem_range_succ same
  omega

end Names.Sound

theorem renamed_eq_ok {s s' : Names} {d d' : Draft} {name new : Tree} (sound : s.Sound choose)
    (run : renamed choose name s d = .ok (new, s') d') :
  d' = d ∧ s'.Sound choose ∧ s.given <:+ s'.given ∧ s'.old = meet name.text? s.old ∧
    new.text? = name.text?.map s'.image ∧
    ∀ t, name.text? = some t → isOdd t = true → (t, s'.image t) ∈ s'.given
  := by
  cases name with
  | text t =>
    have others {s' : Names} (here : isOdd t = true → (t, s'.image t) ∈ s'.given) (t' : Text)
        (same : (Tree.text t).text? = some t') (odd : isOdd t' = true) : (t', s'.image t') ∈ s'.given := by
      obtain rfl : t = t' := Option.some.inj same
      exact here odd
    rw [renamed] at run
    cases odd : isOdd t with
    | false =>
      rw [odd] at run
      cases run
      refine ⟨rfl, sound, suffix_rfl, ?_, ?_, others fun odd' => ?_⟩
      · simp [meet, Tree.text?, odd]
      · rw [Tree.text?, Option.map_some, sound.image_of_plain odd]
      · cases odd.symm.trans odd'
    | true =>
      rw [odd] at run
      obtain ⟨_, _, _, ⟨⟩, rest⟩ := bind_eq_ok.1 run
      cases found : s.given.lookup t with
      | some u =>
        rw [found] at rest
        obtain ⟨rfl, rfl, rfl⟩ := pure_eq_ok.1 rest
        have given := sound.lookup_eq_some_iff.1 found
        have old : t ∈ s'.old := mem_map.2 ⟨_, given, rfl⟩
        have image := sound.image_of_given given
        refine ⟨rfl, sound, suffix_rfl, ?_, ?_, others fun _ => ?_⟩
        · simp [meet, Tree.text?, old]
        · rw [Tree.text?, Tree.text?, Option.map_some, image]
        · rwa [image]
      | none =>
        rw [found] at rest
        dsimp only at rest
        cases fresh : s.given.any fun p => p.2 == spoken choose s.taken syllables with
        | true =>
          rw [fresh] at rest
          cases rest
        | false =>
          rw [fresh] at rest
          obtain ⟨pair, rfl⟩ := EStateM.Result.ok.inj rest
          obtain ⟨rfl, isAdded⟩ := Prod.mk.inj pair
          obtain rfl : s' = s.add choose t := isAdded.symm
          have unknown := Sound.lookup_eq_none_iff.1 found
          have sound' := sound.add odd unknown fresh
          have image := sound'.image_of_given mem_cons_self
          refine ⟨rfl, sound', suffix_cons _ _, ?_, ?_, others fun _ => ?_⟩
          · exact (meet_new odd unknown).symm
          · rw [Tree.text?, Tree.text?, Option.map_some, image]
          · rw [image]
            exact mem_cons_self
  | _ =>
    cases run
    refine ⟨rfl, sound, suffix_rfl, rfl, rfl, ?_⟩
    intro t impossible
    cases impossible

theorem renamed_ends {s : Names} (sound : s.Sound choose) (d : Draft) (name : Tree)
    (differ : Differ choose (meet name.text? s.old).length) :
  ∃ new s', renamed choose name s d = .ok (new, s') d
  := by
  cases name with
  | text t =>
    rw [renamed]
    cases odd : isOdd t with
    | false => exact ⟨_, s, rfl⟩
    | true =>
      cases found : s.given.lookup t with
      | some u =>
        refine ⟨.text u, s, bind_eq_ok.2 ⟨s, s, d, rfl, ?_⟩⟩
        rw [found]
        rfl
      | none =>
        have unknown := Sound.lookup_eq_none_iff.1 found
        rw [Tree.text?, meet_new odd unknown, length_cons, old, length_map] at differ
        refine ⟨.text (spoken choose s.taken syllables), s.add choose t, bind_eq_ok.2 ⟨s, s, d, rfl, ?_⟩⟩
        rw [found]
        dsimp only
        rw [sound.fresh differ]
        rfl
  | _ => exact ⟨.null, s, rfl⟩

end Pass.Rename

end ScriptLens
