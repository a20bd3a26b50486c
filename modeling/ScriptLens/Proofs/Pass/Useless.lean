import Mathlib.Data.List.Nodup
import Mathlib.Data.List.Perm.Subperm
import Mathlib.Order.Bounds.Basic
import ScriptLens.Pass.Definitions
import ScriptLens.Proofs.Analysis.Notes
import ScriptLens.Proofs.Pass.Run

/-!
# Useless definitions

A definition is useless if nothing uses it but itself and useless definitions.
-/

namespace ScriptLens.Pass.Definitions

open Edit List

/-! ### The least set -/

def Closed (l : List (Nat × List Nat)) (U : Set Nat) : Prop :=
  ∀ d ∈ l, (∀ u ∈ d.2, u ≠ d.1 → u ∈ U) → d.1 ∈ U

/-- Definitions that have been found to be useless: each once, and none that need not be. -/
structure Found (l : List (Nat × List Nat)) (us : List Nat) : Prop where
  nodup : us.Nodup
  defined : us ⊆ l.map Prod.fst
  least : ∀ U, Closed l U → ∀ u ∈ us, u ∈ U

variable {l r : List (Nat × List Nat)} {us : List Nat} {d : Nat × List Nat}

theorem isUnused_iff : isUnused us d = true ↔ ∀ u ∈ d.2, u ≠ d.1 → u ∈ us
  := by simp [isUnused, or_iff_not_imp_left]

theorem Found.visit (found : Found l us) (member : d ∈ l) : Found l (visit us d) := by
  unfold Definitions.visit
  split
  · rename_i new
    obtain ⟨absent, unused⟩ := Bool.and_eq_true_iff.1 new
    refine ⟨?_, ?_, fun U closed u isUseless => ?_⟩
    · exact Nodup.append found.nodup (nodup_singleton _) (by simpa using absent)
    · simpa [found.defined] using ⟨d.2, member⟩
    · rcases mem_append.1 isUseless with before | here
      · exact found.least U closed u before
      · rw [mem_singleton.1 here]
        exact closed d member fun v uses other => found.least U closed v (isUnused_iff.1 unused v uses other)
  · exact found

theorem visit_prefix (us : List Nat) (d : Nat × List Nat) : us <+: visit us d := by
  unfold visit
  split
  · exact prefix_append ..
  · exact prefix_rfl

theorem Found.round (found : Found l us) (within : r ⊆ l) :
  Found l (r.foldl Definitions.visit us) ∧ us <+: r.foldl Definitions.visit us ∧
    ((r.foldl Definitions.visit us).length = us.length → ∀ d ∈ r, isUnused us d = true → d.1 ∈ us)
  := by
  induction r generalizing us with
  | nil => exact ⟨found, prefix_rfl, fun _ d member => (not_mem_nil member).elim⟩
  | cons e r ih =>
    obtain ⟨here, rest⟩ := cons_subset.1 within
    obtain ⟨later, longer, still⟩ := ih (found.visit here) rest
    have first := visit_prefix us e
    refine ⟨later, first.trans longer, fun same => ?_⟩
    rw [foldl_cons] at same
    have unchanged : Definitions.visit us e = us :=
      (first.eq_of_length (Nat.le_antisymm first.length_le (same ▸ longer.length_le))).symm
    rw [unchanged] at still same
    rintro d (_ | ⟨_, member⟩) unused
    · by_contra absent
      rw [Definitions.visit, if_pos (by simp [absent, unused])] at unchanged
      simpa using congrArg length unchanged
    · exact still same d member unused

theorem Found.uselessOf (found : Found l us) {n : Nat} (enough : l.length < us.length + n) :
  IsLeast { U | Closed l U } { u | u ∈ uselessOf l n us }
  := by
  induction n generalizing us with
  | zero =>
    have few := (Nodup.subperm found.nodup found.defined).length_le
    rw [length_map] at few
    omega
  | succ n ih =>
    obtain ⟨later, longer, ended⟩ := found.round (Subset.refl l)
    rw [Definitions.uselessOf]
    split
    · rename_i same
      refine ⟨fun d member unused => ?_, fun U closed u member => found.least U closed u member⟩
      exact ended (eq_of_beq same) d member (isUnused_iff.2 unused)
    · rename_i more
      refine ih later ?_
      have grown := lt_of_le_of_ne longer.length_le fun same => more (beq_of_eq same.symm)
      omega

/-! ### Notes -/

/-- A definition with its users, as they are noted on its node. -/
structure Noted (d : Draft) (n : NoteName) (users : Nat → List Nat) (i : Nat) : Prop where
  node : ∃ p r, d.nodes[i]? = some p ∧ d.recordAt? p = some r ∧ r.serial? = some i
  users : ∃ s : IdSet, s.ids = users i ∧ ((d.notes[i]?).getD []).lookup n = some (.nodeSet s)

def written (i : Nat) (n : NoteName) (v : Note) (d : Draft) : Draft :=
  { d with notes := d.notes.insert i (Notes.putNote n v ((d.notes[i]?).getD [])) }

variable {d : Draft} {s : Flow} {i : Nat} {n : NoteName} {users : Nat → List Nat} {is : List Nat}

theorem mark_run {p : Nat} {r : Record} (entered : d.nodes[i]? = some p) (found : d.recordAt? p = some r)
    (number : r.serial? = some i) : mark p d = .ok i d
  := by
  rw [Edit.mark_of_serial found number, Edit.entered, if_pos]
  rw [Std.TreeMap.contains_eq_isSome_getElem?, entered]
  rfl

theorem usersOf_run (noted : Noted d n users i) : usersOf n i d = .ok (users i) d := by
  obtain ⟨⟨p, r, entered, found, number⟩, ⟨s, same, listed⟩⟩ := noted
  have node : nodeAt i d = .ok p d := by
    rw [nodeAt, get_bind, entered]
    rfl
  have note : note p n d = .ok (.nodeSet s) d :=
    Edit.bind_eq_ok.2 ⟨i, d, mark_run entered found number, congrArg (EStateM.Result.ok · d) (by rw [listed]; rfl)⟩
  rw [← same]
  exact Edit.bind_eq_ok.2 ⟨p, d, node, Edit.bind_eq_ok.2 ⟨_, d, note, rfl⟩⟩

theorem collect_run (noted : ∀ i ∈ is, Noted d n users i) :
  (is.mapM fun i => do return (i, ← usersOf n i) : Tracing _) s d = .ok (is.map fun i => (i, users i), s) d
  := by
  induction is with
  | nil => rfl
  | cons i is ih =>
    rw [mapM_cons]
    refine bind_eq_ok.2 ⟨(i, users i), s, d, lift_bind_eq_ok.2 ⟨_, d, usersOf_run (noted i mem_cons_self), rfl⟩,
      bind_eq_ok.2 ⟨_, s, d, ih fun j member => noted j (mem_cons_of_mem _ member), rfl⟩⟩

theorem verdicts_run {f g : Nat → Bool} (nodes : ∀ i ∈ is, ∃ p r, d.nodes[i]? = some p ∧ d.recordAt? p = some r ∧
      r.serial? = some i) :
  ∃ d', (is.forM fun i => do
      let q ← nodeAt i
      setNote q .useless (.flag (f i))
      setNote q .declUseless (.flag (g i)) : Tracing Unit) s d = .ok ((), s) d' ∧
    ∀ i n, ((d'.notes[i]?).getD []).lookup n = if i ∈ is ∧ n = .useless then some (.flag (f i))
      else if i ∈ is ∧ n = .declUseless then some (.flag (g i)) else ((d.notes[i]?).getD []).lookup n
  := by
  induction is generalizing d with
  | nil => exact ⟨d, rfl, by simp⟩
  | cons i is ih =>
    obtain ⟨p, r, entered, found, number⟩ := nodes i mem_cons_self
    let d₁ := written i .useless (.flag (f i)) d
    let d₂ := written i .declUseless (.flag (g i)) d₁
    obtain ⟨d', run, noted⟩ := ih (d := d₂) fun j member => nodes j (mem_cons_of_mem _ member)
    refine ⟨d', ?_, fun j n => ?_⟩
    · have node : nodeAt i d = .ok p d := by
        rw [nodeAt, get_bind, entered]
        rfl
      have first : setNote p .useless (.flag (f i)) d = .ok () d₁ :=
        Edit.bind_eq_ok.2 ⟨i, d, mark_run entered found number, rfl⟩
      have second : setNote p .declUseless (.flag (g i)) d₁ = .ok () d₂ :=
        Edit.bind_eq_ok.2 ⟨i, d₁, mark_run (d := d₁) entered found number, rfl⟩
      exact bind_eq_ok.2 ⟨(), s, d₂, lift_bind_eq_ok.2 ⟨p, d, node, lift_bind_eq_ok.2 ⟨(), d₁, first,
        lift_eq_ok.2 ⟨second, rfl⟩⟩⟩, run⟩
    · have here : ((d₂.notes[j]?).getD []).lookup n = if j = i ∧ n = .useless then some (.flag (f i))
          else if j = i ∧ n = .declUseless then some (.flag (g i)) else ((d.notes[j]?).getD []).lookup n := by
        simp only [d₂, d₁, written, Draft.getElem?_insert]
        grind [Notes.lookup_putNote]
      rw [noted, here]
      grind

/-- The definitions that are noted to be useless are the least set that has every definition all of
whose users but itself are in the set; and a declaration is noted to be useless if all its users but
itself are in that set. -/
theorem useless_is_least {declUsers : Nat → List Nat} (used : ∀ i ∈ s.defining.ids, Noted d .usedBy users i)
    (declUsed : ∀ i ∈ s.defining.ids, Noted d .declUsedBy declUsers i) :
  ∃ U d', IsLeast { U : Set Nat | ∀ i ∈ s.defining.ids, (∀ u ∈ users i, u ≠ i → u ∈ U) → i ∈ U } U ∧
    conclude s d = .ok ((), s) d' ∧ ∀ i ∈ s.defining.ids, ∃ isUseless isDeclUseless : Bool,
      ((d'.notes[i]?).getD []).lookup .useless = some (.flag isUseless) ∧ (isUseless = true ↔ i ∈ U) ∧
      ((d'.notes[i]?).getD []).lookup .declUseless = some (.flag isDeclUseless) ∧
      (isDeclUseless = true ↔ ∀ u ∈ declUsers i, u ≠ i → u ∈ U)
  := by
  let useless := uselessOf (s.defining.ids.map fun i => (i, users i)) (s.defining.ids.length + 1) []
  let decl := ((s.defining.ids.map fun i => (i, declUsers i)).filter (isUnused useless)).map Prod.fst
  have least := Found.uselessOf (l := s.defining.ids.map fun i => (i, users i))
    ⟨nodup_nil, nil_subset _, fun _ _ u member => (not_mem_nil member).elim⟩
    (n := s.defining.ids.length + 1) (by simp)
  obtain ⟨d', run, noted⟩ := verdicts_run (s := s) (f := useless.contains) (g := decl.contains)
    fun i member => (used i member).node
  refine ⟨{ u | u ∈ useless }, d', ?_, ?_, fun i member =>
    ⟨useless.contains i, decl.contains i, ?_, ?_, ?_, ?_⟩⟩
  · simpa [Closed] using least
  · exact bind_eq_ok.2 ⟨s, s, d, rfl, bind_eq_ok.2 ⟨_, s, d, collect_run used, bind_eq_ok.2
      ⟨_, s, d, collect_run declUsed, run⟩⟩⟩
  · exact (noted i .useless).trans (if_pos ⟨member, rfl⟩)
  · simp
  · rw [noted, if_neg (by simp), if_pos ⟨member, rfl⟩]
  · simp [decl, member, isUnused_iff]

/-- Two definitions that use each other, and one that only itself uses. -/
def threeDefinitions : Draft where
  places := .ofList [(0, ⟨0, none⟩), (1, ⟨1, none⟩), (2, ⟨2, none⟩)] compare
  records := .ofList ((range 3).map fun i => (i, { attrs := [(.serial, .leaf (.int i))] })) compare
  nodes := .ofList [(0, 0), (1, 1), (2, 2)] compare
  notes := .ofList [(0, [(.usedBy, .nodeSet ⟨[1]⟩), (.declUsedBy, .nodeSet ⟨[2]⟩)]),
    (1, [(.usedBy, .nodeSet ⟨[0]⟩), (.declUsedBy, .nodeSet ⟨[0]⟩)]),
    (2, [(.usedBy, .nodeSet ⟨[2]⟩), (.declUsedBy, .nodeSet ⟨[2]⟩)])] compare

theorem useless_is_least_threeDefinitions :
  ∃ d', conclude { defining := ⟨[0, 1, 2]⟩ } threeDefinitions = .ok ((), { defining := ⟨[0, 1, 2]⟩ }) d' ∧
    ((d'.notes[0]?).getD []).lookup .declUseless = some (.flag true)
  := by
  have noted {n : NoteName} (users : Nat → List Nat) (zero : Noted threeDefinitions n users 0)
      (one : Noted threeDefinitions n users 1) (two : Noted threeDefinitions n users 2) :
      ∀ i ∈ [0, 1, 2], Noted threeDefinitions n users i := by
    simpa using ⟨zero, one, two⟩
  obtain ⟨U, d', ⟨closed, -⟩, run, flags⟩ := useless_is_least (d := threeDefinitions)
    (s := { defining := ⟨[0, 1, 2]⟩ })
    (noted (fun i => [[1, 0, 2].getD i 0]) ⟨⟨0, _, rfl, rfl, rfl⟩, ⟨_, rfl, rfl⟩⟩ ⟨⟨1, _, rfl, rfl, rfl⟩, ⟨_, rfl, rfl⟩⟩
      ⟨⟨2, _, rfl, rfl, rfl⟩, ⟨_, rfl, rfl⟩⟩)
    (noted (fun i => [[2, 0, 2].getD i 0]) ⟨⟨0, _, rfl, rfl, rfl⟩, ⟨_, rfl, rfl⟩⟩ ⟨⟨1, _, rfl, rfl, rfl⟩, ⟨_, rfl, rfl⟩⟩
      ⟨⟨2, _, rfl, rfl, rfl⟩, ⟨_, rfl, rfl⟩⟩)
  obtain ⟨-, b, -, -, noted, isUseless⟩ := flags 0 (by decide)
  have last : 2 ∈ U := closed 2 (by decide) (by simp)
  rw [isUseless.2 (by simp [last])] at noted
  exact ⟨d', run, noted⟩

end ScriptLens.Pass.Definitions
