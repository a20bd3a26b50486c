import Mathlib.Data.List.Perm.Subperm
import Mathlib.Order.Monotone.Basic
import Mathlib.Order.WellFounded
import ScriptLens.Proofs.Value.Join

/-!
# Sequences of joins

The values that an expression takes are joined one after another.  As long as the result is not any
value, it can change a few times only.
-/

namespace ScriptLens

namespace Choices

variable {useOr : Bool} {s t : List Atom} {a : Atom}

theorem prefix_union (s t : List Atom) : s <+: union s t := by
  induction t generalizing s with
  | nil => exact List.prefix_refl s
  | cons a t ih =>
    refine List.IsPrefix.trans ?_ (ih (insert s a))
    rw [insert]
    split
    · exact List.prefix_refl s
    · exact List.prefix_append s [a]

theorem kept_union_of_other (top : .top ∈ s) (inside : a ∈ t) (other : a ≠ .top ∧ a ≠ .undefined) :
  kept useOr (union s t) = false
  := by
  rw [Bool.eq_false_iff]
  intro keep
  obtain ⟨-, few, undefined⟩ := kept_iff.1 keep
  obtain ⟨b, found, other⟩ : ∃ b ∈ union s t, b ≠ .top ∧ b ≠ .undefined := by
    obtain found | found := mem_union_right inside s
    · exact ⟨a, found, other⟩
    · obtain ⟨b, found, alike⟩ := List.any_eq_true.1 found
      refine ⟨b, found, ?_, ?_⟩
      all_goals
        rintro rfl
        cases a <;> first | exact absurd rfl other.1 | exact absurd rfl other.2 | cases alike
  have three : [.top, .undefined, b].Subperm (union s t) := by
    apply List.Nodup.subperm
    · simp [other.1.symm, other.2.symm]
    · simp [mem_union_left t s top, undefined, found]
  have := three.length_le
  simp at this
  omega

theorem union_eq_left (all : ∀ a ∈ t, mem a s = true) : union s t = s := by
  induction t with
  | nil => rfl
  | cons a t ih =>
    rw [union, List.foldl_cons, insert, if_pos (all a List.mem_cons_self)]
    exact ih fun b inside => all b (List.mem_cons_of_mem a inside)

theorem union_loose (few : ∀ a ∈ t, a = .top ∨ a = .undefined) :
  union [.top, .undefined] t = [.top, .undefined]
  := union_eq_left fun a inside => by obtain rfl | rfl := few a inside <;> rfl

theorem union_top (few : ∀ a ∈ t, a = .top ∨ a = .undefined) :
  union [.top] t = if .undefined ∈ t then [.top, .undefined] else [.top]
  := by
  induction t with
  | nil => rfl
  | cons a t ih =>
    have few' : ∀ b ∈ t, b = .top ∨ b = .undefined := fun b inside => few b (.tail a inside)
    obtain rfl | rfl := few a List.mem_cons_self
    · exact (ih few').trans (by simp)
    · rw [if_pos List.mem_cons_self]
      exact union_loose few'

end Choices

namespace Value

def accumulate (useOr : Bool) (x : Nat → Value) : Nat → Value
  | 0 => .absent
  | n + 1 => (accumulate useOr x n).join useOr (x n)

/-- From some point on the joins of the first values of a sequence do not change any more. -/
def Settles (useOr : Bool) (x : Nat → Value) : Prop :=
  ∃ n, ∀ m, n ≤ m → accumulate useOr x (m + 1) = accumulate useOr x m ∨
    (accumulate useOr x m).equal (accumulate useOr x (m + 1)) = true

def loose : Value := or [.top, .undefined]

def opens (v : Value) : Bool :=
  v.choices.contains .undefined && v.choices.all fun a => a == .top || a == .undefined

def closes (v : Value) : Bool :=
  v != .bot && v.choices.any fun a => a != .top && a != .undefined

def rank : Value → Nat
  | absent => 0
  | bot => 1
  | atom _ => 2
  | or s => 3 + min s.length 2

variable {useOr : Bool} {x : Nat → Value} {v w : Value} {n m : Nat}

/-! ### One join -/

theorem join_top (v : Value) : top.join true v = if v.opens then loose else top := by
  cases v with
  | absent => rfl
  | atom a => cases a <;> rfl
  | or s =>
    change ofChoices true (Choices.union [.top] s) = _
    by_cases few : ∀ a ∈ s, a = .top ∨ a = .undefined
    · have opened : (or s).opens = true ↔ .undefined ∈ s := by simpa [opens, choices] using fun _ => few
      rw [Choices.union_top few]
      by_cases undefined : .undefined ∈ s
      · rw [if_pos undefined, if_pos (opened.2 undefined)]
        rfl
      · rw [if_neg undefined, if_neg (mt opened.1 undefined)]
        rfl
    · obtain ⟨a, inside, other⟩ : ∃ a ∈ s, a ≠ .top ∧ a ≠ .undefined := by simpa using few
      rw [ofChoices, Choices.kept_union_of_other List.mem_cons_self inside other,
        if_neg Bool.false_ne_true, if_neg]
      simp [opens, choices]
      grind

theorem join_loose (v : Value) : loose.join true v = if v.closes then top else loose := by
  cases v with
  | absent => rfl
  | atom a => cases a <;> rfl
  | or s =>
    have closed : (or s).closes = true ↔ ∃ a ∈ s, a ≠ .top ∧ a ≠ .undefined := by
      simp [closes, choices]
    obtain ⟨none, -⟩ | ⟨none, -⟩ | ⟨equals, joined⟩ | joined := join_cases true loose (or s)
    · obtain none | none := none <;> cases none
    · obtain none | none := none <;> cases none
    · rw [joined, if_neg]
      rw [closed]
      rintro ⟨b, inside, other⟩
      obtain ⟨a, few, alike⟩ := Choices.covered_of_equal equals b inside
      obtain rfl | rfl : a = .top ∨ a = .undefined := by simpa using few
      all_goals cases b <;> first | exact absurd rfl other.1 | exact absurd rfl other.2 | cases alike
    · rw [joined]
      change ofChoices true (Choices.union [.top, .undefined] s) = _
      by_cases other : ∃ a ∈ s, a ≠ .top ∧ a ≠ .undefined
      · rw [if_pos (closed.2 other)]
        obtain ⟨a, inside, other⟩ := other
        rw [ofChoices, Choices.kept_union_of_other List.mem_cons_self inside other]
        rfl
      · rw [if_neg (mt closed.1 other), Choices.union_loose (by grind)]
        rfl

theorem join_top_false (v : Value) : top.join false v = top := by
  obtain ⟨none, -⟩ | ⟨-, kept⟩ | ⟨-, kept⟩ | joined := join_cases false top v
  · obtain none | none := none <;> cases none
  · exact kept
  · exact kept
  · exact joined

theorem rank_join (present : w ≠ absent) (notTop : v.join useOr w ≠ top) :
  v.join useOr w = v ∨ v.rank < (v.join useOr w).rank
  := by
  obtain ⟨none, joined⟩ | ⟨-, joined⟩ | ⟨-, joined⟩ | joined := join_cases useOr v w
  · rw [joined]
    obtain rfl | rfl := none <;> cases w with
      | absent => exact absurd rfl present
      | atom a => cases a <;> simp [rank]
      | or s => exact .inr (by rw [rank, rank]; omega)
  · exact .inl joined
  · exact .inl joined
  · rw [joined, ofChoices] at notTop ⊢
    split at notTop
    · rename_i keep
      rw [if_pos keep]
      obtain ⟨-, few, undefined⟩ := Choices.kept_iff.1 keep
      have grows := Choices.prefix_union v.choices w.choices
      have positive := List.length_pos_of_mem undefined
      cases v with
      | or s =>
        rcases Nat.lt_or_eq_of_le grows.length_le with more | same
        · right
          simp only [rank, choices] at more few ⊢
          omega
        · left
          rw [← grows.eq_of_length same]
          rfl
      | atom a =>
        right
        cases a <;> (simp only [rank]; omega)
      | absent =>
        right
        simp only [rank]
        omega
    · exact absurd rfl notTop

theorem rank_le (v : Value) : v.rank ≤ 5 := by
  cases v with
  | atom a => cases a <;> simp [rank]
  | _ => simp only [rank]; omega

/-! ### All joins -/

theorem accumulate_loose (reached : accumulate true x n = top) (later : n ≤ m) :
  accumulate true x m = top ∨ accumulate true x m = loose
  := by
  induction m, later using Nat.le_induction with
  | base => exact .inl reached
  | succ m later ih =>
    rw [accumulate]
    obtain isTop | isLoose := ih
    · rw [isTop, join_top]
      split <;> simp
    · rw [isLoose, join_loose]
      split <;> simp

theorem settles_of_ne_top (present : ∀ n, x n ≠ absent) (never : ∀ n, accumulate useOr x n ≠ top) :
  Settles useOr x
  := by
  have step (m : Nat) := rank_join (present m) (never (m + 1))
  let height (m : Nat) := (accumulate useOr x m).rank
  have mono : Monotone height := by
    refine monotone_nat_of_le_succ fun m => ?_
    obtain same | more := step m
    · exact (congrArg rank same).ge
    · exact more.le
  -- From an index of the highest rank on, no step can go higher.
  refine ⟨Function.argmin fun m => 5 - height m, fun m later => .inl ?_⟩
  refine (step m).resolve_right fun (more : height m < height (m + 1)) => ?_
  have highest := Function.argmin_le (fun m => 5 - height m) (m + 1)
  have bounded : height (m + 1) ≤ 5 := rank_le _
  have higher := mono later
  omega

theorem settles_of_stays {a b : Value}
    (between : ∀ m, n ≤ m → accumulate useOr x m = a ∨ accumulate useOr x m = b)
    (stays : ∀ m, n ≤ m → accumulate useOr x m = a → accumulate useOr x (m + 1) = a) :
  Settles useOr x
  := by
  by_cases found : ∃ k, n ≤ k ∧ accumulate useOr x k = a
  · obtain ⟨k, later, isA⟩ := found
    have all (m : Nat) (later' : k ≤ m) : accumulate useOr x m = a := by
      induction m, later' using Nat.le_induction with
      | base => exact isA
      | succ m later' ih => exact stays m (later.trans later') ih
    exact ⟨k, fun m later' => .inl ((all _ (by omega)).trans (all m later').symm)⟩
  · have all (m : Nat) (later : n ≤ m) : accumulate useOr x m = b :=
      (between m later).resolve_left fun isA => found ⟨m, later, isA⟩
    exact ⟨n, fun m later => .inl ((all _ (by omega)).trans (all m later).symm)⟩

theorem not_settles (reached : accumulate true x n = top)
    (opened : ∀ n, ∃ m, n ≤ m ∧ (x m).opens = true) (closed : ∀ n, ∃ m, n ≤ m ∧ (x m).closes = true) :
  ¬ Settles true x
  := by
  rintro ⟨k, settled⟩
  have same (m : Nat) (later : max n k ≤ m) : accumulate true x (m + 1) = accumulate true x m := by
    obtain same | equals := settled m (by omega)
    · exact same
    · obtain isA | isA := accumulate_loose reached (by omega : n ≤ m) <;>
        obtain isB | isB := accumulate_loose reached (by omega : n ≤ m + 1) <;>
        first
          | exact isB.trans isA.symm
          | rw [isA, isB] at equals
            cases equals
  have all (m : Nat) (later : max n k ≤ m) : accumulate true x m = accumulate true x (max n k) := by
    induction m, later using Nat.le_induction with
    | base => rfl
    | succ m later ih => exact (same m later).trans ih
  obtain isTop | isLoose := accumulate_loose reached (le_max_left n k)
  · obtain ⟨m, later, opens⟩ := opened (max n k)
    have next := same m later
    rw [accumulate, all m later, isTop, join_top, if_pos opens] at next
    cases next
  · obtain ⟨m, later, closes⟩ := closed (max n k)
    have next := same m later
    rw [accumulate, all m later, isLoose, join_loose, if_pos closes] at next
    cases next

/-- The joins of a sequence settle, unless they reach any value and choices are kept, and undefined
comes again and again, and other values do as well. -/
theorem joins_settle_iff (useOr : Bool) (x : Nat → Value) (present : ∀ n, x n ≠ absent) :
  Settles useOr x ↔ ¬ (useOr = true ∧ (∃ n, accumulate useOr x n = top) ∧
    (∀ n, ∃ m, n ≤ m ∧ (x m).opens = true) ∧ ∀ n, ∃ m, n ≤ m ∧ (x m).closes = true)
  := by
  constructor
  · rintro settles ⟨rfl, ⟨n, reached⟩, opened, closed⟩
    exact not_settles reached opened closed settles
  · intro notBoth
    by_cases never : ∀ n, accumulate useOr x n ≠ top
    · exact settles_of_ne_top present never
    obtain ⟨n, reached⟩ : ∃ n, accumulate useOr x n = top := by simpa using never
    cases useOr with
    | false =>
      have all (m : Nat) (later : n ≤ m) : accumulate false x m = top := by
        induction m, later using Nat.le_induction with
        | base => exact reached
        | succ m later ih => rw [accumulate, ih, join_top_false]
      exact settles_of_stays (b := top) (fun m later => .inl (all m later))
        fun m later _ => all _ (by omega)
    | true =>
      have between (k m : Nat) (later : max n k ≤ m) := accumulate_loose reached (by omega : n ≤ m)
      by_cases opened : ∀ n, ∃ m, n ≤ m ∧ (x m).opens = true
      · obtain ⟨k, closed⟩ : ∃ k, ∀ m, k ≤ m → (x m).closes = false := by
          simpa using fun closed => notBoth ⟨rfl, ⟨n, reached⟩, opened, closed⟩
        refine settles_of_stays (fun m later => (between k m later).symm) fun m later isLoose => ?_
        rw [accumulate, isLoose, join_loose, closed m (by omega)]
        rfl
      · obtain ⟨k, opened⟩ : ∃ k, ∀ m, k ≤ m → (x m).opens = false := by simpa using opened
        refine settles_of_stays (between k) fun m later isTop => ?_
        rw [accumulate, isTop, join_top, opened m (by omega)]
        rfl

def numbersThenUndefined (n : Nat) : Value := if n < 2 then .prim (.ofNat n) else .undefined

theorem joins_settle_numbersThenUndefined :
  (∀ n, numbersThenUndefined n ≠ absent) ∧ Settles true numbersThenUndefined
  := by
  have present (n : Nat) : numbersThenUndefined n ≠ absent := by
    unfold numbersThenUndefined
    split <;> exact Value.noConfusion
  refine ⟨present, (joins_settle_iff true _ present).2 ?_⟩
  rintro ⟨-, -, -, closed⟩
  obtain ⟨m, later, closes⟩ := closed 2
  rw [numbersThenUndefined, if_neg (by omega)] at closes
  cases closes

def alternating (n : Nat) : Value := if n < 2 ∨ n % 2 = 1 then .prim (.ofNat (n % 2)) else .undefined

theorem joins_never_settle : (∀ n, alternating n ≠ absent) ∧ ¬ Settles true alternating := by
  refine ⟨fun n => ?_, not_settles (n := 2) rfl (fun n => ?_) fun n => ?_⟩
  · unfold alternating
    split <;> exact Value.noConfusion
  · refine ⟨2 * n + 2, by omega, ?_⟩
    rw [alternating, if_neg (by omega)]
    rfl
  · refine ⟨2 * n + 1, by omega, ?_⟩
    rw [alternating, if_pos (by omega), Nat.mul_add_mod]
    rfl

end Value

end ScriptLens
