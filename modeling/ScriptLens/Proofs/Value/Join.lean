import ScriptLens.Proofs.Heap.Unify
import ScriptLens.Proofs.Number.Zero

/-!
# Joins of values

A value is above another one if it stands for all that the other one stands for.
-/

namespace ScriptLens

open Atom Receiver Choices List

/-! ### Equality of primitive values -/

theorem Double.eq_symm {x y : Double} (same : x.eq y = true) : y.eq x = true := by
  obtain ⟨first, second, alike⟩ := eq_iff_alike.1 same
  exact eq_iff_alike.2 ⟨second, first, alike.symm⟩

theorem Double.eq_trans {x y z : Double} (first : x.eq y = true) (second : y.eq z = true) :
  x.eq z = true
  := by
  obtain ⟨number, -, alike⟩ := eq_iff_alike.1 first
  obtain ⟨-, number', alike'⟩ := eq_iff_alike.1 second
  exact eq_iff_alike.2 ⟨number, number', alike.trans alike'⟩

namespace Prim

def number? : Prim → Option Double
  | num x => some x
  | bool b => some (Concrete.boolNumber b)
  | _ => Option.none

variable {p q : Prim}

theorem equal_iff :
  p.equal q = true ↔
    (∃ x y, p.number? = some x ∧ q.number? = some y ∧ x.eq y = true) ∨
      (p = q ∧ p.number? = Option.none ∧ ∀ tag, p ≠ nan tag)
  := by
  have truth : ∀ a b : Bool, (a == b) = (Concrete.boolNumber a).eq (Concrete.boolNumber b) := by
    decide
  cases p <;> cases q <;> simp [equal, number?, truth]

theorem equal_symm (same : p.equal q = true) : q.equal p = true := by
  rcases equal_iff.1 same with ⟨x, y, first, second, numbers⟩ | ⟨rfl, -⟩
  · exact equal_iff.2 (.inl ⟨y, x, second, first, Double.eq_symm numbers⟩)
  · apply same

theorem equal_trans {r : Prim} (first : p.equal q = true) (second : q.equal r = true) :
  p.equal r = true
  := by
  rcases equal_iff.1 first with ⟨x, y, isX, isY, numbers⟩ | ⟨rfl, -⟩
  · rcases equal_iff.1 second with ⟨y', z, isY', isZ, numbers'⟩ | ⟨rfl, -⟩
    · cases isY.symm.trans isY'
      exact equal_iff.2 (.inl ⟨x, z, isX, isZ, Double.eq_trans numbers numbers'⟩)
    · apply first
  · apply second

theorem same_iff : p.same q = true ↔ p.equal q = true ∨ ∃ tag, p = nan tag ∧ q = nan tag := by
  cases p <;> cases q <;> simp [same, equal]
  constructor <;> exact Eq.symm

theorem same_symm (alike : p.same q = true) : q.same p = true := by
  rcases same_iff.1 alike with equals | ⟨tag, isP, isQ⟩
  · exact same_iff.2 (.inl (equal_symm equals))
  · exact same_iff.2 (.inr ⟨tag, isQ, isP⟩)

theorem same_trans {r : Prim} (first : p.same q = true) (second : q.same r = true) : p.same r = true
  := by
  rcases same_iff.1 first with equals | ⟨tag, rfl, rfl⟩
  · rcases same_iff.1 second with equals' | ⟨tag, rfl, rfl⟩
    · exact same_iff.2 (.inl (equal_trans equals equals'))
    · exact first
  · exact second

theorem equal_of_same {r : Prim} (proper : p.equal q = true) (alike : q.same r = true) :
  p.equal r = true
  := by
  rcases same_iff.1 alike with equals | ⟨tag, rfl, rfl⟩
  · exact equal_trans proper equals
  · exact proper

end Prim

/-! ### Equality of references and atoms -/

/-- Receivers are the same object, there are none, or `R` relates the primitive values that they are. -/
@[mk_iff] inductive Receiver.Related (R : Prim → Prim → Prop) : Receiver → Receiver → Prop where
  | unbound : Related R .unbound .unbound
  | object (i : Nat) : Related R (.object i) (.object i)
  | prim {p q : Prim} : R p q → Related R (.prim p) (.prim q)

/-- Atoms are the same, but for primitive values that `R` relates. -/
@[mk_iff] inductive Atom.Related (R : Prim → Prim → Prop) : Atom → Atom → Prop where
  | undefined : Related R .undefined .undefined
  | null : Related R .null .null
  | top : Related R .top .top
  | bot : Related R .bot .bot
  | prim {p q : Prim} : R p q → Related R (.prim p) (.prim q)
  | ref (i : Nat) {x y : Receiver} : x.Related R y → Related R (.ref ⟨i, x⟩) (.ref ⟨i, y⟩)

theorem Ref.equal_iff {a b : Ref} :
  a.equal b = true ↔ a.target = b.target ∧ a.this.equal b.this = true
  := by rw [equal, Bool.and_eq_true, beq_iff_eq]

theorem Ref.same_iff {a b : Ref} : a.same b = true ↔ a.target = b.target ∧ a.this.same b.this = true
  := by rw [same, Bool.and_eq_true, beq_iff_eq]

namespace Atom

variable {R S T : Prim → Prim → Prop} {a b c : Atom}

theorem Related.refl (a : Atom) : a.Related Eq a := by
  cases a with
  | prim p => exact .prim rfl
  | ref r =>
    obtain ⟨i, x⟩ := r
    cases x with
    | unbound => exact .ref i .unbound
    | object j => exact .ref i (.object j)
    | prim p => exact .ref i (.prim rfl)
  | _ => constructor

theorem Related.symm (turn : ∀ {p q}, R p q → R q p) (related : a.Related R b) : b.Related R a := by
  cases related with
  | prim prims => exact .prim (turn prims)
  | ref i receivers =>
    cases receivers with
    | unbound => exact .ref i .unbound
    | object j => exact .ref i (.object j)
    | prim prims => exact .ref i (.prim (turn prims))
  | _ => constructor

theorem Related.comp (first : a.Related R b) (second : b.Related S c)
    (step : ∀ {p q r}, R p q → S q r → T p r) : a.Related T c
  := by
  cases first with
  | prim prims =>
    cases second with
    | prim prims' => exact .prim (step prims prims')
  | ref i receivers =>
    cases second with
    | ref _ receivers' =>
      cases receivers with
      | unbound =>
        cases receivers'
        exact .ref i .unbound
      | object j =>
        cases receivers'
        exact .ref i (.object j)
      | prim prims =>
        cases receivers' with
        | prim prims' => exact .ref i (.prim (step prims prims'))
  | _ =>
    cases second
    constructor

theorem Related.ids {r q : Ref} (related : (Atom.ref r).Related R (.ref q)) : r.ids = q.ids := by
  cases related with
  | ref i receivers => cases receivers <;> rfl

theorem equal_iff : a.equal b = true ↔ a.Related (fun p q => p.equal q = true) b := by
  rcases a with _ | _ | _ | _ | p | ⟨i, _ | j | p⟩ <;>
    rcases b with _ | _ | _ | _ | q | ⟨i', _ | j' | q⟩ <;>
    simp [equal, Ref.equal, Receiver.equal, related_iff, Receiver.related_iff]
  all_goals grind

theorem same_iff : a.same b = true ↔ a.Related (fun p q => p.same q = true) b := by
  rcases a with _ | _ | _ | _ | p | ⟨i, _ | j | p⟩ <;>
    rcases b with _ | _ | _ | _ | q | ⟨i', _ | j' | q⟩ <;>
    simp [same, equal, Ref.same, Receiver.same, Receiver.equal, related_iff, Receiver.related_iff]
  all_goals grind

theorem equal_symm (equals : a.equal b = true) : b.equal a = true
  := equal_iff.2 ((equal_iff.1 equals).symm Prim.equal_symm)

theorem equal_trans (first : a.equal b = true) (second : b.equal c = true) : a.equal c = true
  := equal_iff.2 ((equal_iff.1 first).comp (equal_iff.1 second) Prim.equal_trans)

theorem same_symm (alike : a.same b = true) : b.same a = true
  := same_iff.2 ((same_iff.1 alike).symm Prim.same_symm)

theorem same_trans (first : a.same b = true) (second : b.same c = true) : a.same c = true
  := same_iff.2 ((same_iff.1 first).comp (same_iff.1 second) Prim.same_trans)

theorem equal_of_same (proper : a.equal a = true) (alike : a.same b = true) : a.equal b = true
  := equal_iff.2 ((equal_iff.1 proper).comp (same_iff.1 alike) Prim.equal_of_same)

theorem same_of_equal (equals : a.equal b = true) : a.same b = true := by
  apply same_iff.2 ((Related.refl a).comp (equal_iff.1 equals) _)
  rintro p _ q rfl equals
  exact Prim.same_iff.2 (.inl equals)

end Atom

theorem Ref.ids_eq_of_equal {r q : Ref} (equals : r.equal q = true) : r.ids = q.ids
  := ((Atom.equal_iff (a := .ref r) (b := .ref q)).1 equals).ids

/-! ### Values -/

def Atom.Above (a b : Atom) : Prop := a = .top ∨ a.equal b = true

def Value.Above (v w : Value) : Prop := ∀ b ∈ w.choices, b = .bot ∨ ∃ a ∈ v.choices, a.Above b

theorem Atom.Above.trans {a b c : Atom} (first : a.Above b) (second : b.Above c) : a.Above c := by
  rcases first with top | equals
  · left
    apply top
  · rcases second with rfl | equals'
    · left
      cases a <;> first | rfl | cases equals
    · right
      apply equal_trans equals equals'

namespace Value

variable {v w : Value}

theorem Above.trans {u : Value} (first : u.Above v) (second : v.Above w) : u.Above w := by
  intro c inside
  rcases second c inside with bot | ⟨b, inside', above⟩
  · left
    apply bot
  · rcases first b inside' with rfl | ⟨a, inside'', above'⟩
    · left
      rcases above with impossible | equals
      · cases impossible
      · cases c <;> first | rfl | cases equals
    · right
      use a, inside'', above'.trans above

theorem above_of_top (top : .top ∈ v.choices) : v.Above w
  := fun _ _ => .inr ⟨.top, top, .inl rfl⟩

theorem Above.top_mem (above : v.Above w) (top : .top ∈ w.choices) : .top ∈ v.choices := by
  rcases above _ top with impossible | ⟨a, inside, isTop | equals⟩
  · cases impossible
  · rw [← isTop]
    apply inside
  · cases a <;> first | apply inside | cases equals

theorem Above.ref_mem {r : Ref} (above : v.Above w) (reference : r ∈ w.refs) :
  .top ∈ v.choices ∨ ∃ q ∈ v.refs, q.equal r = true
  := by
  obtain ⟨b, inside, is⟩ := mem_refs.1 reference
  obtain rfl := eq_ref is
  rcases above _ inside with impossible | ⟨a, inside, isTop | equals⟩
  · cases impossible
  · left
    rw [← isTop]
    apply inside
  · right
    cases a with
    | ref q => exact ⟨q, mem_refs.2 ⟨_, inside, rfl⟩, equals⟩
    | _ => cases equals

end Value

def Choices.Distinct (s : List Atom) : Prop := s.Pairwise fun a b => a.equal b = false

instance (s : List Atom) : Decidable (Distinct s) :=
  inferInstanceAs (Decidable (s.Pairwise fun a b => a.equal b = false))

/-- A value as joins expect it: a choice has no member twice, there is at most one reference among its
members, and no NaN is in it. -/
structure Value.Regular (v : Value) : Prop where
  present : v ≠ .absent
  distinct : Distinct v.choices
  single : v.refs.length ≤ 1
  proper : ∀ a ∈ v.choices, a.equal a = true

instance (v : Value) : Decidable v.Regular :=
  decidable_of_iff (v ≠ .absent ∧ Distinct v.choices ∧ v.refs.length ≤ 1 ∧
      ∀ a ∈ v.choices, a.equal a = true)
    ⟨fun ⟨present, distinct, single, proper⟩ => ⟨present, distinct, single, proper⟩,
      fun regular => ⟨regular.present, regular.distinct, regular.single, regular.proper⟩⟩

namespace Choices

variable {a : Atom} {s t : List Atom}

theorem mem_iff (proper : a.equal a = true) : mem a s = true ↔ ∃ b ∈ s, a.equal b = true := by
  rw [mem, any_eq_true]
  constructor
  · rintro ⟨b, inside, same⟩
    use b, inside, equal_of_same proper same
  · rintro ⟨b, inside, equals⟩
    use b, inside, same_of_equal equals

def Separate (s : List Atom) : Prop := s.Pairwise fun a b => a.same b = false

instance : Decidable (Separate s) :=
  inferInstanceAs (Decidable (s.Pairwise fun a b => a.same b = false))

theorem distinct_iff_separate (proper : ∀ a ∈ s, a.equal a = true) : Distinct s ↔ Separate s := by
  apply Pairwise.iff_of_mem
  intro a b inside _
  rw [Bool.eq_false_iff, Bool.eq_false_iff, not_iff_not]
  exact ⟨same_of_equal, equal_of_same (proper a inside)⟩

theorem covered_of_equal (same : equal s t = true) : ∀ b ∈ t, ∃ a ∈ s, a.same b = true := by
  intro b inside
  obtain ⟨-, all⟩ := Bool.and_eq_true_iff.1 same
  obtain ⟨a, found, alike⟩ := any_eq_true.1 (all_eq_true.1 all b inside)
  exact ⟨a, found, same_symm alike⟩

theorem Separate.insert (separate : Separate s) : Separate (insert s a) := by
  unfold Choices.insert
  split
  · apply separate
  · rename_i absent
    apply pairwise_append.2
    refine ⟨separate, pairwise_singleton _ _, ?_⟩
    intro b inside c last
    obtain rfl := mem_singleton.1 last
    rw [Bool.eq_false_iff]
    intro alike
    apply absent
    exact any_eq_true.2 ⟨b, inside, same_symm alike⟩

theorem Separate.union (separate : Separate s) : Separate (union s t) := by
  induction t generalizing s with
  | nil => apply separate
  | cons a t ih => apply ih separate.insert

variable {useOr : Bool}

theorem kept_iff : kept useOr s = true ↔ useOr = true ∧ s.length ≤ 2 ∧ .undefined ∈ s := by
  have undefined : mem .undefined s = true ↔ .undefined ∈ s := by
    rw [mem_iff rfl]
    constructor
    · rintro ⟨b, inside, equals⟩
      cases b <;> first | apply inside | cases equals
    · intro inside
      exact ⟨_, inside, rfl⟩
  rw [kept, Bool.and_eq_true, Bool.and_eq_true, decide_eq_true_eq, undefined, and_assoc]

theorem length_refs_of_kept (keep : kept useOr s = true) : (s.filterMap ref?).length ≤ 1 := by
  obtain ⟨-, few, undefined⟩ := kept_iff.1 keep
  match s, few with
  | [a], _ => apply Nat.le_trans (length_filterMap_le _ _) (Nat.le_refl 1)
  | [a, b], _ =>
    rcases mem_pair.1 undefined with rfl | rfl
    · apply length_filterMap_le _ [b]
    · cases a <;> simp [filterMap, ref?]
  | [], _ => apply Nat.zero_le

theorem counted {s t : List Atom} {a : Atom} (inside : a ∈ t) :
  a ∈ union s t ∨ ∃ b ∈ union s t, b.same a = true
  := by
  refine (mem_union_right inside s).imp_right fun found => ?_
  obtain ⟨b, found, alike⟩ := any_eq_true.1 found
  exact ⟨b, found, same_symm alike⟩

end Choices

namespace Value

variable {useOr : Bool} {v w : Value}

theorem above_refl (proper : ∀ a ∈ v.choices, a.equal a = true) : v.Above v
  := fun a inside => .inr ⟨a, inside, .inr (proper a inside)⟩

theorem above_unbound (i : Nat) : (Value.ref ⟨i, .unbound⟩).Above (.ref ⟨i, .unbound⟩) := by
  apply above_refl
  simp [choices, Atom.equal, Ref.equal, Receiver.equal]

variable {b a : Atom} {r : Ref}

theorem equal_symm (same : v.equal w = true) : w.equal v = true := by
  cases v <;> cases w <;> first
    | exact same
    | exact equal_symm same
    | exact (Bool.and_comm _ _).trans same

theorem covered_of_equal (same : v.equal w = true) (inside : b ∈ w.choices) :
  ∃ a ∈ v.choices, a.same b = true
  := by
  cases v <;> cases w <;> first | cases same | skip
  · cases inside
  · obtain rfl := mem_singleton.1 inside
    exact ⟨_, mem_singleton_self _, same_of_equal same⟩
  · exact covered_of_equal same b inside

theorem mem_of_equal (proper : ∀ a ∈ v.choices, a.equal a = true) (same : v.equal w = true)
    (inside : b ∈ w.choices) :
  ∃ a ∈ v.choices, a.equal b = true
  := by
  obtain ⟨a, found, alike⟩ := covered_of_equal same inside
  exact ⟨a, found, equal_of_same (proper a found) alike⟩

theorem join_cases (useOr : Bool) (v w : Value) :
  ((v = .absent ∨ v = .bot) ∧ v.join useOr w = w) ∨ ((w = .absent ∨ w = .bot) ∧ v.join useOr w = v) ∨
    (v.equal w = true ∧ v.join useOr w = v) ∨
    v.join useOr w = ofChoices useOr (union v.choices w.choices)
  := by
  unfold Value.join
  split
  · exact .inl ⟨.inl rfl, rfl⟩
  · exact .inl ⟨.inr rfl, rfl⟩
  · exact .inr (.inl ⟨.inl rfl, rfl⟩)
  · exact .inr (.inl ⟨.inr rfl, rfl⟩)
  · split
    · rename_i same
      exact .inr (.inr (.inl ⟨same, rfl⟩))
    · exact .inr (.inr (.inr rfl))

theorem above_none (none : w = .absent ∨ w = .bot) : v.Above w := by
  rcases none with rfl | rfl
  · nofun
  · intro b inside
    left
    apply mem_singleton.1 inside

theorem above_join_left (proper : ∀ a ∈ v.choices, a.equal a = true) : (v.join useOr w).Above v
  := by
  rcases join_cases useOr v w with ⟨none, -⟩ | ⟨-, same⟩ | ⟨-, same⟩ | union
  · apply above_none none
  · rw [same]
    apply above_refl proper
  · rw [same]
    apply above_refl proper
  · rw [union, ofChoices]
    split
    · intro b inside
      exact .inr ⟨b, mem_union_left _ _ inside, .inr (proper b inside)⟩
    · apply above_of_top
      apply mem_singleton_self

theorem mem_join_right (properV : ∀ a ∈ v.choices, a.equal a = true)
    (properW : ∀ a ∈ w.choices, a.equal a = true) (inside : b ∈ w.choices) :
  b = .bot ∨ v.join useOr w = .top ∨ ∃ a ∈ (v.join useOr w).choices, a.equal b = true
  := by
  rcases join_cases useOr v w with ⟨-, same⟩ | ⟨none, -⟩ | ⟨equals, same⟩ | union
  · right
    right
    rw [same]
    use b, inside, properW b inside
  · left
    rcases none with rfl | rfl
    · cases inside
    · apply mem_singleton.1 inside
  · right
    right
    rw [same]
    apply mem_of_equal properV equals inside
  · right
    rw [union, ofChoices]
    split
    · right
      rcases mem_union_right inside v.choices with found | found
      · use b, found, properW b inside
      · obtain ⟨a, found, equals⟩ := (mem_iff (properW b inside)).1 found
        use a, found, Atom.equal_symm equals
    · left
      rfl

theorem above_join_right (properV : ∀ a ∈ v.choices, a.equal a = true)
    (properW : ∀ a ∈ w.choices, a.equal a = true) : (v.join useOr w).Above w
  := by
  intro b inside
  rcases mem_join_right properV properW inside with bot | top | ⟨a, found, equals⟩
  · left
    apply bot
  · rw [top]
    exact .inr ⟨.top, mem_singleton_self _, .inl rfl⟩
  · exact .inr ⟨a, found, .inr equals⟩

theorem mem_join (inside : a ∈ (v.join useOr w).choices) : a = .top ∨ a ∈ v.choices ∨ a ∈ w.choices
  := by
  rcases join_cases useOr v w with ⟨-, same⟩ | ⟨-, same⟩ | ⟨-, same⟩ | union
  · rw [same] at inside
    exact .inr (.inr inside)
  · rw [same] at inside
    exact .inr (.inl inside)
  · rw [same] at inside
    exact .inr (.inl inside)
  · rw [union, ofChoices] at inside
    split at inside
    · right
      apply of_mem_union _ _ inside
    · left
      apply mem_singleton.1 inside

theorem mem_refs_join (reference : r ∈ (v.join useOr w).refs) : r ∈ v.refs ∨ r ∈ w.refs := by
  obtain ⟨a, inside, is⟩ := mem_refs.1 reference
  rcases mem_join inside with rfl | left | right
  · cases is
  · exact .inl (mem_refs.2 ⟨a, left, is⟩)
  · exact .inr (mem_refs.2 ⟨a, right, is⟩)

theorem regular_atom (proper : a.equal a = true) : (Value.atom a).Regular := by
  constructor
  · nofun
  · apply pairwise_singleton
  · apply length_filterMap_le _ [a]
  · intro b inside
    rw [mem_singleton.1 inside]
    apply proper

theorem Regular.join (regularV : v.Regular) (regularW : w.Regular) : (v.join useOr w).Regular := by
  rcases join_cases useOr v w with ⟨-, same⟩ | ⟨-, same⟩ | ⟨-, same⟩ | union
  · rw [same]
    apply regularW
  · rw [same]
    apply regularV
  · rw [same]
    apply regularV
  · rw [union, ofChoices]
    split
    · rename_i keep
      have proper : ∀ a ∈ Choices.union v.choices w.choices, a.equal a = true := by
        intro a inside
        rcases of_mem_union _ _ inside with left | right
        · apply regularV.proper a left
        · apply regularW.proper a right
      have separate := (distinct_iff_separate regularV.proper).1 regularV.distinct
      constructor
      · nofun
      · apply (distinct_iff_separate proper).2 separate.union
      · apply length_refs_of_kept keep
      · apply proper
    · apply regular_atom rfl

theorem ref?_eq (single : v.refs.length ≤ 1) (reference : r ∈ v.refs) : v.ref? = some r := by
  unfold ref?
  match isRefs : v.refs, single, reference with
  | [q], _, only =>
    simp only
    rw [mem_singleton.1 only]

theorem ref?_join {q : Ref} (regularV : v.Regular) (regularW : w.Regular)
    (first : (v.join useOr w).ref? = some r) (second : w.ref? = some q) : r.equal q = true
  := by
  obtain ⟨b, inside, is⟩ := mem_refs.1 (ref?_mem second)
  obtain rfl := eq_ref is
  rcases mem_join_right regularV.proper regularW.proper inside with bot | top | ⟨a, found, equals⟩
  · cases bot
  · rw [top] at first
    cases first
  · cases a with
    | ref q' =>
      have same := ref?_eq (regularV.join regularW).single (mem_refs.2 ⟨_, found, rfl⟩)
      cases first.symm.trans same
      apply equals
    | _ => cases equals

end Value

end ScriptLens
