import ScriptLens.Proofs.Value.Join

/-!
# Joins of objects

What is found in `Obj.join` under a key is above what is found there in the two objects.
-/

namespace ScriptLens

open Props

theorem Key.same_iff {k l : Key} : k.same l = true ↔ k.canonical = l.canonical
  := by rw [Key.same, beq_iff_eq]

theorem Key.same_name {k : Key} {x : Text} : k.same (.text x) = true ↔ k = .text x := by
  rw [Key.same_iff]
  cases k with
  | num y =>
    rw [canonical]
    split <;> exact iff_of_false Key.noConfusion Key.noConfusion
  | bool b => exact iff_of_false Key.noConfusion Key.noConfusion
  | _ => rfl

namespace Props

variable {ps qs : Props} {k l : Key} {v : Value}

def Distinct (ps : Props) : Prop := ps.Pairwise fun p q => p.1.same q.1 = false

instance : Decidable (Distinct ps) :=
  inferInstanceAs (Decidable (ps.Pairwise fun p q => p.1.same q.1 = false))

theorem get?_congr (same : k.same l = true) : ps.get? k = ps.get? l := by
  induction ps with
  | nil => rfl
  | cons p ps ih =>
    have heads : p.1.same k = p.1.same l := by
      rw [Key.same, Key.same, Key.same_iff.1 same]
    rw [get?, get?, heads, ih]

theorem Distinct.get?_eq (distinct : Distinct ps) (inside : (k, v) ∈ ps) : ps.get? k = some v := by
  induction ps with
  | nil => cases inside
  | cons p ps ih =>
    obtain ⟨others, distinct⟩ := List.pairwise_cons.1 distinct
    rw [get?]
    rcases List.mem_cons.1 inside with rfl | inside
    · rw [if_pos (Key.same_iff.2 rfl)]
    · rw [if_neg (Bool.eq_false_iff.1 (others _ inside)), ih distinct inside]

theorem Distinct.get?_text {x : Text} (distinct : Distinct ps) :
  ps.get? (.text x) = some v ↔ (.text x, v) ∈ ps
  := by
  refine ⟨fun found => ?_, distinct.get?_eq⟩
  obtain ⟨l, same, inside⟩ := mem_of_get? found
  rw [← Key.same_name.1 same]
  apply inside

theorem Distinct.get?_of_filter {f : Key × Value → Bool} (distinct : Distinct ps)
    (found : get? (ps.filter f) k = some v) : ps.get? k = some v
  := by
  obtain ⟨l, same, inside⟩ := mem_of_get? found
  rw [← get?_congr same]
  apply distinct.get?_eq (List.mem_filter.1 inside).1

theorem get?_set (ps : Props) (k l : Key) (v : Value) :
  (ps.set k v).get? l = if k.same l then some v else ps.get? l
  := by
  induction ps with
  | nil => rfl
  | cons p ps ih =>
    obtain ⟨j, w⟩ := p
    rw [set]
    split
    · rename_i same
      rw [get?, get?, Key.same, Key.same, Key.same_iff.1 same]
      split <;> rfl
    · rename_i differs
      rw [get?, get?, ih]
      split
      · rename_i first
        rw [if_neg]
        intro second
        exact differs (Key.same_iff.2 ((Key.same_iff.1 first).trans (Key.same_iff.1 second).symm))
      · rfl

theorem get?_erase (ps : Props) (differs : ¬ k.same l = true) : (ps.erase k).get? l = ps.get? l
  := by
  induction ps with
  | nil => rfl
  | cons p ps ih =>
    obtain ⟨j, w⟩ := p
    rw [erase]
    split
    · rename_i same
      rw [get?, if_neg]
      intro first
      exact differs (Key.same_iff.2 ((Key.same_iff.1 same).symm.trans (Key.same_iff.1 first)))
    · rw [get?, get?, ih]

theorem erase_sublist (ps : Props) (k : Key) : (ps.erase k).Sublist ps := by
  induction ps with
  | nil => apply List.Sublist.refl
  | cons p ps ih =>
    rw [erase]
    split
    · apply List.sublist_cons_self
    · apply ih.cons_cons

theorem Distinct.get?_erase_self (distinct : Distinct ps) (k : Key) : (ps.erase k).get? k = none
  := by
  induction ps with
  | nil => rfl
  | cons p ps ih =>
    obtain ⟨others, distinct⟩ := List.pairwise_cons.1 distinct
    rw [erase]
    split
    · rename_i same
      rw [Option.eq_none_iff_forall_ne_some]
      intro v found
      obtain ⟨l, same', inside⟩ := mem_of_get? found
      apply Bool.eq_false_iff.1 (others _ inside)
      exact Key.same_iff.2 ((Key.same_iff.1 same).trans (Key.same_iff.1 same').symm)
    · rename_i differs
      rw [get?, if_neg differs, ih distinct]

theorem mem_set {p : Key × Value} (member : p ∈ ps.set k v) :
  p = (k, v) ∨ ∃ w, (p.1, w) ∈ ps ∧ (w = p.2 ∨ p.1.same k = true ∧ p.2 = v)
  := by
  induction ps with
  | nil => exact .inl (List.mem_singleton.1 member)
  | cons q ps ih =>
    rw [set] at member
    split at member
    · rename_i same
      rcases List.mem_cons.1 member with rfl | later
      · exact .inr ⟨q.2, List.mem_cons_self, .inr ⟨same, rfl⟩⟩
      · exact .inr ⟨p.2, List.mem_cons_of_mem _ later, .inl rfl⟩
    · rcases List.mem_cons.1 member with rfl | later
      · exact .inr ⟨_, List.mem_cons_self, .inl rfl⟩
      · rcases ih later with new | ⟨w, old, value⟩
        · exact .inl new
        · exact .inr ⟨w, List.mem_cons_of_mem _ old, value⟩

theorem Distinct.set (distinct : Distinct ps) : Distinct (ps.set k v) := by
  induction ps with
  | nil => apply List.pairwise_singleton
  | cons p ps ih =>
    obtain ⟨others, distinct⟩ := List.pairwise_cons.1 distinct
    rw [Props.set]
    split
    · exact List.pairwise_cons.2 ⟨others, distinct⟩
    · rename_i differs
      refine List.pairwise_cons.2 ⟨fun q member => ?_, ih distinct⟩
      rcases mem_set member with rfl | ⟨w, old, -⟩
      · exact Bool.eq_false_iff.2 differs
      · exact others (q.1, w) old

theorem get?_append (ps qs : Props) (k : Key) : get? (ps ++ qs) k = (ps.get? k).or (qs.get? k) := by
  induction ps with
  | nil => rfl
  | cons p ps ih =>
    rw [List.cons_append, get?, get?, ih]
    split <;> rfl

end Props

namespace Obj

variable {useOr : Bool} {a b : Obj} {k : Key}

theorem joinValues_eq (useOr : Bool) (v w : Value) : joinValues useOr v w = v.join useOr w := by
  unfold joinValues
  split
  · rename_i same
    unfold Value.join
    split
    · cases w <;> first | rfl | cases same
    · cases w with
      | atom b => cases b <;> first | rfl | cases same
      | _ => cases same
    · rfl
    · rfl
    · rw [if_pos same]
  · rfl

theorem get?_joinKnown (useOr : Bool) (ps qs : Props) (k : Key) :
  (joinKnown useOr ps qs).get? k =
    (ps.get? k).bind fun v => (qs.get? k).map fun w => v.join useOr w
  := by
  induction ps with
  | nil => rfl
  | cons p ps ih =>
    rw [joinKnown, List.filterMap_cons, Props.get?]
    by_cases same : p.1.same k = true
    · rw [get?_congr same, if_pos same]
      cases found : qs.get? k with
      | none =>
        rw [Option.map_none]
        change (joinKnown useOr ps qs).get? k = _
        rw [ih, found]
        cases Props.get? ps k <;> rfl
      | some w =>
        rw [Option.map_some]
        change Props.get? ((p.1, joinValues useOr p.2 w) :: _) k = _
        rw [Props.get?, if_pos same, joinValues_eq]
        rfl
    · rw [if_neg same, ← ih]
      cases qs.get? p.1 with
      | none => rfl
      | some w =>
        rw [Option.map_some]
        change Props.get? ((p.1, joinValues useOr p.2 w) :: _) k = _
        rw [Props.get?, if_neg same]
        rfl

def joinLeft (useOr : Bool) (ps qs : Props) : Props :=
  ps.map fun p =>
    match qs.get? p.1 with
    | some w => (p.1, joinValues useOr p.2 w)
    | none => (p.1, Value.join useOr .undefined p.2)

def joinRight (useOr : Bool) (ps qs : Props) : Props :=
  qs.filterMap fun q =>
    if ps.contains q.1 then none else some (q.1, Value.join useOr .undefined q.2)

section

variable (useOr : Bool)

theorem joinAll_eq (ps qs : Props) :
  joinAll useOr ps qs = joinLeft useOr ps qs ++ joinRight useOr ps qs
  := rfl

theorem get?_joinLeft (ps qs : Props) (k : Key) :
  (joinLeft useOr ps qs).get? k =
    (ps.get? k).map fun v =>
      match qs.get? k with
      | some w => v.join useOr w
      | none => Value.join useOr .undefined v
  := by
  induction ps with
  | nil => rfl
  | cons p ps ih =>
    have head : ∀ v, (match qs.get? p.1 with
        | some w => (p.1, joinValues useOr p.2 w)
        | none => (p.1, Value.join useOr .undefined p.2)) = v →
        v.1 = p.1 ∧ v.2 = match qs.get? p.1 with
          | some w => p.2.join useOr w
          | none => Value.join useOr .undefined p.2 := by
      rintro v rfl
      cases qs.get? p.1 with
      | none => exact ⟨rfl, rfl⟩
      | some w => exact ⟨rfl, joinValues_eq useOr p.2 w⟩
    obtain ⟨key, value⟩ := head _ rfl
    rw [joinLeft, List.map_cons, Props.get?, Props.get?, key, value]
    by_cases same : p.1.same k = true
    · rw [if_pos same, if_pos same, get?_congr same]
      rfl
    · rw [if_neg same, if_neg same]
      apply ih

theorem get?_joinRight (ps qs : Props) (k : Key) :
  (joinRight useOr ps qs).get? k =
    if (ps.get? k).isSome then none else (qs.get? k).map (Value.join useOr .undefined)
  := by
  induction qs with
  | nil =>
    split <;> rfl
  | cons q qs ih =>
    rw [joinRight, List.filterMap_cons]
    by_cases same : q.1.same k = true
    · rw [Props.contains, Props.get?_congr same, Props.get?, if_pos same]
      split
      · rename_i skipped
        split at skipped
        · rename_i listed
          change (joinRight useOr ps qs).get? k = _
          rw [ih, if_pos listed, if_pos listed]
        · cases skipped
      · rename_i q' kept
        split at kept
        · cases kept
        · rename_i listed
          cases kept
          rw [if_neg listed, Props.get?, if_pos same]
          rfl
    · rw [Props.get?, if_neg same, ← ih]
      split
      · rfl
      · rename_i q' kept
        split at kept
        · cases kept
        · cases kept
          rw [Props.get?, if_neg same]
          rfl

theorem join_shape (a b : Obj) :
  (a.missing = .isUndefined ∧ b.missing = .isUndefined ∧ (a.join useOr b).missing = .isUndefined ∧
      (a.join useOr b).props = joinAll useOr a.props b.props) ∨
    ((a.join useOr b).missing = .isTop ∧
      ∃ ps, (ps = a.props ∨ ps = a.props.filter fun p => !p.2.isTop) ∧
        (a.join useOr b).props = joinKnown useOr ps b.props)
  := by
  obtain ⟨ps, _, _, _, _, m, _, _, _, _⟩ := a
  obtain ⟨qs, _, _, _, _, n, _, _, _, _⟩ := b
  cases m <;> cases n
  · exact .inl ⟨rfl, rfl, rfl, rfl⟩
  · exact .inr ⟨rfl, _, .inr rfl, rfl⟩
  · exact .inr ⟨rfl, _, .inl rfl, rfl⟩
  · exact .inr ⟨rfl, _, .inl rfl, rfl⟩

theorem join_fields (a b : Obj) :
  ((a.join useOr b).body = if sameBody a.body b.body then a.body else none) ∧
    ((a.join useOr b).env = if a.env == b.env then a.env else none) ∧
    ((a.join useOr b).native = if a.native == b.native then a.native else none) ∧
    (a.join useOr b).params = a.params ∧ (a.join useOr b).isExpr = a.isExpr ∧
    (a.join useOr b).isPure = a.isPure
  := by
  obtain ⟨_, _, _, _, _, m, _, _, _, _⟩ := a
  obtain ⟨_, _, _, _, _, m', _, _, _, _⟩ := b
  cases m <;> cases m' <;> exact ⟨rfl, rfl, rfl, rfl, rfl, rfl⟩

theorem join_env (a b : Obj) :
  (a.join useOr b).env = if a.env = b.env then a.env else none
  := by simpa only [beq_iff_eq] using (join_fields useOr a b).2.1

end

/-- An object as joins expect it: no key is listed twice, and the values are as joins expect them. -/
structure Regular (o : Obj) : Prop where
  distinct : Distinct o.props
  values : ∀ p ∈ o.props, p.2.Regular

variable {o : Obj} {r : Ref} {ps qs : Props}

instance : Decidable o.Regular :=
  decidable_of_iff (Distinct o.props ∧ ∀ p ∈ o.props, p.2.Regular)
    ⟨fun ⟨distinct, values⟩ => ⟨distinct, values⟩, fun regular => ⟨regular.distinct, regular.values⟩⟩

theorem Regular.get? {v : Value} (regular : a.Regular) (found : a.get? k = some v) : v.Regular := by
  obtain ⟨l, -, inside⟩ := mem_of_get? found
  apply regular.values _ inside

theorem member_congr {l : Key} (same : k.same l = true) : a.member k = a.member l
  := by rw [member, member, get?, get?, get?_congr same]

def found (o : Obj) (k : Key) : Value :=
  (o.get? k).getD (if o.missing = .isTop then .top else .undefined)

theorem found_of_some {v : Value} (listed : a.get? k = some v) : a.found k = v
  := by rw [found, listed, Option.getD_some]

theorem found_of_none (unlisted : a.get? k = none) :
  a.found k = if a.missing = .isTop then .top else .undefined
  := by rw [found, unlisted, Option.getD_none]

theorem Regular.member_eq (regular : a.Regular) (k : Key) : a.member k = a.found k := by
  unfold Obj.member found
  cases listed : a.get? k with
  | none => simp only [beq_iff_eq, Option.getD_none]
  | some v =>
    have present := (regular.get? listed).present
    cases v <;> first | rfl | exact (present rfl).elim

theorem Regular.member_of_some {v : Value} (regular : a.Regular) (listed : a.get? k = some v) :
  a.member k = v
  := by rw [regular.member_eq, found_of_some listed]

theorem Regular.member (regular : a.Regular) (k : Key) : (a.member k).Regular := by
  rw [regular.member_eq]
  cases listed : a.get? k with
  | none =>
    rw [found_of_none listed]
    split
    · apply Value.regular_atom rfl
    · apply Value.regular_atom rfl
  | some v =>
    rw [found_of_some listed]
    apply regular.get? listed

theorem get?_of_mem_refs (reference : r ∈ (a.member k).refs) : a.get? k = some (a.member k) := by
  unfold member at reference ⊢
  split at reference
  · split at reference <;> cases reference
  · rename_i v _ found
    rw [found]
  · split at reference <;> cases reference

theorem get?_join {u : Value} (distinct : Distinct a.props)
    (listed : (a.join useOr b).get? k = some u) :
  (u = (a.found k).join useOr (b.found k) ∧ b.get? k = some (b.found k)) ∨
    (u = (b.found k).join useOr (a.found k) ∧ b.get? k = none)
  := by
  rw [Obj.get?] at listed
  rcases join_shape useOr a b with ⟨modeA, modeB, -, props⟩ | ⟨-, ps, kept, props⟩
  · rw [props, joinAll_eq, get?_append, get?_joinLeft, get?_joinRight] at listed
    rw [found, found, modeA, modeB, Obj.get?, Obj.get?]
    cases isA : Props.get? a.props k with
    | none =>
      cases isB : Props.get? b.props k with
      | none =>
        rw [isA, isB] at listed
        cases listed
      | some w =>
        rw [isA, isB] at listed
        exact .inl ⟨(Option.some.inj listed).symm, rfl⟩
    | some v =>
      cases isB : Props.get? b.props k with
      | none =>
        rw [isA, isB] at listed
        exact .inr ⟨(Option.some.inj listed).symm, rfl⟩
      | some w =>
        rw [isA, isB] at listed
        exact .inl ⟨(Option.some.inj listed).symm, rfl⟩
  · left
    rw [props, get?_joinKnown] at listed
    obtain ⟨v, listedA, listed⟩ := Option.bind_eq_some_iff.1 listed
    obtain ⟨w, listedB, rfl⟩ := Option.map_eq_some_iff.1 listed
    have isA : a.get? k = some v := by
      rcases kept with rfl | rfl
      · apply listedA
      · apply distinct.get?_of_filter listedA
    rw [found_of_some isA, found_of_some listedB]
    exact ⟨rfl, listedB⟩

theorem found_join (distinct : Distinct a.props) (k : Key) :
  (a.join useOr b).found k = .top ∨
    (a.join useOr b).found k = (a.found k).join useOr (b.found k) ∨
    ((a.join useOr b).found k = (b.found k).join useOr (a.found k) ∧ b.get? k = none)
  := by
  cases listed : (a.join useOr b).get? k with
  | none =>
    rcases join_shape useOr a b with ⟨modeA, modeB, mode, props⟩ | ⟨mode, -⟩
    · right
      left
      have both := listed
      rw [Obj.get?, props, joinAll_eq, get?_append, get?_joinLeft, get?_joinRight,
        Option.or_eq_none_iff, Option.map_eq_none_iff] at both
      obtain ⟨unlistedA, unlistedB⟩ := both
      rw [unlistedA] at unlistedB
      rw [found_of_none listed, found_of_none unlistedA,
        found_of_none (Option.map_eq_none_iff.1 unlistedB), mode, modeA, modeB]
      rfl
    · left
      rw [found_of_none listed, mode, if_pos rfl]
  | some u =>
    right
    rw [found_of_some listed]
    rcases get?_join distinct listed with ⟨is, -⟩ | both
    · exact .inl is
    · exact .inr both

def Proper (o : Obj) : Prop := ∀ p ∈ o.props, ∀ a ∈ p.2.choices, a.equal a = true

instance : Decidable o.Proper :=
  inferInstanceAs (Decidable (∀ p ∈ o.props, ∀ a ∈ p.2.choices, a.equal a = true))

theorem Regular.isProper (regular : a.Regular) : a.Proper
  := fun p inside => (regular.values p inside).proper

theorem Proper.found (proper : a.Proper) (k : Key) : ∀ c ∈ (a.found k).choices, c.equal c = true
  := by
  cases listed : a.get? k with
  | none =>
    rw [found_of_none listed]
    split <;> exact fun c only => List.mem_singleton.1 only ▸ rfl
  | some v =>
    rw [found_of_some listed]
    obtain ⟨l, -, inside⟩ := mem_of_get? listed
    apply proper _ inside

theorem above_join (distinct : Distinct a.props) (properA : a.Proper) (properB : b.Proper)
    (k : Key) :
  ((a.join useOr b).found k).Above (a.found k) ∧ ((a.join useOr b).found k).Above (b.found k)
  := by
  rcases found_join distinct k with top | is | ⟨is, -⟩
  · rw [top]
    exact ⟨Value.above_of_top (List.mem_singleton_self _), Value.above_of_top (List.mem_singleton_self _)⟩
  · rw [is]
    exact ⟨Value.above_join_left (properA.found k),
      Value.above_join_right (properA.found k) (properB.found k)⟩
  · rw [is]
    exact ⟨Value.above_join_right (properB.found k) (properA.found k),
      Value.above_join_left (properB.found k)⟩

theorem length_join {n : Int} (mode : (a.join useOr b).missing = .isUndefined)
    (known : (a.join useOr b).length = some n) : a.length = some n ∧ b.length = some n
  := by
  obtain ⟨_, _, _, _, _, m, _, _, l, _⟩ := a
  obtain ⟨_, _, _, _, _, m', _, _, l', _⟩ := b
  cases m <;> cases m'
  · have agreed : (if (l == l') = true then l else none) = some n := known
    split at agreed
    · rename_i same
      exact ⟨agreed, beq_iff_eq.1 same ▸ agreed⟩
    · cases agreed
  all_goals cases mode

/-- A join covers both objects: what is found in it under a key is above what is found there in either
of them, and a length that can be read from it is the length of both. -/
theorem join_overapproximates (useOr : Bool) (distinct : Props.Distinct a.props) (properA : a.Proper)
    (properB : b.Proper) :
  (∀ k, ((a.join useOr b).found k).Above (a.found k) ∧
      ((a.join useOr b).found k).Above (b.found k)) ∧
    ∀ n, (a.join useOr b).missing = .isUndefined → (a.join useOr b).length = some n →
      a.length = some n ∧ b.length = some n
  := ⟨above_join distinct properA properB, fun _ => length_join⟩

/-- Two arrays of one length, one of which has a property that the other one has not. -/
theorem join_overapproximates_arrays :
  let a : Obj := { props := [("0", .prim (.text "x"))], length := some 1 }
  let b : Obj := { props := [("0", .null), ("y", .ref ⟨3, .unbound⟩)], length := some 1 }
  ((a.join true b).found "y").Above .undefined ∧
    ((a.join true b).found "y").Above (.ref ⟨3, .unbound⟩) ∧ a.length = some 1 ∧ b.length = some 1
  := by
  intro a b
  obtain ⟨covers, length⟩ := join_overapproximates true (a := a) (b := b) (by decide)
    (by decide +kernel) (by decide +kernel)
  exact ⟨(covers "y").1, (covers "y").2, length 1 rfl rfl⟩

def Above (o a : Obj) : Prop := ∀ k, (o.member k).Above (a.member k)

theorem Above.trans {p q : Obj} (first : o.Above p) (second : p.Above q) : o.Above q
  := fun k => (first k).trans (second k)

theorem Regular.above_refl (regular : a.Regular) : a.Above a
  := fun k => Value.above_refl (regular.member k).proper

theorem distinct_joinKnown (distinct : Distinct ps) : Distinct (joinKnown useOr ps qs)
  := by
  apply List.Pairwise.filterMap _ _ distinct
  intro p p' differ q isQ q' isQ'
  obtain ⟨w, -, rfl⟩ := Option.map_eq_some_iff.1 isQ
  obtain ⟨w', -, rfl⟩ := Option.map_eq_some_iff.1 isQ'
  apply differ

theorem distinct_joinAll (distinctP : Distinct ps) (distinctQ : Distinct qs) :
  Distinct (joinAll useOr ps qs)
  := by
  have leftKey : ∀ p p', p ∈ ps → (match qs.get? p.1 with
      | some w => (p.1, joinValues useOr p.2 w)
      | none => (p.1, Value.join useOr .undefined p.2)) = p' → p'.1 = p.1 := by
    rintro p p' - rfl
    cases qs.get? p.1 <;> rfl
  rw [joinAll_eq]
  apply List.pairwise_append.2
  refine ⟨?_, ?_, ?_⟩
  · apply List.pairwise_map.2
    apply List.Pairwise.imp_of_mem _ distinctP
    intro p p' inside inside' differ
    rw [leftKey p _ inside rfl, leftKey p' _ inside' rfl]
    apply differ
  · apply List.Pairwise.filterMap _ _ distinctQ
    intro p p' differ q isQ q' isQ'
    split at isQ
    · cases isQ
    · split at isQ'
      · cases isQ'
      · cases isQ
        cases isQ'
        apply differ
  · intro p left q right
    obtain ⟨p', inside, isP⟩ := List.mem_map.1 left
    obtain ⟨q', -, isQ⟩ := List.mem_filterMap.1 right
    split at isQ
    · cases isQ
    · rename_i unlisted
      cases isQ
      rw [leftKey p' _ inside isP, Bool.eq_false_iff]
      intro same
      apply unlisted
      rw [contains, ← get?_congr same, distinctP.get?_eq inside]
      rfl

section

variable (regularA : a.Regular) (regularB : b.Regular)

include regularA regularB

theorem Regular.join : (a.join useOr b).Regular := by
  have distinct : Distinct (a.join useOr b).props := by
    rcases join_shape useOr a b with ⟨-, -, -, props⟩ | ⟨-, ps, kept, props⟩
    · rw [props]
      apply distinct_joinAll regularA.distinct regularB.distinct
    · rw [props]
      apply distinct_joinKnown
      rcases kept with rfl | rfl
      · apply regularA.distinct
      · apply List.Pairwise.filter _ regularA.distinct
  use distinct
  rintro ⟨k, u⟩ inside
  have members : ∀ {o : Obj}, o.Regular → (o.found k).Regular := fun regular =>
    regular.member_eq k ▸ regular.member k
  rcases get?_join regularA.distinct (distinct.get?_eq inside) with ⟨rfl, -⟩ | ⟨rfl, -⟩
  · apply (members regularA).join (members regularB)
  · apply (members regularB).join (members regularA)

theorem Regular.member_join (k : Key) :
  (a.join useOr b).member k = .top ∨
    (a.join useOr b).member k = (a.member k).join useOr (b.member k) ∨
    ((a.join useOr b).member k = (b.member k).join useOr (a.member k) ∧ b.get? k = none)
  := by
  rw [(regularA.join regularB).member_eq, regularA.member_eq, regularB.member_eq]
  apply found_join regularA.distinct k

theorem above_join_left : (a.join useOr b).Above a
  := by
  intro k
  rw [(regularA.join regularB).member_eq, regularA.member_eq]
  apply (above_join regularA.distinct regularA.isProper regularB.isProper k).1

theorem above_join_right : (a.join useOr b).Above b
  := by
  intro k
  rw [(regularA.join regularB).member_eq, regularB.member_eq]
  apply (above_join regularA.distinct regularA.isProper regularB.isProper k).2

theorem mem_refs_join
    (reference : r ∈ ((a.join useOr b).member k).refs) :
  r ∈ (a.member k).refs ∨ r ∈ (b.member k).refs
  := by
  rcases regularA.member_join regularB k with top | is | ⟨is, -⟩
  · rw [top] at reference
    cases reference
  · rw [is] at reference
    apply Value.mem_refs_join reference
  · rw [is] at reference
    apply (Value.mem_refs_join reference).symm

end

theorem refs_join_equal {q : Ref} (regularA : a.Regular) (regularB : b.Regular)
    (first : r ∈ ((a.join useOr b).member k).refs) (second : q ∈ (b.member k).refs) :
  r.equal q = true
  := by
  rcases regularA.member_join regularB k with top | is | ⟨-, unlisted⟩
  · rw [top] at first
    cases first
  · rw [is] at first
    apply Value.ref?_join (regularA.member k) (regularB.member k)
    · apply Value.ref?_eq ((regularA.member k).join (regularB.member k)).single first
    · apply Value.ref?_eq (regularB.member k).single second
  · have listed := get?_of_mem_refs second
    rw [unlisted] at listed
    cases listed

/-! ### Functions -/

/-- Whatever function the first object is, the second one is the same: one of the program has the same
body, parameters and environment, and a built-in one is as pure. -/
structure SameFunction (o a : Obj) : Prop where
  program : o.body.isSome → sameBody o.body a.body = true ∧ sameParams o.params a.params = true ∧
    o.isExpr = a.isExpr ∧ o.env = a.env
  native : o.native.isSome → o.native = a.native ∧ o.isPure = a.isPure

variable {α : Type}

theorem foldl_join_agreed {field : Obj → Option α} {same : Option α → Option α → Bool}
    (step : ∀ a b, field (a.join useOr b) = if same (field a) (field b) then field a else none)
    (os : List Obj) (a : Obj) :
  field (os.foldl (join useOr) a) = if os.all fun o => same (field a) (field o) then field a else none
  := by
  induction os generalizing a with
  | nil => rfl
  | cons o os ih =>
    rw [List.foldl_cons, ih, step, List.all_cons]
    cases same (field a) (field o) with
    | true => rfl
    | false => exact ite_self _

theorem foldl_join_kept {field : Obj → α} (step : ∀ a b, field (a.join useOr b) = field a)
    (os : List Obj) (a : Obj) : field (os.foldl (join useOr) a) = field a
  := by
  induction os generalizing a with
  | nil => rfl
  | cons o os ih => rw [List.foldl_cons, ih, step]

theorem isSome_ite_none {p : Bool} {x : Option α} :
  (if p then x else none).isSome = true ↔ x.isSome = true ∧ p = true
  := by cases p <;> simp

/-- However many objects are joined one after the other, the result is only a function that all of them
are exactly if those with one body have the same parameters and environment as well, and those with one
built-in function are equally pure. -/
theorem joins_sameFunction_iff (useOr : Bool) (a : Obj) (os : List Obj) :
  (∀ o ∈ a :: os, (os.foldl (join useOr) a).SameFunction o) ↔
    (a.body.isSome → (∀ o ∈ os, sameBody a.body o.body = true) →
      ∀ o ∈ os, sameParams a.params o.params = true ∧ a.isExpr = o.isExpr ∧ a.env = o.env) ∧
    (a.native.isSome → (∀ o ∈ os, a.native = o.native) → ∀ o ∈ os, a.isPure = o.isPure)
  := by
  have body := foldl_join_agreed (fun a b => (join_fields useOr a b).1) os a
  have env := foldl_join_agreed (fun a b => (join_fields useOr a b).2.1) os a
  have native := foldl_join_agreed (fun a b => (join_fields useOr a b).2.2.1) os a
  have params := foldl_join_kept (fun a b => (join_fields useOr a b).2.2.2.1) os a
  have isExpr := foldl_join_kept (fun a b => (join_fields useOr a b).2.2.2.2.1) os a
  have isPure := foldl_join_kept (fun a b => (join_fields useOr a b).2.2.2.2.2) os a
  generalize os.foldl (join useOr) a = j at *
  constructor
  · intro all
    refine ⟨fun some same o member => ?_, fun some same o member => ?_⟩
    · rw [if_pos (List.all_eq_true.2 same)] at body
      obtain ⟨-, -, -, first⟩ := (all a List.mem_cons_self).program (body ▸ some)
      have := (all o (List.mem_cons_of_mem _ member)).program (body ▸ some)
      rw [params, isExpr, first] at this
      exact this.2
    · have agreed : (os.all fun o => a.native == o.native) = true :=
        List.all_eq_true.2 fun o member => beq_iff_eq.2 (same o member)
      rw [if_pos agreed] at native
      rw [← isPure]
      exact ((all o (List.mem_cons_of_mem _ member)).native (native ▸ some)).2
  · rintro ⟨program, builtin⟩ o member
    constructor
    · intro some
      obtain ⟨some, same⟩ := isSome_ite_none.1 (body ▸ some)
      rw [if_pos same] at body
      have agrees := program some (List.all_eq_true.1 same)
      have same := List.all_eq_true.1 same
      have scopes : (os.all fun o => a.env == o.env) = true :=
        List.all_eq_true.2 fun o member => beq_iff_eq.2 (agrees o member).2.2
      rw [if_pos scopes] at env
      rw [body, params, isExpr, env]
      rcases List.mem_cons.1 member with rfl | member
      · refine ⟨?_, beq_self_eq_true _, rfl, rfl⟩
        cases o.body <;> simp [sameBody]
      · exact ⟨same o member, agrees o member⟩
    · intro some
      obtain ⟨some, same⟩ := isSome_ite_none.1 (native ▸ some)
      rw [if_pos same] at native
      have same : ∀ o ∈ os, a.native = o.native := fun o member =>
        beq_iff_eq.1 (List.all_eq_true.1 same o member)
      rw [native, isPure]
      rcases List.mem_cons.1 member with rfl | member
      · exact ⟨rfl, rfl⟩
      · exact ⟨same o member, builtin some same o member⟩

/-- The join of one function made in two scopes is a function that has no scope. -/
theorem join_forgets_scope :
  let made (scope : Nat) : Obj := { body := some (.node 7 .blockStatement []), env := some scope }
  ((made 1).join true (made 2)).body.isSome = true ∧
    ¬ ((made 1).join true (made 2)).SameFunction (made 1)
  := by
  intro made
  refine ⟨rfl, fun same => ?_⟩
  cases (same.program rfl).2.2.2

end Obj

end ScriptLens
