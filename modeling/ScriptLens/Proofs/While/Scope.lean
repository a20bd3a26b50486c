import ScriptLens.Proofs.Object.Join
import ScriptLens.Proofs.While.Value

/-!
# Objects of the while-language

A program of the while-language changes no object but the global scope, and there only the
properties that are its variables.
-/

namespace ScriptLens

open While Builtin

/-! ### Objects that stay as they are -/

namespace Builtin

def propsOf (i : Nat) : Props := ((objects[i - 1]?).map Obj.props).getD []

def globals : Props :=
  ((deferredName, deferredId) :: symbols).map fun p => (.text p.1, .ref ⟨p.2, .unbound⟩)

theorem propsOf_cases (i : Nat) :
  propsOf i = [] ∨ ∃ k j, propsOf i = [(k, .ref ⟨j, .unbound⟩)]
  := by
  have all : ∀ o ∈ objects, o.props = [] ∨ ∃ k j, o.props = [(k, .ref ⟨j, .unbound⟩)] := by
    simp [objects, Obj.builtin]
  rw [propsOf]
  cases found : objects[i - 1]? with
  | none =>
    left
    rfl
  | some o => apply all o (List.mem_of_getElem? found)

theorem propsOf_eq_nil {i : Nat} (last : deferredId ≤ i) : propsOf i = [] := by
  have outside : objects[i - 1]? = none := by
    apply List.getElem?_eq_none
    have : deferredId = objects.length + 1 := rfl
    omega
  rw [propsOf, outside]
  rfl

theorem globals_distinct : Props.Distinct globals
  := by decide

theorem globals_unique {k : Key} {v w : Value} (first : (k, v) ∈ globals) (second : (k, w) ∈ globals) :
  v = w
  := Option.some.inj ((globals_distinct.get?_eq first).symm.trans (globals_distinct.get?_eq second))

theorem mem_reserved {x : Text} {v : Value} (member : (.text x, v) ∈ globals) : x ∈ reserved
  := by
  obtain ⟨q, inside, same⟩ := List.mem_map.1 member
  obtain rfl := Key.text.inj (Prod.mk.inj same).1
  rcases List.mem_cons.1 inside with rfl | symbol
  · simp [reserved]
  · apply List.mem_cons_of_mem
    apply List.mem_cons_of_mem
    apply List.mem_cons_of_mem
    apply List.mem_map_of_mem symbol

theorem globals_ref {p : Key × Value} (member : p ∈ globals) : ∃ j, p.2 = .ref ⟨j, .unbound⟩ := by
  obtain ⟨q, -, rfl⟩ := List.mem_map.1 member
  use q.2

end Builtin

def Obj.Fixed (o : Obj) (i : Nat) : Prop := o.env = none ∧ o.props = propsOf i

def Heap.Fixed (h : Heap) : Prop := ∀ i o, i ≠ 0 → h.get? i = some o → o.Fixed i

theorem Heap.fixed_empty : Heap.Fixed {} := by
  intro i o _ found
  cases found

theorem Heap.Fixed.insert {h : Heap} {i : Nat} {o : Obj} (heap : h.Fixed) (fixed : i ≠ 0 → o.Fixed i) :
  (h.insert i o).Fixed
  := by
  intro j a positive found
  rw [Heap.lookup_insert] at found
  split at found
  · rename_i same
    subst same
    cases found
    apply fixed positive
  · apply heap j a positive found

namespace Obj

variable {a b o : Obj} {i : Nat}

theorem Fixed.copy (fixed : o.Fixed i) : o.copy.Fixed i
  := fixed

theorem Fixed.join (useOr : Bool) (left : a.Fixed i) (right : b.Fixed i) : (a.join useOr b).Fixed i
  := by
  obtain ⟨envA, propsA⟩ := left
  obtain ⟨envB, propsB⟩ := right
  constructor
  · rw [join_env, envA, envB]
    rfl
  · obtain ⟨ps, kept, joined⟩ := join_props useOr a b
    rw [propsB] at joined
    rw [propsA] at kept
    rcases propsOf_cases i with none | ⟨k, j, one⟩
    · rw [none] at kept joined ⊢
      obtain rfl : ps = [] := by simpa using kept
      rcases joined with joined | joined <;> rw [joined] <;> rfl
    · rw [one] at kept joined ⊢
      obtain rfl : ps = [(k, .ref ⟨j, .unbound⟩)] := by simpa [Value.isTop] using kept
      have same : Value.equal (.ref ⟨j, .unbound⟩) (.ref ⟨j, .unbound⟩) = true := by
        simp [Value.equal, Atom.equal, Ref.equal, Receiver.equal]
      rcases joined with joined | joined <;> rw [joined] <;>
        simp [joinKnown, joinAll, Props.get?, Props.contains, Key.same_iff, joinValues, same]

end Obj

/-! ### The global scope -/

/-- A global scope that holds what it has from the start and variables; it may have any further
properties. -/
structure Obj.Scope (o : Obj) : Prop where
  env : o.env = none
  missing : o.missing = .isTop
  distinct : Props.Distinct o.props
  listed : ∀ p ∈ o.props, p ∈ globals ∨ ∃ x, p.1 = .text x ∧ x ∉ reserved ∧ p.2.Plain

def Obj.Allows (o : Obj) (ρ : Store) : Prop :=
  ∀ x v, x ∉ reserved → o.get? (.text x) = some v → v.Holds (ρ x)

namespace Obj.Scope

variable {a b o : Obj} {x : Text} {v : Value} {ρ : Store}

section

variable (scope : o.Scope)

include scope

theorem plain (free : x ∉ reserved) (found : o.get? (.text x) = some v) : v.Plain := by
  rcases scope.listed _ (scope.distinct.get?_text.1 found) with builtin | ⟨y, name, -, plain⟩
  · apply (free (mem_reserved builtin)).elim
  · apply plain

theorem isText {p : Key × Value} (member : p ∈ o.props) : ∃ x, p.1 = .text x := by
  rcases scope.listed p member with builtin | ⟨x, name, -⟩
  · obtain ⟨q, -, rfl⟩ := List.mem_map.1 builtin
    exact ⟨q.1, rfl⟩
  · exact ⟨x, name⟩

theorem copy : o.copy.Scope
  := ⟨scope.env, scope.missing, scope.distinct, scope.listed⟩

theorem put (free : x ∉ reserved) (plain : v.Plain) : (o.put (.text x) v).Scope := by
  use scope.env, scope.missing, scope.distinct.set
  rintro ⟨k, w⟩ member
  rcases Props.mem_set member with new | ⟨w, old, rfl | ⟨same, rfl⟩⟩
  · cases new
    exact .inr ⟨x, rfl, free, plain⟩
  · apply scope.listed _ old
  · exact .inr ⟨x, Key.same_name.1 same, free, plain⟩

theorem drop : (o.drop (.text x)).Scope := by
  use scope.env, scope.missing, scope.distinct.sublist (Props.erase_sublist _ _)
  intro p member
  apply scope.listed p ((Props.erase_sublist _ _).subset member)

theorem setMember (free : x ∉ reserved) (plain : v.Plain) :
  (o.setMember (some (.text x)) v).Scope
  := by
  simp only [Obj.setMember, scope.missing, beq_self_eq_true, if_true]
  split
  · apply scope
  · apply scope.put free plain

end

variable {c : Concrete} {w : Value}

theorem allows_put (allows : ∀ y v, y ≠ x → y ∉ reserved →
      o.get? (.text y) = some v → v.Holds (ρ y)) (holds : v.Holds c) :
  (o.put (.text x) v).Allows (ρ.set x c)
  := by
  intro y w free found
  rw [Obj.get?, Obj.put, Props.get?_set] at found
  rw [Store.set]
  split at found
  · rename_i same
    cases found
    rw [if_pos (Key.text.inj (Key.same_name.1 same)).symm]
    apply holds
  · rename_i differs
    have other : y ≠ x := fun same => differs (Key.same_name.2 (congrArg Key.text same.symm))
    rw [if_neg other]
    apply allows y w other free found

theorem allows_assign (scope : o.Scope) (allows : o.Allows ρ) (holds : v.Holds c) :
  ((o.drop (.text x)).setMember (some (.text x)) v).Allows (ρ.set x c)
  := by
  have others : ∀ y w, y ≠ x → y ∉ reserved → (o.drop (.text x)).get? (.text y) = some w →
      w.Holds (ρ y) := by
    intro y w other free found
    apply allows y w free
    rw [← found]
    exact (Props.get?_erase _ fun same => other (Key.text.inj (Key.same_name.1 same)).symm).symm
  simp only [Obj.setMember, scope.drop.missing, beq_self_eq_true, if_true]
  split
  · intro y w free found
    have other : y ≠ x := by
      rintro rfl
      cases (scope.distinct.get?_erase_self _).symm.trans found
    rw [Store.set, if_neg other]
    apply others y w other free found
  · apply allows_put others holds

theorem allows_narrow (allows : o.Allows ρ) (holds : v.Holds (ρ x)) :
  (o.put (.text x) v).Allows ρ
  := by
  have same : ρ.set x (ρ x) = ρ := by
    funext y
    rw [Store.set]
    split
    · rename_i equal
      rw [equal]
    · rfl
  rw [← same]
  apply allows_put (fun y w _ => allows y w) holds

section

variable (useOr : Bool) (left : a.Scope) (right : b.Scope)

include left right

theorem join_eq :
  (a.join useOr b).missing = .isTop ∧
    (a.join useOr b).props = joinKnown useOr a.props b.props
  := by
  have missingA := left.missing
  have missingB := right.missing
  obtain ⟨ps, _, _, _, _, m, _, _, _, _⟩ := a
  obtain ⟨qs, _, _, _, _, n, _, _, _, _⟩ := b
  obtain rfl : m = .isTop := missingA
  obtain rfl : n = .isTop := missingB
  exact ⟨rfl, rfl⟩

theorem get?_join
    (found : (a.join useOr b).get? (.text x) = some v) :
  ∃ u w, a.get? (.text x) = some u ∧ b.get? (.text x) = some w ∧ v = u.join useOr w
  := by
  rw [Obj.get?, (left.join_eq useOr right).2, get?_joinKnown] at found
  obtain ⟨u, foundA, found⟩ := Option.bind_eq_some_iff.1 found
  obtain ⟨w, foundB, rfl⟩ := Option.map_eq_some_iff.1 found
  exact ⟨u, w, foundA, foundB, rfl⟩

theorem join : (a.join useOr b).Scope := by
  obtain ⟨missing, props⟩ := join_eq useOr left right
  have distinct : Props.Distinct (a.join useOr b).props := props ▸ distinct_joinKnown left.distinct
  constructor
  · rw [join_env, left.env, right.env]
    rfl
  · apply missing
  · apply distinct
  · rintro ⟨k, v⟩ member
    obtain ⟨x, rfl⟩ : ∃ x, k = .text x := by
      rw [props] at member
      obtain ⟨p, inside, isP⟩ := List.mem_filterMap.1 member
      obtain ⟨w, -, ⟨⟩⟩ := Option.map_eq_some_iff.1 isP
      apply left.isText inside
    obtain ⟨u, w, foundA, foundB, rfl⟩ := get?_join useOr left right (distinct.get?_text.2 member)
    have first := left.distinct.get?_text.1 foundA
    have second := right.distinct.get?_text.1 foundB
    rcases left.listed _ first with builtin | ⟨y, name, free, plain⟩
    · left
      rcases right.listed _ second with builtin' | ⟨y, name, free, -⟩
      · obtain rfl := globals_unique builtin builtin'
        obtain ⟨j, same⟩ := globals_ref builtin
        obtain rfl : u = _ := same
        simpa [Value.join, Value.equal, Atom.equal, Ref.equal, Receiver.equal] using builtin
      · obtain rfl := Key.text.inj name
        apply (free (mem_reserved builtin)).elim
    · obtain rfl := Key.text.inj name
      exact .inr ⟨x, rfl, free, plain.join useOr (right.plain free foundB)⟩

theorem allows_join
    (allows : a.Allows ρ ∨ b.Allows ρ) : (a.join useOr b).Allows ρ
  := by
  intro x v free found
  obtain ⟨u, w, foundA, foundB, rfl⟩ := get?_join useOr left right found
  apply (left.plain free foundA).holds_join useOr (right.plain free foundB)
  rcases allows with allows | allows
  · left
    apply allows x u free foundA
  · right
    apply allows x w free foundB

theorem allows_of_equal
    (agree : ∀ p ∈ a.props, ∃ w, b.get? p.1 = some w ∧ p.2.equal w = true) (allows : b.Allows ρ) :
  a.Allows ρ
  := by
  intro x v free found
  obtain ⟨w, other, equal⟩ := agree _ (left.distinct.get?_text.1 found)
  apply (left.plain free found).holds_of_equal (right.plain free other) equal
  apply allows x w free other

end

end Obj.Scope

end ScriptLens
