import Mathlib.Data.List.Pairwise
import ScriptLens.Proofs.Value.Join

/-!
# What abstract values stand for

An abstract value describes values of running scripts: an atom describes the value that it holds,
any value describes all of them, and a choice describes what its members describe.
-/

open ScriptLens.Double ScriptLens.Prim ScriptLens.Choices List

namespace ScriptLens

/-- A value of a running script. -/
inductive Datum where
  | primitive (c : Concrete)
  | bytes (t : Text)
  | pattern (r : Regexp)
  | nothing
  | object (id : Nat)
  /-- A function with the value on which it is called. -/
  | method (id : Nat) (receiver : Datum)

def Datum.toBool : Datum → Bool
  | primitive c => c.toBool
  | bytes t => !t.isEmpty
  | nothing => false
  | _ => true

def Prim.datum : Prim → Datum
  | num x => .primitive (.num x)
  | nan _ => .primitive (.num Double.nan)
  | text t => .primitive (.text t)
  | bool b => .primitive (.bool b)
  | bytes t => .bytes t
  | regexp r => .pattern r
  | none => .nothing

def Ref.datum (r : Ref) : Datum :=
  match r.this with
  | .unbound => .object r.target
  | .object i => .method r.target (.object i)
  | .prim p => .method r.target p.datum

namespace Atom

def datum? : Atom → Option Datum
  | undefined => some (.primitive .undefined)
  | null => some (.primitive .null)
  | top => none
  | bot => none
  | prim p => some p.datum
  | ref r => some r.datum

def Describes (a : Atom) (x : Datum) : Prop := a = top ∨ a.datum? = some x

end Atom

def Value.Describes (v : Value) (x : Datum) : Prop := ∃ a ∈ v.choices, a.Describes x

/-! ### Values that are taken for each other -/

/-- Different primitive values that are equal when they are compared. -/
inductive Prim.Confused : Prim → Prim → Prop
  | zeros (negative : Bool) : Confused (.num (.zero negative)) (.num (.zero !negative))
  | isFalse (negative : Bool) : Confused (.num (.zero negative)) (.bool false)
  | isTrue : Confused (.num (.ofNat 1)) (.bool true)
  | symm {p q : Prim} : Confused p q → Confused q p

/-- Different atoms that are equal when they are compared: primitive values, or references to an object
that are bound to such values. -/
inductive Atom.Confused : Atom → Atom → Prop
  | prim {p q : Prim} : p.Confused q → Confused (.prim p) (.prim q)
  | bound {i : Nat} {p q : Prim} : p.Confused q → Confused (.ref ⟨i, .prim p⟩) (.ref ⟨i, .prim q⟩)

theorem Double.eq_zero {x : Double} {negative : Bool} (same : x.eq (zero negative) = true) :
  ∃ sign, x = zero sign
  := by
  obtain ⟨-, -, rfl | ⟨isZero, -⟩ | ⟨-, isNaN⟩⟩ := eq_iff_alike.1 same
  · exact ⟨negative, rfl⟩
  · exact eq_zero_of_isZero isZero
  · rw [isNaN_zero] at isNaN
    cases isNaN

theorem Double.eq_one {x : Double} (same : x.eq (ofNat 1) = true) : x = ofNat 1 := by
  have notZero : (ofNat 1).isZero = false := by decide +kernel
  have notNaN : (ofNat 1).isNaN = false := by decide +kernel
  obtain ⟨-, -, rfl | ⟨-, isZero⟩ | ⟨-, isNaN⟩⟩ := eq_iff_alike.1 same
  · rfl
  · rw [notZero] at isZero
    cases isZero
  · rw [notNaN] at isNaN
    cases isNaN

namespace Prim

variable {p q : Prim}

theorem confused_of_truth {x : Double} {b : Bool} (same : x.eq (Concrete.boolNumber b) = true) :
  (num x).Confused (bool b)
  := by
  cases b with
  | false =>
    obtain ⟨negative, rfl⟩ := eq_zero same
    exact .isFalse negative
  | true =>
    rw [eq_one same]
    exact .isTrue

theorem eq_or_confused (same : p.equal q = true) : p = q ∨ p.Confused q := by
  cases p <;> cases q <;> simp only [equal, beq_iff_eq, Bool.false_eq_true] at same
  case num.num x y =>
    obtain ⟨-, -, rfl | ⟨zeroX, zeroY⟩ | ⟨-, nan⟩⟩ := eq_iff_alike.1 same
    · exact .inl rfl
    · obtain ⟨a, rfl⟩ := eq_zero_of_isZero zeroX
      obtain ⟨b, rfl⟩ := eq_zero_of_isZero zeroY
      by_cases signs : b = a
      · exact .inl (by rw [signs])
      · right
        rw [Bool.eq_not_of_ne signs]
        exact .zeros a
    · obtain ⟨-, proper, -⟩ := eq_iff_alike.1 same
      rw [proper] at nan
      cases nan
  case num.bool x b => exact .inr (confused_of_truth same)
  case bool.num b x => exact .inr (.symm (confused_of_truth (eq_symm same)))
  case none.none => exact .inl rfl
  all_goals exact .inl (by rw [same])

theorem Confused.equal (confused : p.Confused q) : p.equal q = true := by
  induction confused with
  | zeros negative => cases negative <;> decide
  | isFalse negative => cases negative <;> decide
  | isTrue => decide +kernel
  | symm _ same => exact equal_symm same

theorem Confused.ne (confused : p.Confused q) : p ≠ q := by
  induction confused with
  | zeros negative => cases negative <;> decide
  | isFalse => nofun
  | isTrue => nofun
  | symm _ differs => exact differs.symm

theorem eq_of_datum (proper : p.equal p = true) (same : q.datum = p.datum) : q = p := by
  cases q <;> cases p <;> cases same <;> first | rfl | cases proper

end Prim

namespace Atom

variable {a b c : Atom}

theorem datum_or_confused (alike : a.same b = true) : a.datum? = b.datum? ∨ a.Confused b := by
  have prims {p q : Prim} (alike : p.same q = true) : p.datum = q.datum ∨ p.Confused q := by
    rcases Prim.same_iff.1 alike with equals | ⟨tag, rfl, rfl⟩
    · rcases Prim.eq_or_confused equals with rfl | confused
      · exact .inl rfl
      · exact .inr confused
    · exact .inl rfl
  cases a <;> cases b <;> simp only [same, equal, Bool.false_eq_true] at alike
  case prim.prim p q =>
    rcases prims alike with same | confused
    · exact .inl (congrArg some same)
    · exact .inr (.prim confused)
  case ref.ref r q =>
    obtain ⟨i, this⟩ := r
    obtain ⟨j, this'⟩ := q
    obtain ⟨targets, receivers⟩ := Ref.same_iff.1 alike
    obtain rfl : i = j := targets
    cases this <;> cases this' <;>
      simp only [Receiver.same, Receiver.equal, beq_iff_eq, Bool.false_eq_true] at receivers
    case unbound.unbound => exact .inl rfl
    case object.object =>
      subst receivers
      exact .inl rfl
    case prim.prim p q =>
      rcases prims receivers with same | confused
      · exact .inl (congrArg (fun x => some (Datum.method i x)) same)
      · exact .inr (.bound confused)
  all_goals exact .inl rfl

theorem describes_of_same {x : Datum} (alike : a.same b = true) (apart : ¬ a.Confused b)
    (describes : b.Describes x) : a.Describes x
  := by
  rcases describes with rfl | held
  · cases a <;> first | exact .inl rfl | cases alike
  · rw [← (datum_or_confused alike).resolve_right apart] at held
    exact .inr held

section

variable (confused : a.Confused b)

include confused

theorem Confused.symm : b.Confused a := by
  cases confused with
  | prim confused => exact .prim confused.symm
  | bound confused => exact .bound confused.symm

theorem Confused.equal : a.equal b = true := by
  cases confused with
  | prim confused => exact confused.equal
  | bound confused => exact Ref.equal_iff.2 ⟨rfl, confused.equal⟩

theorem Confused.ne : a ≠ b := by
  cases confused with
  | prim confused => exact fun same => confused.ne (Atom.prim.inj same)
  | bound confused => exact fun same => confused.ne (Receiver.prim.inj (Ref.mk.inj (Atom.ref.inj same)).2)

theorem Confused.datum :
  ∃ x, a.datum? = some x ∧ ∀ c : Atom, c.datum? = some x → c = a
  := by
  cases confused with
  | @prim p q confused =>
    have proper := Prim.equal_trans confused.equal (Prim.equal_symm confused.equal)
    refine ⟨_, rfl, fun c same => ?_⟩
    cases c with
    | prim r => rw [eq_of_datum proper (Option.some.inj same)]
    | ref r =>
      obtain ⟨i, this⟩ := r
      cases this <;> cases p <;> cases same
    | _ => cases p <;> cases same
  | @bound i p q confused =>
    have proper := Prim.equal_trans confused.equal (Prim.equal_symm confused.equal)
    refine ⟨_, rfl, fun c same => ?_⟩
    cases c with
    | ref r =>
      obtain ⟨j, this⟩ := r
      cases this with
      | prim r =>
        obtain ⟨rfl, held⟩ := Datum.method.inj (Option.some.inj same)
        rw [eq_of_datum proper held]
      | _ => cases p <;> cases same
    | prim r => cases r <;> cases same
    | _ => cases same

end

end Atom

/-! ### Joins -/

theorem Choices.Separate.eq_of_same {a b : Atom} {s : List Atom} (separate : Separate s) (first : a ∈ s)
    (second : b ∈ s) (alike : a.same b = true) : a = b
  := by
  have : Std.Symm fun a b : Atom => a.same b = false := by
    constructor
    intro a b apart
    rw [Bool.eq_false_iff] at apart ⊢
    exact fun alike => apart (Atom.same_symm alike)
  by_contra differs
  rw [Pairwise.forall separate first second differs] at alike
  cases alike

namespace Value

variable {useOr : Bool} {v w : Value} {a b : Atom} {x : Datum}

theorem mem_choices_of_none (none : v = .absent ∨ v = .bot) (inside : a ∈ v.choices) : a = .bot
  := by
  rcases none with rfl | rfl
  · cases inside
  · exact mem_singleton.1 inside

theorem describes_of_top (top : .top ∈ v.choices) : v.Describes x
  := ⟨.top, top, .inl rfl⟩

theorem mem_join_left (useOr : Bool) (w : Value) (inside : a ∈ v.choices) (proper : a ≠ .bot) :
  .top ∈ (v.join useOr w).choices ∨ a ∈ (v.join useOr w).choices
  := by
  rcases join_cases useOr v w with ⟨none, -⟩ | ⟨-, same⟩ | ⟨-, same⟩ | union
  · exact (proper (mem_choices_of_none none inside)).elim
  · rw [same]
    exact .inr inside
  · rw [same]
    exact .inr inside
  · rw [union, ofChoices]
    split
    · exact .inr (mem_union_left _ _ inside)
    · exact .inl (mem_singleton_self _)

theorem same_mem_join (useOr : Bool) (inside : b ∈ w.choices)
    (proper : b ≠ .bot) :
  .top ∈ (v.join useOr w).choices ∨ b ∈ (v.join useOr w).choices ∨
    ∃ a ∈ (v.join useOr w).choices, a.same b = true
  := by
  rcases join_cases useOr v w with ⟨-, same⟩ | ⟨none, -⟩ | ⟨equals, same⟩ | union
  · rw [same]
    exact .inr (.inl inside)
  · exact (proper (mem_choices_of_none none inside)).elim
  · right
    right
    rw [same]
    exact covered_of_equal equals inside
  · rw [union, ofChoices]
    split
    · exact .inr (counted inside)
    · exact .inl (mem_singleton_self _)

theorem separate_join (separateV : Separate v.choices) (separateW : Separate w.choices) :
  Separate (v.join useOr w).choices
  := by
  rcases join_cases useOr v w with ⟨-, same⟩ | ⟨-, same⟩ | ⟨-, same⟩ | union
  · rwa [same]
  · rwa [same]
  · rwa [same]
  · rw [union, ofChoices]
    split
    · exact separateV.union
    · exact pairwise_singleton _ _

/-- A join of values whose choices have no repetitions describes all that its operands describe exactly
if it is any value or no member of the one is taken for a member of the other. -/
theorem join_describes_iff (separateV : Choices.Separate v.choices)
    (separateW : Choices.Separate w.choices) :
  (∀ x, v.Describes x ∨ w.Describes x → (v.join useOr w).Describes x) ↔
    .top ∈ (v.join useOr w).choices ∨ ∀ a ∈ v.choices, ∀ b ∈ w.choices, ¬ a.Confused b
  := by
  constructor
  · intro sound
    rw [or_iff_not_imp_left]
    intro known a insideV b insideW confused
    -- what `b` holds is described by `b` itself, but beside it there is `a`
    obtain ⟨x, held, only⟩ := confused.symm.datum
    obtain ⟨c, insideJ, top | same⟩ := sound x (.inr ⟨b, insideW, .inr held⟩)
    · exact known (top ▸ insideJ)
    obtain rfl := only c same
    have notBot : a ≠ .bot := by
      rintro rfl
      cases confused
    have insideA := (mem_join_left useOr w insideV notBot).resolve_left known
    apply confused.ne
    exact (separate_join separateV separateW).eq_of_same insideA insideJ (Atom.same_of_equal confused.equal)
  · rintro (top | apart) x described
    · exact describes_of_top top
    have notBot {a : Atom} (describes : a.Describes x) : a ≠ .bot := by
      rintro rfl
      rcases describes with impossible | impossible <;> cases impossible
    rcases described with ⟨a, inside, describes⟩ | ⟨b, inside, describes⟩
    · rcases mem_join_left useOr w inside (notBot describes) with top | found
      · exact describes_of_top top
      · exact ⟨a, found, describes⟩
    · rcases same_mem_join useOr inside (notBot describes) with top | found | found
      · exact describes_of_top top
      · exact ⟨b, found, describes⟩
      · obtain ⟨a, found, alike⟩ := found
        rcases mem_join found with rfl | insideV | insideW
        · exact describes_of_top found
        · exact ⟨a, found, Atom.describes_of_same alike (apart a insideV b inside) describes⟩
        · rw [separateW.eq_of_same insideW inside alike] at found
          exact ⟨b, found, describes⟩

/-- A value that is undefined or a function with its receiver keeps both when the function is joined to it. -/
theorem join_describes_choice :
  let function : Atom := .ref ⟨1, .prim (.bool true)⟩
  Choices.Separate (or [.undefined, function]).choices ∧ Choices.Separate (atom function).choices ∧
    ∀ x, (or [.undefined, function]).Describes x ∨ (atom function).Describes x →
      ((or [.undefined, function]).join true (atom function)).Describes x
  := by
  intro function
  have separateV : Choices.Separate (or [.undefined, function]).choices := by decide
  have separateW : Choices.Separate (atom function).choices := by decide
  refine ⟨separateV, separateW, (join_describes_iff separateV separateW).2 (.inr ?_)⟩
  intro a insideV b insideW confused
  obtain rfl := mem_singleton.1 insideW
  rcases mem_pair.1 insideV with rfl | rfl
  · cases confused
  · exact confused.ne rfl

/-- The join of the number one and the truth value is the number one, which does not describe the truth
value. -/
theorem join_one_true :
  let one : Value := .atom (.prim (.num (.ofNat 1)))
  let truth : Value := .atom (.prim (.bool true))
  one.join true truth = one ∧ truth.Describes (.primitive (.bool true)) ∧
    ¬ (one.join true truth).Describes (.primitive (.bool true))
  := by
  intro one truth
  have same : one.join true truth = one := by rfl
  refine ⟨same, ⟨_, mem_singleton_self _, .inr rfl⟩, ?_⟩
  rw [same]
  rintro ⟨a, inside, describes⟩
  obtain rfl := mem_singleton.1 inside
  rcases describes with top | held
  · cases top
  · cases held

/-! ### Operations on choices -/

/-- A value that is no choice is taken as it is, and of a choice one member. -/
inductive Picks : Value → Value → Prop
  | whole {v : Value} : v.isOr = false → Picks v v
  | member {s : List Atom} {a : Atom} : a ∈ s → Picks (or s) (atom a)

def Offers (v w : Value) : Prop :=
  ∀ a ∈ w.choices, .top ∈ v.choices ∨ a ∈ v.choices ∨ ∃ b ∈ v.choices, b.same a = true

variable {u r : Value} {s : List Atom} {f : List Value → Except Failure Value}

theorem Offers.trans (first : u.Offers v) (second : v.Offers w) : u.Offers w := by
  intro a inside
  rcases second a inside with top | found | ⟨b, found, same⟩
  · rcases first .top top with top | top | ⟨c, top, alike⟩
    · exact .inl top
    · exact .inl top
    · cases c <;> cases alike
      exact .inl top
  · exact first a found
  · refine (first b found).imp_right fun found => .inr ?_
    rcases found with found | ⟨c, found, alike⟩
    · exact ⟨b, found, same⟩
    · exact ⟨c, found, Atom.same_trans alike same⟩

theorem ofResults_offers (inside : ∀ a ∈ w.choices, a ∈ s) :
  (ofResults useOr (ofList s)).Offers w
  := by
  intro a given
  have found : a ∈ ofList s ∨ ∃ b ∈ ofList s, b.same a = true :=
    counted (inside a given)
  unfold ofResults ofChoices
  split <;> split
  · rename_i single _
    rw [single] at found
    exact .inr found
  · exact .inl (mem_singleton_self _)
  · exact .inr found
  · exact .inl (mem_singleton_self _)

theorem mem_of_mapM_ok {α β : Type} {g : α → Except Failure β} {l : List α} {results : List β}
    (run : l.mapM g = .ok results) {a : α} (inside : a ∈ l) : ∃ b ∈ results, g a = .ok b
  := by
  induction l generalizing results with
  | nil => cases inside
  | cons c l ih =>
    rw [mapM_cons] at run
    obtain ⟨b, first, run⟩ := except_bind_eq_ok.1 run
    obtain ⟨bs, rest, same⟩ := except_bind_eq_ok.1 run
    cases same
    rcases mem_cons.1 inside with rfl | later
    · exact ⟨b, mem_cons_self, first⟩
    · obtain ⟨b', found, result⟩ := ih rest later
      exact ⟨b', mem_cons_of_mem _ found, result⟩

theorem lift_offers {done l picked : List Value} (run : lift useOr f done l = .ok r)
    (picks : Forall₂ Picks l picked) : ∃ v, f (done.reverse ++ picked) = .ok v ∧ r.Offers v
  := by
  induction picks generalizing done r with
  | nil =>
    rw [lift] at run
    exact ⟨r, by rwa [append_nil], fun _ inside => .inr (.inl inside)⟩
  | @cons v w l picked pick _ ih =>
    have moved : ∀ x : Value, (x :: done).reverse ++ picked = done.reverse ++ x :: picked := by simp
    cases pick with
    | whole single =>
      have next : lift useOr f done (v :: l) = lift useOr f (v :: done) l := by
        cases v <;> first | rfl | cases single
      rw [next] at run
      rw [← moved]
      exact ih run
    | @member s a inside =>
      rw [lift] at run
      obtain ⟨results, each, same⟩ := except_bind_eq_ok.1 run
      cases same
      obtain ⟨r', found, result⟩ := mem_of_mapM_ok each inside
      obtain ⟨v, applied, offers⟩ := ih result
      rw [← moved]
      exact ⟨v, applied,
        .trans (ofResults_offers fun b => (mem_flatMap.2 ⟨r', found, ·⟩)) offers⟩

theorem ofResults_ne_prim (useOr : Bool) (s : List Atom) (p : Prim) : ofResults useOr s ≠ .prim p
  := by
  unfold ofResults
  split
  · split
    · rename_i a kept
      obtain ⟨-, -, undefined⟩ := kept_iff.1 kept
      cases mem_singleton.1 undefined
      intro impossible
      cases impossible
    · intro impossible
      cases impossible
  · unfold ofChoices
    split <;> · intro impossible; cases impossible

theorem truth?_or (useOr : Bool) (s : List Atom) (b : Bool) : (or s).truth? useOr ≠ .ok (some b)
  := by
  intro found
  simp only [truth?, lift, except_bind_eq_ok] at found
  obtain ⟨v, ⟨results, -, lifted⟩, found⟩ := found
  cases lifted
  split at found
  · rename_i known
    exact ofResults_ne_prim _ _ _ known
  · cases found

theorem toBool_of_truth? {b : Bool} {x : Datum} (found : v.truth? useOr = .ok (some b))
    (proper : ∀ n, v = .prim (.num n) → n.isNaN = false) (described : v.Describes x) : x.toBool = b
  := by
  cases v with
  | absent => cases found
  | or s => exact absurd found (truth?_or useOr s b)
  | atom a =>
    obtain ⟨a, inside, held⟩ := described
    cases mem_singleton.1 inside
    have held : a.datum? = some x := by
      rcases held with rfl | held
      · cases found
      · exact held
    cases a with
    | ref r =>
      obtain ⟨i, this⟩ := r
      cases this <;> cases found <;> cases held <;> rfl
    | prim p =>
      cases held
      cases p <;> cases found <;>
        first | rfl | simp [Prim.datum, Datum.toBool, Concrete.toBool, proper _ rfl]
    | _ => cases found <;> cases held <;> rfl

/-- Whatever an operation gives for a selection of its operands' possibilities is offered by the result of
carrying it out on all of them.  In particular a truth is found for a value only if all that the value
describes have it. -/
theorem lifted_offers_selections (useOr : Bool) :
  (∀ f args r picked, lift useOr f [] args = .ok r → List.Forall₂ Picks args picked →
    ∃ v, f picked = .ok v ∧ r.Offers v) ∧
  ∀ (v : Value) b, v.truth? useOr = .ok (some b) → (∀ n, v = .prim (.num n) → n.isNaN = false) →
    ∀ x, v.Describes x → x.toBool = b
  := ⟨fun _ _ _ _ run picks => lift_offers run picks,
    fun _ _ found proper _ described => toBool_of_truth? found proper described⟩

/-- The first operand is given back: one of its members is forgotten when the results for the second
operand are united, but it is still offered. -/
theorem lifted_offers_selections_pair :
  let first : List Value → Except Failure Value := fun l => .ok (l.headD .absent)
  let args : List Value := [.or [.undefined, .prim (.bool true)], .or [.undefined, .null]]
  lift true first [] args = .ok (.or [.undefined, .top]) ∧
    (∃ v, first [.prim (.bool true), .null] = .ok v ∧ (or [.undefined, .top]).Offers v) ∧
    ∀ x, (Value.prim (.bool true)).Describes x → x.toBool = true
  := by
  intro first args
  have lifted : lift true first [] args = .ok (.or [.undefined, .top]) := rfl
  refine ⟨lifted, (lifted_offers_selections true).1 first args _ _ lifted ?_,
    (lifted_offers_selections true).2 _ true rfl fun n other => by cases other⟩
  exact .cons (.member (by simp)) (.cons (.member (by simp)) .nil)

end Value

end ScriptLens
