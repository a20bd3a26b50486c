import ScriptLens.Builtin.Convert
import ScriptLens.Proofs.Computation
import ScriptLens.Proofs.While.Language

/-!
# Abstract values in the while-language

What the abstract values of variables and conditions stand for, and why joins and operators on them
are sound.
-/

namespace ScriptLens

open Choices Concrete Except

theorem Text.beforeNul_eq {t : Text} (free : t.NulFree) : t.beforeNul = t := by
  rw [beforeNul, if_neg]
  intro inside
  apply free
  simpa [contains, toList] using inside

namespace Value

def known? : Value → Option Concrete
  | .undefined => some .undefined
  | .null => some .null
  | .prim (.num x) => some (.num x)
  | .prim (.nan _) => some (.num Double.nan)
  | .prim (.bool b) => some (.bool b)
  | .prim (.text t) => some (.text t)
  | _ => none

inductive Plain : Value → Prop
  | top : Plain .top
  | null : Plain .null
  | num {x : Double} : x.isNaN = false → Plain (.prim (.num x))
  | nan {tag : Nat} : Plain (.prim (.nan tag))
  | text {t : Text} : t.NulFree → Plain (.prim (.text t))

inductive Simple : Value → Prop
  | plain {v : Value} : Plain v → Simple v
  | bool {b : Bool} : Simple (.prim (.bool b))

def Holds (v : Value) (c : Concrete) : Prop := v = .top ∨ ∃ d, v.known? = some d ∧ d.Alike c

def Admits (v : Value) (c : Concrete) : Prop :=
  v = .top ∨ ∃ d, v.known? = some d ∧ d.unbool.Alike c.unbool

variable {v w : Value} {c d : Concrete} {b : Bool} {k : Kind}

theorem Holds.admits (holds : v.Holds c) : v.Admits c := by
  rcases holds with top | ⟨d, known, alike⟩
  · left
    apply top
  · right
    use d, known, alike.unbool

theorem holds_top (c : Concrete) : Holds .top c
  := .inl rfl

theorem holds_of_known (known : v.known? = some d) (alike : d.Alike c) : v.Holds c
  := .inr ⟨d, known, alike⟩

theorem Holds.trans (holds : v.Holds c) (alike : c.Alike d) : v.Holds d := by
  rcases holds with top | ⟨e, known, first⟩
  · left
    apply top
  · apply holds_of_known known (first.trans alike)

theorem alike_of_holds (known : v.known? = some d) (holds : v.Holds c) : d.Alike c := by
  rcases holds with rfl | ⟨e, known', alike⟩
  · cases known
  · cases known.symm.trans known'
    apply alike

theorem Plain.refs_eq (plain : v.Plain) : v.refs = []
  := by cases plain <;> rfl

theorem Plain.ref?_eq (plain : v.Plain) : v.ref? = none
  := by rw [ref?, plain.refs_eq]

theorem Plain.ne_absent (plain : v.Plain) : v ≠ .absent
  := by cases plain <;> nofun

theorem Plain.ne_bot (plain : v.Plain) : v ≠ .bot
  := by cases plain <;> nofun

theorem Simple.refs_eq (simple : v.Simple) : v.refs = [] := by
  cases simple with
  | plain plain => apply plain.refs_eq
  | bool => rfl

theorem Simple.refIds_eq (simple : v.Simple) : State.refIds v = [] := by
  rw [State.refIds, simple.refs_eq]
  rfl

/-! ### Joins -/

theorem Simple.atom (simple : v.Simple) :
  ∃ a, v = .atom a ∧ a ≠ .undefined ∧ a ≠ .bot ∧ ∀ r, a ≠ .ref r
  := by
  cases simple with
  | plain plain => cases plain <;> simp
  | bool => simp

theorem ofChoices_atoms (useOr : Bool) {a b : Atom} (left : a ≠ .undefined)
    (right : b ≠ .undefined) : ofChoices useOr (Choices.union [a] [b]) = .top
  := by
  have noUndefined : Choices.mem .undefined (Choices.union [a] [b]) = false := by
    rw [Bool.eq_false_iff]
    intro inside
    obtain ⟨c, member, same⟩ := List.any_eq_true.1 inside
    have isUndefined : c = .undefined := by
      cases c <;> simp_all [Atom.same, Atom.equal]
    have of : c = a ∨ c = b := by
      simp only [Choices.union, List.foldl_cons, List.foldl_nil, Choices.insert] at member
      split at member <;> simp_all
    rcases of with rfl | rfl
    · apply left isUndefined
    · apply right isUndefined
  rw [ofChoices, Choices.kept, noUndefined, Bool.and_false]
  rfl

theorem join_eq (useOr : Bool) (left : v.Simple) (right : w.Simple) :
  v.join useOr w = if v.equal w then v else .top
  := by
  obtain ⟨a, rfl, definedA, notBotA, -⟩ := left.atom
  obtain ⟨b, rfl, definedB, notBotB, -⟩ := right.atom
  have top := ofChoices_atoms useOr definedA definedB
  cases a <;> cases b <;> first
    | apply (notBotA rfl).elim
    | apply (notBotB rfl).elim
    | (simp only [join, choices]; rw [top])

theorem Simple.known_of_equal (left : v.Simple) (right : w.Simple) (equal : v.equal w = true) :
  (v = .top ∧ w = .top) ∨ ∃ d e, v.known? = some d ∧ w.known? = some e ∧
    d.unbool.Alike e.unbool ∧ ((v.Plain ↔ w.Plain) → d.Alike e)
  := by
  have number : ∀ {x y : Double}, x.eq y = true → (num x).Alike (.num y) :=
    fun same => (Double.eq_iff_alike.1 same).2.2
  cases left with
  | plain left =>
    cases left with
    | top =>
      cases right with
      | plain right =>
        cases right with
        | top =>
          left
          use rfl
        | _ => cases equal
      | bool => cases equal
    | null =>
      cases right with
      | plain right =>
        cases right with
        | null =>
          right
          use .null, .null, rfl, rfl, rfl, fun _ => rfl
        | _ => cases equal
      | bool => cases equal
    | @num x notNaN =>
      right
      cases right with
      | plain right =>
        cases right with
        | @num y _ => use .num x, .num y, rfl, rfl, number equal, fun _ => number equal
        | _ => cases equal
      | @bool b =>
        use .num x, .bool b, rfl, rfl, number equal
        intro same
        cases same.1 (.num notNaN)
    | nan =>
      cases right with
      | plain right => cases right <;> cases equal
      | bool => cases equal
    | @text t _ =>
      right
      cases right with
      | plain right =>
        cases right with
        | @text u _ =>
          obtain rfl := beq_iff_eq.1 equal
          use .text t, .text t, rfl, rfl, rfl, fun _ => rfl
        | _ => cases equal
      | bool => cases equal
  | @bool a =>
    cases right with
    | plain right =>
      cases right with
      | @num y notNaN =>
        right
        use .bool a, .num y, rfl, rfl, number equal
        intro same
        cases same.2 (.num notNaN)
      | _ => cases equal
    | @bool b =>
      right
      obtain rfl := beq_iff_eq.1 equal
      use .bool a, .bool a, rfl, rfl, Alike.refl _, fun _ => rfl

/-- How far the values of an expression are told apart: whether it may have both truth values and
numbers as values. -/
inductive Kind where
  | data
  | truth
  | mixed
deriving DecidableEq

inductive In : Kind → Value → Prop
  | data {v : Value} : Plain v → In .data v
  | unknown : In .truth .top
  | truth {b : Bool} : In .truth (.prim (.bool b))
  | mixed {v : Value} : Simple v → In .mixed v

theorem In.simple (inside : v.In k) : v.Simple := by
  cases inside with
  | data plain => apply Simple.plain plain
  | unknown => apply Simple.plain Plain.top
  | truth => apply Simple.bool
  | mixed simple => apply simple

def Covers (k : Kind) (v : Value) (c : Concrete) : Prop :=
  match k with
  | .mixed => v.Admits c
  | _ => v.Holds c

theorem Holds.covers (holds : v.Holds c) : v.Covers k c := by
  cases k with
  | mixed => apply holds.admits
  | _ => apply holds

theorem Covers.admits (covers : v.Covers k c) : v.Admits c := by
  cases k with
  | mixed => apply covers
  | _ => apply Holds.admits covers

theorem eq_top (isTop : v.isTop = true) : v = .top := by
  unfold Value.isTop at isTop
  split at isTop
  · rfl
  · cases isTop

theorem covers_top (k : Kind) (c : Concrete) : Covers k .top c
  := (holds_top c).covers

theorem In.covers_of_equal (left : v.In k)
    (right : w.In k) (equal : v.equal w = true) (covers : w.Covers k c) : v.Covers k c
  := by
  rcases left.simple.known_of_equal right.simple equal with
    ⟨rfl, -⟩ | ⟨d, e, knownV, knownW, counts, alike⟩
  · apply covers_top
  · have holds : ((v.Plain ↔ w.Plain) → w.Holds c → v.Holds c) := by
      rintro same (rfl | ⟨e', known, alike'⟩)
      · cases knownW
      · cases knownW.symm.trans known
        apply holds_of_known knownV ((alike same).trans alike')
    cases left with
    | data left =>
      cases right with
      | data right => apply holds ⟨fun _ => right, fun _ => left⟩ covers
    | unknown => cases knownV
    | truth =>
      cases right with
      | unknown => cases knownW
      | truth => apply holds ⟨nofun, nofun⟩ covers
    | mixed =>
      rcases covers with rfl | ⟨e', known, counts'⟩
      · cases knownW
      · cases knownW.symm.trans known
        right
        use d, knownV, counts.trans counts'

theorem In.top (k : Kind) : In k .top := by
  cases k with
  | data => apply In.data Plain.top
  | truth => apply In.unknown
  | mixed => apply In.mixed (.plain Plain.top)

theorem In.join (useOr : Bool) (left : v.In k) (right : w.In k) : (v.join useOr w).In k := by
  rw [join_eq useOr left.simple right.simple]
  split
  · apply left
  · apply In.top

theorem In.covers_join (useOr : Bool) (left : v.In k)
    (right : w.In k) (covers : v.Covers k c ∨ w.Covers k c) : (v.join useOr w).Covers k c
  := by
  rw [join_eq useOr left.simple right.simple]
  split
  · rename_i equal
    rcases covers with covers | covers
    · apply covers
    · apply left.covers_of_equal right equal covers
  · apply covers_top

theorem toBool_unbool (c : Concrete) : c.unbool.toBool = c.toBool := by
  cases c with
  | bool b => cases b <;> decide
  | _ => rfl

theorem In.toBool_eq (inside : v.In k) (known : v.known? = some d) (covers : v.Covers k c) :
  d.toBool = c.toBool
  := by
  rcases covers.admits with rfl | ⟨e, known', alike⟩
  · cases known
  · cases known.symm.trans known'
    rw [← toBool_unbool d, alike.toBool_eq, toBool_unbool]

theorem Simple.known_of_truth (simple : v.Simple) (truth : v.truth = .ok b) :
  ∃ d, v.known? = some d ∧ d.toBool = b
  := by
  cases simple with
  | plain plain =>
    cases plain with
    | top => cases truth
    | @num x notNaN =>
      use .num x, rfl
      rw [Concrete.toBool, notNaN]
      apply ok.inj truth
    | _ => refine ⟨_, rfl, ok.inj truth⟩
  | bool => refine ⟨_, rfl, ok.inj truth⟩

theorem In.toBool_of_truth (inside : v.In k) (covers : v.Covers k c) (truth : v.truth = .ok b) :
  c.toBool = b
  := by
  obtain ⟨d, known, same⟩ := inside.simple.known_of_truth truth
  rw [← inside.toBool_eq known covers, same]

theorem In.toBool_of_truth? {useOr : Bool}
    (inside : v.In k) (covers : v.Covers k c) (truth : v.truth? useOr = .ok (some b)) : c.toBool = b
  := by
  apply inside.toBool_of_truth covers
  obtain ⟨w, answer, decided⟩ := except_bind_eq_ok.1 truth
  obtain ⟨a, rfl, -⟩ := inside.simple.atom
  by_cases isTop : a = .top
  · subst isTop
    cases answer
    cases decided
  · have asked : (do return Value.prim (.bool (← (atom a).truth))) = ok w := by
      cases a with
      | top => apply (isTop rfl).elim
      | _ => apply answer
    obtain ⟨b', truth', ⟨⟩⟩ := except_bind_eq_ok.1 asked
    rw [truth', Option.some.inj (ok.inj decided)]

theorem Plain.holds_of_equal (left : v.Plain) (right : w.Plain)
    (equal : v.equal w = true) (holds : w.Holds c) : v.Holds c
  := (In.data left).covers_of_equal (.data right) equal holds

theorem Plain.join (useOr : Bool) (left : v.Plain) (right : w.Plain) : (v.join useOr w).Plain := by
  cases (In.data left).join useOr (.data right) with
  | data plain => apply plain

theorem Plain.holds_join (useOr : Bool) (left : v.Plain)
    (right : w.Plain) (holds : v.Holds c ∨ w.Holds c) : (v.join useOr w).Holds c
  := (In.data left).covers_join useOr (.data right) holds

/-! ### Operators -/

theorem Simple.known_of_concrete (simple : v.Simple) (known : v.concrete = .ok d) :
  v.known? = some d ∧ d.NulFree
  := by
  cases simple with
  | plain plain =>
    cases plain with
    | top => cases known
    | null | num | nan =>
      cases known
      exact ⟨rfl, trivial⟩
    | @text t free =>
      simp only [concrete] at known
      split at known
      · cases known
      · cases known
        rw [Text.beforeNul_eq free]
        use rfl, free
  | bool =>
    cases known
    exact ⟨rfl, trivial⟩

theorem ofConcrete_holds (tag : Nat) (free : c.NulFree) : (ofConcrete tag c).Holds c := by
  cases c with
  | num x =>
    cases isNaN : x.isNaN with
    | true =>
      apply holds_of_known (d := .num Double.nan)
      · simp [ofConcrete, Prim.ofDouble, isNaN, known?]
      · exact .inr (.inr ⟨rfl, isNaN⟩)
    | false =>
      apply holds_of_known (d := .num x)
      · simp [ofConcrete, Prim.ofDouble, isNaN, known?]
      · apply Alike.refl
  | text t =>
    rw [ofConcrete, Text.beforeNul_eq free]
    apply holds_of_known rfl
    rfl
  | _ =>
    apply holds_of_known rfl
    rfl

theorem ofConcrete_plain (tag : Nat) (free : c.NulFree)
    (data : ∀ b, c ≠ .bool b) (defined : c ≠ .undefined) : (ofConcrete tag c).Plain
  := by
  cases c with
  | undefined => apply (defined rfl).elim
  | null => apply Plain.null
  | num x =>
    cases isNaN : x.isNaN with
    | true =>
      simp only [ofConcrete, Prim.ofDouble, isNaN, if_true]
      apply Plain.nan
    | false =>
      simp only [ofConcrete, Prim.ofDouble, isNaN, Bool.false_eq_true, if_false]
      apply Plain.num isNaN
  | text t =>
    rw [ofConcrete, Text.beforeNul_eq free]
    apply Plain.text free
  | bool b => apply (data b rfl).elim

end Value

def UnaryOp.kind : UnaryOp → Value.Kind
  | .not => .truth
  | _ => .data

def BinaryOp.kind : BinaryOp → Value.Kind
  | .gt | .lt | .ge | .le | .eq | .ne | .identical | .different => .truth
  | _ => .data

def While.kindOf (t : Tree) : Value.Kind :=
  let op := (t.get .operator).text?.getD ""
  match t.kind with
  | .logicalExpression => .mixed
  | .unaryExpression => ((UnaryOp.ofText? op).map UnaryOp.kind).getD .data
  | .binaryExpression => ((BinaryOp.ofText? op).map BinaryOp.kind).getD .data
  | _ => .data

namespace Scene

variable {c : Scene} {useOr : Bool} {op : Text} {v w u : Value}

theorem unary_eq {o : UnaryOp} (isOp : UnaryOp.ofText? op = some o) (simple : v.Simple)
    (result : c.unary useOr op v = .ok w) :
  w = .top ∨ ∃ d, v.known? = some d ∧ d.NulFree ∧ w = .ofConcrete c.tag (.unary o d)
  := by
  have plain : c.unary useOr op v = c.unaryPlain op v := by
    obtain ⟨a, rfl, -⟩ := simple.atom
    rfl
  rw [plain] at result
  unfold unaryPlain at result
  cases known : v.isTop with
  | true =>
    left
    rw [known] at result
    apply (ok.inj result).symm
  | false =>
    right
    have carried : c.unaryKnown o v = .ok w := by
      rw [known, isOp] at result
      obtain ⟨a, rfl, -, -, noRef⟩ := simple.atom
      cases a with
      | ref r => apply (noRef r rfl).elim
      | _ => cases o <;> apply result
    obtain ⟨d, found, same⟩ := except_bind_eq_ok.1 carried
    obtain ⟨isKnown, free⟩ := simple.known_of_concrete found
    use d, isKnown, free, (ok.inj same).symm

theorem binary_eq {o : BinaryOp} (isOp : BinaryOp.ofText? op = some o) (left : v.Simple)
    (right : u.Simple) (result : c.binary useOr op v u = .ok w) :
  w = .top ∨ ∃ d e, v.known? = some d ∧ d.NulFree ∧ u.known? = some e ∧ e.NulFree ∧
    w = .ofConcrete c.tag (.binary o d e)
  := by
  have plain : c.binary useOr op v u = c.binaryPlain op v u := by
    obtain ⟨a, rfl, -⟩ := left.atom
    obtain ⟨b, rfl, -⟩ := right.atom
    rfl
  have notRef : ∀ {x : Value}, x.Simple → isRef x = false := by
    intro x simple
    obtain ⟨a, rfl, -, -, noRef⟩ := simple.atom
    cases a with
    | ref r => apply (noRef r rfl).elim
    | _ => rfl
  rw [plain, binaryPlain, isOp, notRef left, notRef right] at result
  cases known : v.isTop || u.isTop with
  | true =>
    left
    rw [known] at result
    apply (ok.inj result).symm
  | false =>
    right
    have carried : (do return Value.ofConcrete c.tag (.binary o (← v.concrete) (← u.concrete))) =
        ok w := by
      rw [known] at result
      cases o <;> apply result
    obtain ⟨d, foundD, rest⟩ := except_bind_eq_ok.1 carried
    obtain ⟨e, foundE, same⟩ := except_bind_eq_ok.1 rest
    obtain ⟨isKnownD, freeD⟩ := left.known_of_concrete foundD
    obtain ⟨isKnownE, freeE⟩ := right.known_of_concrete foundE
    use d, e, isKnownD, freeD, isKnownE, freeE, (ok.inj same).symm

theorem unary_sound {o : UnaryOp} {k : Value.Kind} (isOp : UnaryOp.ofText? op = some o)
    (operand : v.In k) (suits : o = .not ∨ k = .data) (result : c.unary useOr op v = .ok w) :
  w.In o.kind ∧ ∀ d, v.Covers k d → w.Holds (.unary o d)
  := by
  rcases unary_eq isOp operand.simple result with rfl | ⟨e, known, free, rfl⟩
  · use Value.In.top _, fun d _ => Value.holds_top _
  · have holds := Value.ofConcrete_holds c.tag (unary_nulFree o e)
    constructor
    · cases o with
      | not => apply Value.In.truth
      | _ =>
        apply Value.In.data
        apply Value.ofConcrete_plain c.tag (unary_nulFree _ e) <;> nofun
    · intro d covers
      apply holds.trans
      rcases suits with rfl | rfl
      · rw [Concrete.unary, Concrete.unary, operand.toBool_eq known covers]
        apply Alike.refl
      · apply Alike.unary
        apply Value.alike_of_holds known covers

theorem binary_sound {o : BinaryOp} (isOp : BinaryOp.ofText? op = some o) (noDivision : o ≠ .div)
    (left : v.Plain) (right : u.Plain) (result : c.binary useOr op v u = .ok w) :
  w.In o.kind ∧ ∀ d e, v.Holds d → u.Holds e → w.Holds (.binary o d e)
  := by
  rcases binary_eq isOp (.plain left) (.plain right) result with
    rfl | ⟨d', e', knownD, freeD, knownE, freeE, rfl⟩
  · use Value.In.top _, fun d e _ _ => Value.holds_top _
  · have free := binary_nulFree o freeD freeE
    constructor
    · cases o with
      | gt | lt | ge | le | eq | ne | identical | different => apply Value.In.truth
      | add =>
        apply Value.In.data
        apply Value.ofConcrete_plain c.tag free <;>
          (cases d' <;> cases e' <;> nofun)
      | _ =>
        apply Value.In.data
        apply Value.ofConcrete_plain c.tag free <;> nofun
    · intro d e holdsD holdsE
      apply (Value.ofConcrete_holds c.tag free).trans
      apply Alike.binary noDivision
      · apply Value.alike_of_holds knownD holdsD
      · apply Value.alike_of_holds knownE holdsE

end Scene

end ScriptLens
