import ScriptLens.Domain.Prim
import ScriptLens.Failure

/-!
# Abstract values

An `Atom` is one possibility: undefined, null, a known primitive value, a reference, any value at
all or none.
-/

namespace ScriptLens

/-- What a function taken from an object is bound to. -/
inductive Receiver where
  | unbound
  | object (id : Nat)
  | prim (p : Prim)
deriving DecidableEq

namespace Receiver

def equal : Receiver → Receiver → Bool
  | unbound, unbound => true
  | object i, object j => i == j
  | prim p, prim q => p.equal q
  | _, _ => false

def same : Receiver → Receiver → Bool
  | prim p, prim q => p.same q
  | r, s => equal r s

def isBound : Receiver → Bool
  | unbound => false
  | _ => true

def object? : Receiver → Option Nat
  | object i => some i
  | _ => none

end Receiver

/-- A reference to an object, perhaps bound to a receiver. -/
structure Ref where
  target : Nat
  this : Receiver := .unbound
deriving DecidableEq, Inhabited

namespace Ref

def equal (r s : Ref) : Bool := r.target == s.target && r.this.equal s.this

def same (r s : Ref) : Bool := r.target == s.target && r.this.same s.this

def ids (r : Ref) : List Nat := r.target :: r.this.object?.toList

theorem length_ids_le (r : Ref) : r.ids.length ≤ 2
  := by
  rw [ids, List.length_cons]
  cases r.this.object? <;> simp

def shown (r : Ref) : Text :=
  let bound : Text := match r.this with
    | .object i => Text.ofString " bound:" ++ Decimal.natText i
    | _ => ""
  Text.ofString "<ref: " ++ Decimal.natText r.target ++ bound ++ Text.ofString ">"

end Ref

inductive Atom where
  | undefined
  | null
  | top
  | bot
  | prim (p : Prim)
  | ref (r : Ref)
deriving DecidableEq

namespace Atom

def equal : Atom → Atom → Bool
  | undefined, undefined => true
  | null, null => true
  | top, top => true
  | bot, bot => true
  | prim p, prim q => p.equal q
  | ref r, ref s => r.equal s
  | _, _ => false

def same : Atom → Atom → Bool
  | prim p, prim q => p.same q
  | ref r, ref s => r.same s
  | a, b => equal a b

def ref? : Atom → Option Ref
  | ref r => some r
  | _ => none

def shown : Atom → Text
  | undefined => "Undef"
  | null => "Null"
  | top => "Top"
  | bot => "Bot"
  | prim p => p.shown
  | ref r => r.shown

end Atom

/-! ### Sets of atoms, as lists without repetition -/

namespace Choices

def mem (a : Atom) (s : List Atom) : Bool := s.any (Atom.same a)

def insert (s : List Atom) (a : Atom) : List Atom := if mem a s then s else s ++ [a]

def union (s t : List Atom) : List Atom := t.foldl insert s

def erase (s : List Atom) (a : Atom) : List Atom := s.filter fun b => !Atom.same a b

def ofList (l : List Atom) : List Atom := union [] l

def equal (s t : List Atom) : Bool := (s.all fun a => mem a t) && t.all fun b => mem b s

/-- Whether a choice is kept, or else forgotten in favour of any value. -/
def kept (useOr : Bool) (s : List Atom) : Bool := useOr && s.length ≤ 2 && mem .undefined s

end Choices

inductive Value where
  /-- Nothing was computed. -/
  | absent
  | atom (a : Atom)
  | or (choices : List Atom)
deriving DecidableEq

namespace Value

@[match_pattern] abbrev undefined : Value := atom .undefined
@[match_pattern] abbrev null : Value := atom .null
@[match_pattern] abbrev top : Value := atom .top
@[match_pattern] abbrev bot : Value := atom .bot
@[match_pattern] abbrev prim (p : Prim) : Value := atom (.prim p)
@[match_pattern] abbrev ref (r : Ref) : Value := atom (.ref r)

instance : Coe Prim Value := ⟨prim⟩

def equal : Value → Value → Bool
  | absent, absent => true
  | atom a, atom b => a.equal b
  | or s, or t => Choices.equal s t
  | _, _ => false

def same : Value → Value → Bool
  | atom a, atom b => a.same b
  | v, w => equal v w

def choices : Value → List Atom
  | absent => []
  | atom a => [a]
  | or s => s

def ofChoices (useOr : Bool) (s : List Atom) : Value :=
  if Choices.kept useOr s then or s else top

def join (useOr : Bool) (v w : Value) : Value :=
  match v, w with
  | absent, _ => w
  | bot, _ => w
  | _, absent => v
  | _, bot => v
  | _, _ => if v.equal w then v else ofChoices useOr (Choices.union v.choices w.choices)

def refs (v : Value) : List Ref := v.choices.filterMap Atom.ref?

theorem length_refs_flatMap_le {α : Type} (v : Value) (places : Ref → List α)
    (few : ∀ r, (places r).length ≤ 2) : (v.refs.flatMap places).length ≤ 2 * v.refs.length
  := by
  induction v.refs with
  | nil => exact Nat.le_refl 0
  | cons r refs step =>
    rw [List.flatMap_cons, List.length_append, List.length_cons]
    have := few r
    omega

/-- The reference of a value that is one, or that offers exactly one. -/
def ref? (v : Value) : Option Ref :=
  match v.refs with
  | [r] => some r
  | _ => none

theorem length_ref?_ids_le (v : Value) : ((v.ref?.map Ref.ids).getD []).length ≤ 2
  := by
  cases v.ref? with
  | none => exact Nat.zero_le 2
  | some r => exact r.length_ids_le

def isOr : Value → Bool
  | or _ => true
  | _ => false

def isTop : Value → Bool
  | top => true
  | _ => false

def kindName : Value → String
  | absent => "<class 'NoneType'>"
  | prim _ => "<class 'abstract.JSPrimitive'>"
  | ref _ => "<class 'abstract.JSRef'>"
  | atom _ => "<class 'abstract.JSSpecial'>"
  | or _ => "<class 'abstract.JSOr'>"

def shown : Value → Text
  | absent => "None"
  | atom a => a.shown
  | or s => Text.ofString "Or(" ++ Text.intercalate "," (s.map Atom.shown) ++ Text.ofString ")"

def atomTruth : Atom → Except Failure Bool
  | .undefined => return false
  | .null => return false
  | .prim (.num x) => return !x.isZero
  | .prim (.nan _) => return false
  | .prim (.bool b) => return b
  | .prim (.text t) => return !t.isEmpty
  | .prim p => throw (.badValue ("truth_value: unhandled concrete type" ++ p.kindName))
  | .ref _ => return true
  | a => throw (.badValue ("truth_value: unhandled abstract type" ++ (atom a).kindName))

def truth : Value → Except Failure Bool
  | atom a => atomTruth a
  | v => throw (.badValue ("truth_value: unhandled abstract type" ++ v.kindName))

/-- The value of an operation whose results for the possibilities of an operand are given. -/
def ofResults (useOr : Bool) (s : List Atom) : Value :=
  match s with
  | [a] => if Choices.kept useOr s then atom a else top
  | _ => ofChoices useOr s

/-- Applies an operation to every selection of possibilities of its operands; `done` holds the
operands that have been settled, in reverse. -/
def lift (useOr : Bool) (f : List Value → Except Failure Value) (done : List Value) :
    List Value → Except Failure Value
  | [] => f done.reverse
  | or s :: l => do
    let results ← s.mapM fun a => lift useOr f (atom a :: done) l
    return ofResults useOr (Choices.ofList (results.flatMap choices))
  | v :: l => lift useOr f (v :: done) l

/-- The truth of a value, if all its possibilities agree and choices are not in the way. -/
def truth? (useOr : Bool) (v : Value) : Except Failure (Option Bool) := do
  let answer (l : List Value) : Except Failure Value :=
    match l with
    | [top] => return top
    | [w] => do
      let b ← w.truth
      return prim (.bool b)
    | _ => return top
  match ← lift useOr answer [] [v] with
  | prim (.bool b) => return some b
  | _ => return none

end Value

end ScriptLens
