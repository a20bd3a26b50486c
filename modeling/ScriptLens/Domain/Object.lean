import ScriptLens.Domain.Value

/-!
# Abstract objects

An abstract object has known properties, and a rule for the others: they are undefined, or they may
be anything.
-/

namespace ScriptLens

open Text

/-- A function that the analysis carries out itself. -/
inductive Native where
  | toText
  | fromCharCode
  | string
  | display
  | showState
  | parseInt
  | assert
  | isKnown
  | pop
  | push
  | shift
  | indexOf
  | reverse
  | join
  | split
  | charCodeAt
  | charAt
  | slice
  | substr
  | substring
  | replace
  | fromBase64
  | toBase64
  | unquote
  | decodeUri
  | makeFunction
  | round
  | regexp
  | test
  | eval
  | named (label : Text)
deriving DecidableEq

inductive Key where
  | text (t : Text)
  | int (n : Int)
  | num (x : Double)
  | nan (tag : Nat)
  | bool (b : Bool)
  | bytes (t : Text)
  | regexp (r : Regexp)
  | none
deriving DecidableEq, Inhabited

namespace Key

instance : Coe Text Key := ⟨text⟩
instance : Coe String Key := ⟨fun s => text s⟩

def ofPrim : Prim → Key
  | .num x => num x
  | .nan tag => nan tag
  | .text t => text t
  | .bool b => bool b
  | .bytes t => bytes t
  | .regexp r => regexp r
  | .none => none

def canonical : Key → Key
  | num x => if x.isInteger then int x.trunc else num x
  | bool b => int (if b then 1 else 0)
  | k => k

def same (k l : Key) : Bool := k.canonical == l.canonical

/-- The integer a key is spelled as, if it is spelled as one. -/
def int? : Key → Option Int
  | int n => some n
  | _ => Option.none

def shown : Key → Text
  | text t => t
  | int n => Decimal.intText n
  | num x => x.toReport
  | nan _ => "nan"
  | bool b => if b then "True" else "False"
  | bytes t => (Prim.bytes t).shown
  | regexp r => r.printed
  | none => "None"

end Key

abbrev Props := List (Key × Value)

namespace Props

def get? (ps : Props) (k : Key) : Option Value :=
  match ps with
  | [] => none
  | (l, v) :: r => if l.same k then some v else get? r k

def contains (ps : Props) (k : Key) : Bool := (get? ps k).isSome

def set (ps : Props) (k : Key) (v : Value) : Props :=
  match ps with
  | [] => [(k, v)]
  | (l, w) :: r => if l.same k then (l, v) :: r else (l, w) :: set r k v

def erase (ps : Props) (k : Key) : Props :=
  match ps with
  | [] => []
  | (l, w) :: r => if l.same k then r else (l, w) :: erase r k

def equal (ps qs : Props) : Bool :=
  ps.length == qs.length &&
    ps.all fun p =>
      match get? qs p.1 with
      | some w => p.2.same w
      | none => false

end Props

/-- What an object says about the properties it does not list. -/
inductive Missing where
  | isUndefined
  | isTop
deriving DecidableEq

structure Obj where
  props : Props := []
  body : Option Tree := none
  params : List Tree := []
  /-- The scope a function was made in, unless it is the global one. -/
  env : Option Nat := none
  native : Option Native := none
  missing : Missing := .isUndefined
  isExpr : Bool := false
  isPure : Bool := false
  length : Option Int := some 0
  /-- Where the function stands in the source text, until the object is copied. -/
  span : Option (Int × Int) := none

namespace Obj

def builtin (f : Native) (isPure : Bool) : Obj := { native := some f, isPure }

def isCallable (o : Obj) : Bool := o.body.isSome || o.native.isSome

def containsTop (o : Obj) : Bool :=
  o.missing == .isTop || o.props.any fun p => p.2.same .top

/-- A copy of the object; it does not know where its function stands in the source text. -/
def copy (o : Obj) : Obj := { o with span := none }

def get? (o : Obj) (k : Key) : Option Value := o.props.get? k

def put (o : Obj) (k : Key) (v : Value) : Obj := { o with props := o.props.set k v }

def drop (o : Obj) (k : Key) : Obj := { o with props := o.props.erase k }

def member (o : Obj) (k : Key) : Value :=
  match o.get? k with
  | some .absent => if o.missing == .isTop then .top else .undefined
  | some v => v
  | none => if o.missing == .isTop then .top else .undefined

/-- The object with another rule for the properties it does not list.  When they become unknown,
so does the length, and what was unknown need not be listed any more. -/
def setMissing (o : Obj) (m : Missing) : Obj :=
  if o.missing == .isUndefined && m == .isTop then
    { o with props := o.props.filter fun p => !p.2.isTop, length := none, missing := m }
  else { o with missing := m }

/-- The object after a write under a key, or under an unknown key. -/
def setMember (o : Obj) (k : Option Key) (v : Value) : Obj :=
  match k with
  | none => { o with missing := .isTop, props := [] }
  | some k =>
    if o.missing == .isTop then
      if v.isTop then o else o.put k v
    else
      let length := match k.int?, o.length with
        | some n, some l => some (max l (n + 1))
        | _, l => l
      { o.put k v with length }

def sameBody : Option Tree → Option Tree → Bool
  | some a, some b => a.ref == b.ref
  | none, none => true
  | _, _ => false

def sameParams (ps qs : List Tree) : Bool := ps.map Tree.ref == qs.map Tree.ref

def equal (a b : Obj) : Bool :=
  a.props.equal b.props && sameBody a.body b.body && sameParams a.params b.params
    && a.env == b.env && a.native == b.native && a.missing == b.missing && a.length == b.length
    && a.isExpr == b.isExpr

/-- How many places a walk goes on to from an object, at most. -/
def spread (o : Obj) : Nat := o.props.foldr (fun p n => 4 + 2 * p.2.refs.length + n) 4

theorem length_flatMap_le {α : Type} (o : Obj) {places : Key × Value → List α} {n : Nat}
    (others : n ≤ 4) (few : ∀ p, (places p).length ≤ 4 + 2 * p.2.refs.length) :
  n + (o.props.flatMap places).length ≤ o.spread
  := by
  rw [spread]
  induction o.props with
  | nil => exact others
  | cons p props step =>
    rw [List.flatMap_cons, List.length_append, List.foldr_cons]
    have := few p
    omega

def joinValues (useOr : Bool) (v w : Value) : Value := if v.equal w then v else v.join useOr w

/-- The properties of the join of two objects that may have further properties: those listed in
both. -/
def joinKnown (useOr : Bool) (ps qs : Props) : Props :=
  ps.filterMap fun p => (qs.get? p.1).map fun w => (p.1, joinValues useOr p.2 w)

/-- The properties of the join of two objects that have no further properties: those listed in
one of them, which are undefined in the other, and those listed in both. -/
def joinAll (useOr : Bool) (ps qs : Props) : Props :=
  let left := ps.map fun p =>
    match qs.get? p.1 with
    | some w => (p.1, joinValues useOr p.2 w)
    | none => (p.1, Value.join useOr .undefined p.2)
  let right := qs.filterMap fun q =>
    if ps.contains q.1 then none else some (q.1, Value.join useOr .undefined q.2)
  left ++ right

def join (useOr : Bool) (a b : Obj) : Obj :=
  let a := { a with
    native := if a.native == b.native then a.native else none
    body := if sameBody a.body b.body then a.body else none
    env := if a.env == b.env then a.env else none }
  let a :=
    if a.missing == b.missing then
      { a with length := if a.length == b.length then a.length else none }
    else a.setMissing .isTop
  if a.missing == .isTop then { a with props := joinKnown useOr a.props b.props }
  else { a with props := joinAll useOr a.props b.props }

theorem join_props (useOr : Bool) (a b : Obj) :
  ∃ ps, (ps = a.props ∨ ps = a.props.filter fun p => !p.2.isTop) ∧
    ((a.join useOr b).props = joinKnown useOr ps b.props ∨
      (a.join useOr b).props = joinAll useOr ps b.props)
  := by
  obtain ⟨ps, _, _, _, _, m, _, _, _, _⟩ := a
  obtain ⟨qs, _, _, _, _, n, _, _, _, _⟩ := b
  cases m <;> cases n
  · exact ⟨ps, .inl rfl, .inr rfl⟩
  · exact ⟨_, .inr rfl, .inl rfl⟩
  · exact ⟨ps, .inl rfl, .inl rfl⟩
  · exact ⟨ps, .inl rfl, .inl rfl⟩

theorem length_join_le (useOr : Bool) (a b : Obj) :
  (a.join useOr b).props.length ≤ a.props.length + b.props.length
  := by
  obtain ⟨ps, kept, joined⟩ := join_props useOr a b
  have few : ps.length ≤ a.props.length := by
    rcases kept with rfl | rfl
    · exact Nat.le_refl _
    · exact List.length_filter_le _ _
  rcases joined with known | all
  · rw [known]
    exact Nat.le_trans (List.length_filterMap_le _ _) (Nat.le_add_right_of_le few)
  · rw [all, joinAll, List.length_append, List.length_map]
    exact Nat.add_le_add few (List.length_filterMap_le _ _)

def shownPlace (k : Key) : Int := (k.int?).getD (-1)

def shown (o : Obj) : Text :=
  let length : Text := match o.length with
    | some n => ofString "len=" ++ Decimal.intText n ++ ofString ", "
    | none => ""
  let sorted := o.props.mergeSort fun p q => shownPlace p.1 ≤ shownPlace q.1
  let items := sorted.map fun p => p.1.shown ++ ofString ": " ++ p.2.shown
  let mode : Text := if o.missing == .isTop then " ...Top" else " ...undefined"
  let props := ofString "\x7b" ++ length ++ intercalate ", " items ++ mode
    ++ ofString "\x7d "
  let flag (b : Bool) : Text := if b then "True" else "False"
  if o.native.isSome then
    ofString "<simfct " ++ props ++ ofString " pure=" ++ flag o.isPure
      ++ ofString ">"
  else
    match o.env with
    | some e =>
      ofString "<closure, isexpr=" ++ flag o.isExpr ++ ofString ", env="
        ++ Decimal.natText e ++ ofString " " ++ props ++ ofString ">"
    | none =>
      if o.body.isSome then
        ofString "<function, isexpr=" ++ flag o.isExpr ++ ofString " " ++ props
          ++ ofString ">"
      else ofString "<object " ++ props ++ ofString ">"

end Obj

end ScriptLens
