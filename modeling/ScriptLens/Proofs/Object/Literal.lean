import ScriptLens.Proofs.Object.Property
import ScriptLens.Proofs.Value.Describes

/-!
# Object literals

When a running script evaluates an object literal, each part gives some properties, and the last one with
a name stays.  The analysis lists a part only if its value is not any value and its key is known.  What is
read from the object afterwards covers the properties of all objects that the literal may make exactly if
it covers what the parts that are not listed may leave.
-/

open List

namespace ScriptLens

/-! ### Names and properties of running scripts -/

/-- The names that a property may have when a value is its key.  Values that are not primitive are
converted by code that may give any text. -/
inductive Datum.Names : Datum → Text → Prop
  | primitive (c : Concrete) : Names (.primitive c) c.toText
  | converted {x : Datum} (name : Text) : (∀ c, x ≠ .primitive c) → Names x name

theorem Datum.Names.eq_toText {c : Concrete} {name : Text} (names : (Datum.primitive c).Names name) :
  name = c.toText
  := by
  cases names with
  | primitive => rfl
  | converted _ other => exact absurd rfl (other c)

/-- The value without the receiver on which it will be called. -/
def Datum.bare : Datum → Datum
  | .method id _ => .object id
  | x => x

/-- The abstract value describes a value, whatever receiver it is to be called on. -/
def Value.Presents (v : Value) (x : Datum) : Prop := ∃ y, v.Describes y ∧ y.bare = x.bare

/-- The name of the property under a key, for keys that are names, numbers or truth values. -/
def Key.name? : Key → Option Text
  | text t => some t
  | int n => some (Concrete.num (.ofInt n)).toText
  | num x => some (Concrete.num x).toText
  | nan _ => some (Concrete.num .nan).toText
  | bool b => some (Concrete.bool b).toText
  | _ => Option.none

/-- The key that a value is, if the value is known. -/
def Value.key? : Value → Option Key
  | .prim p => some (.ofPrim p)
  | _ => none

/-- The property of an object that is made of the given ones in turn. -/
def propertyOf (made : List (Text × Datum)) (name : Text) : Datum :=
  (made.reverse.lookup name).getD (.primitive .undefined)

namespace Literal

/-- What the analysis finds for a part of a literal. -/
inductive Entry where
  | plain (k : Key) (v : Value)
  | computed (k v : Value)
  | spread

namespace Entry

/-- The properties that a part may give when a script runs. -/
inductive Gives : Entry → List (Text × Datum) → Prop
  | plain {k : Key} {name : Text} {v : Value} {x : Datum} :
    k.name? = some name → v.Describes x → Gives (.plain k v) [(name, x)]
  | computed {k v : Value} {name : Text} {x y : Datum} :
    k.Describes y → y.Names name → v.Describes x → Gives (.computed k v) [(name, x)]
  | spread (copied : List (Text × Datum)) : Gives .spread copied

/-- The key and the value under which a part is listed. -/
def listed? : Entry → Option (Key × Value)
  | plain k v => if v.isTop then none else some (k, v)
  | computed k v => if v.isTop then none else k.key?.map fun k => (k, v)
  | spread => none

/-- A part may leave a value under a name. -/
def Leaves (e : Entry) (name : Text) (x : Datum) : Prop :=
  ∃ made, e.Gives made ∧ made.reverse.lookup name = some x

/-- A part may leave alone what stands under a name. -/
def Spares (e : Entry) (name : Text) : Prop := ∃ made, e.Gives made ∧ made.reverse.lookup name = none

/-- If the part is listed, then under a key that counts as the same exactly if it has the same name. -/
def Tells (e : Entry) (l : Key) (name : Text) : Prop :=
  ∀ k v, e.listed? = some (k, v) → ∃ n, k.name? = some n ∧ (k.same l = true ↔ n = name)

variable {e : Entry} {k l : Key} {v : Value} {name : Text} {made : List (Text × Datum)}

theorem name_of_key? {w : Value} {x : Datum} (known : w.key? = some k) (named : k.name? = some name)
    (described : w.Describes x) {other : Text} (names : x.Names other) : other = name
  := by
  cases w with
  | atom a =>
    cases a with
    | prim p =>
      obtain rfl := Option.some.inj known
      obtain ⟨a, inside, held⟩ := described
      obtain rfl := mem_singleton.1 inside
      obtain rfl : p.datum = x := Option.some.inj (held.resolve_left nofun)
      cases p <;> cases named <;> exact names.eq_toText
    | _ => cases known
  | _ => cases known

theorem Gives.of_listed (listed : e.listed? = some (k, v)) (gives : e.Gives made)
    (named : k.name? = some name) : ∃ x, v.Describes x ∧ made = [(name, x)]
  := by
  cases gives with
  | @plain k' n v' x named' described =>
    rw [listed?] at listed
    split at listed
    · cases listed
    · cases listed
      cases named.symm.trans named'
      exact ⟨x, described, rfl⟩
  | @computed k' v' n x y key names described =>
    rw [listed?] at listed
    split at listed
    · cases listed
    · obtain ⟨l, known, same⟩ := Option.map_eq_some_iff.1 listed
      cases same
      rw [name_of_key? known named key names]
      exact ⟨x, described, rfl⟩
  | spread copied => cases listed

end Entry

/-- The value that is listed last under a key that counts as the same. -/
def found? (es : List Entry) (l : Key) : Option Value :=
  ((es.filterMap Entry.listed?).reverse.find? fun p => p.1.same l).map Prod.snd

/-- A part that is not listed may leave a value under a name that no later part need replace. -/
def Misses (es : List Entry) (name : Text) (x : Datum) : Prop :=
  ∃ before e after, es = before ++ e :: after ∧ (∀ d ∈ before, ∃ made, d.Gives made) ∧
    e.listed? = none ∧ e.Leaves name x ∧ ∀ d ∈ after, d.Spares name

variable {e : Entry} {es : List Entry} {l : Key} {name : Text} {x : Datum} {pieces : List (List (Text × Datum))}

theorem Misses.cons (misses : Misses es name x) {made : List (Text × Datum)} (gives : e.Gives made) :
  Misses (e :: es) name x
  := by
  obtain ⟨before, d, after, rfl, evaluated, rest⟩ := misses
  refine ⟨e :: before, d, after, rfl, ?_, rest⟩
  exact forall_mem_cons.2 ⟨⟨made, gives⟩, evaluated⟩

theorem found?_cons (e : Entry) (es : List Entry) (l : Key) :
  found? (e :: es) l =
    (found? es l).or ((e.listed?.filter fun p => p.1.same l).map Prod.snd)
  := by
  rw [found?, found?, filterMap_cons]
  cases e.listed? with
  | none => rw [Option.filter_none, Option.map_none, Option.or_none]
  | some p =>
    rw [reverse_cons, find?_append, Option.map_or, find?_singleton, Option.filter_some]

/-- What an evaluation leaves under a name was left by the part that is found there, or by one that is not
listed; if it leaves nothing, nothing is found. -/
theorem found_or_misses (gives : Forall₂ Entry.Gives es pieces) (tells : ∀ e ∈ es, e.Tells l name) :
  (∀ x, pieces.flatten.reverse.lookup name = some x →
    (∃ v, found? es l = some v ∧ v.Describes x) ∨ Misses es name x) ∧
  (pieces.flatten.reverse.lookup name = none → found? es l = none ∧ ∀ e ∈ es, e.Spares name)
  := by
  induction gives with
  | nil => exact ⟨nofun, fun _ => ⟨rfl, nofun⟩⟩
  | @cons e made es pieces gives _ ih =>
    obtain ⟨tellsHere, tells⟩ := forall_mem_cons.1 tells
    obtain ⟨left, spared⟩ := ih tells
    rw [flatten_cons, reverse_append, lookup_append, found?_cons]
    cases rest : pieces.flatten.reverse.lookup name with
    | some y =>
      refine ⟨fun x same => ?_, nofun⟩
      obtain rfl : y = x := Option.some.inj same
      rcases left y rest with ⟨v, found, described⟩ | misses
      · rw [found]
        exact .inl ⟨v, rfl, described⟩
      · exact .inr (misses.cons gives)
    | none =>
      obtain ⟨nothing, spared⟩ := spared rest
      rw [nothing, Option.none_or, Option.none_or]
      cases listed : e.listed? with
      | none =>
        refine ⟨fun x here => .inr ?_, fun spares => ⟨rfl, ?_⟩⟩
        · exact ⟨[], e, es, rfl, nofun, listed, ⟨made, gives, here⟩, spared⟩
        · exact forall_mem_cons.2 ⟨⟨made, gives, spares⟩, spared⟩
      | some p =>
        obtain ⟨n, named, same⟩ := tellsHere p.1 p.2 listed
        obtain ⟨y, described, rfl⟩ := gives.of_listed listed named
        by_cases alike : n = name
        · have here : p.1.same l = true := same.2 alike
          subst alike
          simp only [reverse_singleton, lookup_cons_self, Option.filter_some, here, if_true]
          refine ⟨fun x isLeft => .inl ?_, nofun⟩
          obtain rfl : y = x := Option.some.inj isLeft
          exact ⟨p.2, rfl, described⟩
        · have elsewhere : p.1.same l = false := Bool.eq_false_iff.2 (alike ∘ same.1)
          have apart : [(n, y)].reverse.lookup name = none := by
            rw [reverse_singleton, lookup_cons, if_neg (Ne.symm alike)]
            rfl
          rw [apart, Option.filter_some, elsewhere]
          exact ⟨nofun, fun _ => ⟨rfl, forall_mem_cons.2 ⟨⟨_, gives, apart⟩, spared⟩⟩⟩

theorem exists_pieces {P : List (Text × Datum) → Prop} (each : ∀ e ∈ es, ∃ made, e.Gives made ∧ P made) :
  ∃ pieces, Forall₂ Entry.Gives es pieces ∧ ∀ made ∈ pieces, P made
  := by
  induction es with
  | nil => exact ⟨[], .nil, nofun⟩
  | cons e es ih =>
    obtain ⟨⟨made, gives, holds⟩, each⟩ := forall_mem_cons.1 each
    obtain ⟨pieces, all, hold⟩ := ih each
    exact ⟨made :: pieces, .cons gives all, forall_mem_cons.2 ⟨holds, hold⟩⟩

theorem Misses.exists_pieces (misses : Misses es name x) :
  ∃ pieces, Forall₂ Entry.Gives es pieces ∧ propertyOf pieces.flatten name = x
  := by
  obtain ⟨before, e, after, rfl, evaluated, -, ⟨made, gives, leaves⟩, spares⟩ := misses
  obtain ⟨first, first', -⟩ := Literal.exists_pieces (P := fun _ => True) fun d inside =>
    (evaluated d inside).imp fun _ gives => ⟨gives, trivial⟩
  obtain ⟨last, last', spared⟩ := Literal.exists_pieces spares
  refine ⟨first ++ made :: last, rel_append first' (.cons gives last'), ?_⟩
  have nothing : last.flatten.reverse.lookup name = none := by
    rw [lookup_eq_none_iff]
    intro p inside
    obtain ⟨piece, member, inside⟩ := mem_flatten.1 (mem_reverse.1 inside)
    exact lookup_eq_none_iff.1 (spared piece member) p (mem_reverse.2 inside)
  rw [propertyOf, flatten_append, flatten_cons, reverse_append, reverse_append, lookup_append, lookup_append,
    nothing, leaves]
  rfl

end Literal

open Literal

/-! ### The object of a literal -/

theorem Value.ref_presents {target : Nat} {this this' : Receiver} {x : Datum} :
  (Value.ref ⟨target, this⟩).Presents x → (Value.ref ⟨target, this'⟩).Presents x
  := by
  have bare (this : Receiver) : (Ref.datum ⟨target, this⟩).bare = .object target := by cases this <;> rfl
  rintro ⟨y, ⟨a, inside, held⟩, same⟩
  obtain rfl := mem_singleton.1 inside
  obtain rfl : Ref.datum ⟨target, this⟩ = y := Option.some.inj (held.resolve_left nofun)
  refine ⟨_, ⟨_, mem_singleton_self _, .inr rfl⟩, ?_⟩
  rw [← same, bare, bare]

theorem Obj.read_presents (o : Obj) (i : Nat) {l : Key} {x : Datum} (long : (l == .text "length") = false)
    (plain : Builtin.method? l = none) : (o.read i l).Presents x ↔ (o.member l).Presents x
  := by
  rw [Obj.read, long, plain]
  generalize o.member l = v
  rcases v with _ | (_ | _ | _ | _ | _ | ⟨target, _ | _ | _⟩) | _ <;>
    first | exact Iff.rfl | exact ⟨Value.ref_presents, Value.ref_presents⟩

theorem Value.presents_of_describes {v : Value} {x : Datum} (described : v.Describes x) : v.Presents x
  := ⟨x, described, rfl⟩

namespace Analysis

variable {r : Engine} {t : Tree} {m m' : Machine}

/-- Evaluates a part of a literal.  The key is not evaluated if the value is any value. -/
def entry (r : Engine) (t : Tree) : Analysis Entry := do
  if t.kind != .property then return .spread
  let v ← r.expr (t.get .value)
  consume v
  if !(t.get .computed).isTrue then return .plain (literalKey (t.get .key)) v
  if v.isTop then return .computed .top v
  let k ← r.expr (t.get .key)
  consume k
  return .computed k v

/-- Evaluates the parts of a literal in turn. -/
def entries (r : Engine) (t : Tree) : Analysis (List Entry) := (t.get .properties).items.mapM (entry r)

theorem evalProperties_eq (r : Engine) (l : List Tree) (ps : Props) :
  evalProperties r ps l = (do
    let es ← l.mapM (entry r)
    return (es.filterMap Entry.listed?).foldl (fun ps p => ps.set p.1 p.2) ps)
  := by
  induction l generalizing ps with
  | nil => rfl
  | cons t l ih =>
    -- Both sides evaluate the part alike; a part that is not listed is passed on and dropped later.
    rw [List.mapM_cons, evalProperties, entry]
    simp only [ih, bind_assoc, pure_bind]
    split
    · rfl
    · simp only [bind_assoc]
      congr
      funext v
      congr
      funext _
      cases top : v.isTop <;> cases (t.get .computed).isTrue <;>
        simp only [Bool.not_true, Bool.not_false, Bool.false_eq_true, if_true, if_false, bind_assoc, pure_bind,
          filterMap_cons, Entry.listed?, top, foldl_cons]
      congr
      funext k
      congr
      funext _
      rcases k with _ | (_ | _ | _ | _ | _ | _) | _ <;> rfl

theorem get?_foldl_set (ps qs : Props) (l : Key) :
  (ps.foldl (fun qs p => qs.set p.1 p.2) qs).get? l =
    ((ps.reverse.find? fun p => p.1.same l).map Prod.snd).or (qs.get? l)
  := by
  induction ps generalizing qs with
  | nil => rfl
  | cons p ps ih =>
    rw [List.foldl_cons, ih, Props.get?_set, List.reverse_cons, List.find?_append]
    cases ps.reverse.find? fun p => p.1.same l with
    | some q => rfl
    | none => cases same : p.1.same l <;> simp [same]

/-- The object of a literal. -/
def objectOf (es : List Entry) : Obj where
  props := (es.filterMap Entry.listed?).foldl (fun ps p => ps.set p.1 p.2) []
  length := none

theorem get?_objectOf (es : List Entry) (l : Key) : (objectOf es).get? l = found? es l
  := by rw [Obj.get?, objectOf, get?_foldl_set, Props.get?, Option.or_none, found?]

theorem evalObject_eq (r : Engine) (t : Tree) :
  evalObject r t = consuming (do
    let es ← entries r t
    let i ← newObject (objectOf es)
    return .ref ⟨i, .unbound⟩)
  := by
  rw [evalObject, evalProperties_eq]
  simp only [bind_assoc, pure_bind]
  rfl

theorem evalObject_of_entries {es : List Entry} {m1 : Machine}
    (run : entries r t { m with consumed := {} :: m.consumed } = .ok es m1) :
  ∃ m', evalObject r t m = .ok (.ref ⟨m1.nextId, .unbound⟩) m' ∧
    m'.state.objs.get? m1.nextId = some (objectOf es)
  := by
  rw [evalObject_eq]
  refine ⟨_, consuming_of_ok ((bind_of_ok run).trans rfl), ?_⟩
  exact (Heap.lookup_insert _ _ _ _).trans (if_pos rfl)

theorem covers_iff {es : List Entry} {i : Nat} {l : Key} {name : Text} (plain : Builtin.method? l = none)
    (tells : ∀ e ∈ es, e.Tells l name) :
  (∀ pieces, Forall₂ Entry.Gives es pieces → ((objectOf es).read i l).Presents (propertyOf pieces.flatten name)) ↔
    ∀ x, Misses es name x → ((objectOf es).read i l).Presents x
  := by
  constructor
  · intro covers x misses
    obtain ⟨pieces, gives, rfl⟩ := misses.exists_pieces
    exact covers pieces gives
  · intro covers pieces gives
    cases long : l == .text "length" with
    | true =>
      rw [Obj.read, long]
      exact Value.presents_of_describes (Value.describes_of_top (mem_singleton_self _))
    | false =>
      obtain ⟨left, spared⟩ := found_or_misses gives tells
      rw [propertyOf]
      cases last : pieces.flatten.reverse.lookup name with
      | some x =>
        rcases left x last with ⟨v, found, described⟩ | misses
        · rw [Obj.read_presents _ _ long plain, Obj.member, get?_objectOf, found]
          cases v with
          | absent => obtain ⟨a, inside, -⟩ := described; cases inside
          | _ => exact Value.presents_of_describes described
        · exact covers x misses
      | none =>
        rw [Obj.read_presents _ _ long plain, Obj.member, get?_objectOf, (spared last).1]
        exact Value.presents_of_describes ⟨_, mem_singleton_self _, .inr rfl⟩

/-- A literal gives an object if its parts can be evaluated.  What is read from the object under a key, other
than the name of a method, covers the property of every object that the literal may make exactly if it covers
what the parts that are not listed may leave there; the keys that are listed must count as the same exactly
if they are the same name. -/
theorem literal_read_covers_iff (r : Engine) (t : Tree) (m : Machine) :
  ((∃ v m', evalObject r t m = .ok v m') ↔
    ∃ es m1, entries r t { m with consumed := {} :: m.consumed } = .ok es m1) ∧
  ∀ es m1, entries r t { m with consumed := {} :: m.consumed } = .ok es m1 →
    ∃ i m', evalObject r t m = .ok (.ref ⟨i, .unbound⟩) m' ∧
      ∀ l, ∃ w, objectMember i l m' = .ok w m' ∧
        ∀ name, Builtin.method? l = none → (∀ e ∈ es, e.Tells l name) →
          ((∀ pieces, Forall₂ Entry.Gives es pieces → w.Presents (propertyOf pieces.flatten name)) ↔
            ∀ x, Misses es name x → w.Presents x)
  := by
  refine ⟨⟨?_, ?_⟩, ?_⟩
  · rintro ⟨v, m', run⟩
    rw [evalObject_eq] at run
    obtain ⟨m2, inner, -⟩ := consuming_eq_ok run
    obtain ⟨es, m1, evaluated, -⟩ := bind_eq_ok.1 inner
    exact ⟨es, m1, evaluated⟩
  · rintro ⟨es, m1, run⟩
    obtain ⟨m', made, -⟩ := evalObject_of_entries run
    exact ⟨_, m', made⟩
  · intro es m1 run
    obtain ⟨m', made, found⟩ := evalObject_of_entries run
    refine ⟨m1.nextId, m', made, fun l => ⟨_, objectMember_ok found l, fun name plain tells => ?_⟩⟩
    exact covers_iff plain tells

/-- In `{a: u, a: 1, b: u}` the first part is replaced by the second, so that nothing is missed under its
name. -/
theorem literal_read_covers_repeated :
  let one : Value := .prim (.num (.ofNat 1))
  let r : Engine := ⟨fun t => return if t.isTrue then .top else one,
    fun _ _ => return (), fun _ _ _ _ => return .top, fun _ _ => return ()⟩
  let part (name : String) (unknown : Bool) : Tree := .node 0 .property
    [(.key, .node 0 .identifier [(.name, .text name)]), (.value, .flag unknown)]
  let t : Tree := .node 0 .objectExpression
    [(.properties, .list [part "a" true, part "a" false, part "b" true])]
  let es : List Entry := [.plain "a" .top, .plain "a" one, .plain "b" .top]
  ∃ i m' w, evalObject r t {} = .ok (.ref ⟨i, .unbound⟩) m' ∧ objectMember i "a" m' = .ok w m' ∧
    ∀ pieces, Forall₂ Entry.Gives es pieces → w.Presents (propertyOf pieces.flatten "a")
  := by
  intro one r part t es
  obtain ⟨i, m', made, reads⟩ := (literal_read_covers_iff r t {}).2 es _ rfl
  obtain ⟨w, read, covers⟩ := reads "a"
  refine ⟨i, m', w, made, read, (covers "a" (by decide) ?_).2 ?_⟩
  · intro e inside k v listed
    rcases mem_cons.1 inside with rfl | inside
    · cases listed
    rcases mem_pair.1 inside with rfl | rfl
    · cases listed
      exact ⟨"a", rfl, iff_of_true (by decide) rfl⟩
    · cases listed
  · rintro x ⟨before, e, after, same, -, unlisted, ⟨piece, gives, leaves⟩, spares⟩
    rcases before with _ | ⟨_, _ | ⟨_, _ | ⟨_, before⟩⟩⟩ <;>
      simp only [es, nil_append, cons_append, cons.injEq, nil_eq, append_eq_nil_iff, reduceCtorEq, and_false] at same
    · obtain ⟨rfl, rfl⟩ := same
      obtain ⟨piece, gives, spared⟩ := spares _ mem_cons_self
      cases gives with
      | plain named _ => cases named; cases spared
    · obtain ⟨-, rfl, -⟩ := same
      cases unlisted
    · obtain ⟨-, -, rfl, -⟩ := same
      cases gives with
      | plain named _ => cases named; cases leaves

set_option maxRecDepth 20000 in
/-- An unknown value is read as undefined, or as an earlier value of the property. -/
theorem unknown_property_is_left_out :
  valuesAfter? "x = \x7ba: u\x7d.a; y = \x7ba: 1, a: u\x7d.a;" =
    some (some .undefined, some (.prim (.num (.ofNat 1))))
  := by
  decide +kernel

end Analysis

end ScriptLens
