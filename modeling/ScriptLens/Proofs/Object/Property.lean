import ScriptLens.Analysis.Program
import ScriptLens.Proofs.Analysis.Run
import ScriptLens.Proofs.Object.Join

/-!
# Properties that are written and read

What is assigned to a property is read under every key that counts as the same, and all other keys
read as before; but the length and the methods that all objects have are never read from the
properties.
-/

namespace ScriptLens

def Key.isSpecial (k : Key) : Bool := k == .text "length" || (Builtin.method? k).isSome

namespace Obj

variable {k l : Key}

def read (o : Obj) (i : Nat) (l : Key) : Value :=
  if l == .text "length" then
    match o.missing, o.length with
    | .isUndefined, some n => .prim (.num (.ofInt n))
    | _, _ => .top
  else
    match ((Builtin.method? l).map fun m => .ref ⟨m, .unbound⟩).getD (o.member l) with
    | .ref ⟨target, .unbound⟩ => .ref ⟨target, .object i⟩
    | v => v

theorem read_write (o : Obj) (i : Nat) (v : Prim) (named : k.int? = none) :
  ((o.drop k).setMember (some k) (.prim v)).read i l =
    if k.same l && !l.isSpecial then .prim v else o.read i l
  := by
  have written : (o.drop k).setMember (some k) (.prim v) = (o.drop k).put k (.prim v) := by
    rw [setMember, named]
    split <;> rfl
  have member : ((o.drop k).put k (.prim v)).member l = if k.same l then .prim v else o.member l := by
    rw [Obj.member, get?, put, Props.get?_set]
    by_cases same : k.same l = true
    · rw [if_pos same, if_pos same]
    · rw [if_neg same, if_neg same, drop, Props.get?_erase _ same]
      rfl
  rw [written, read, read, member, Key.isSpecial]
  -- The properties are asked last, so that a write shows only where neither of the others answers.
  cases l == .text "length" <;> cases Builtin.method? l <;> cases k.same l <;> rfl

end Obj

namespace Analysis

variable {m m1 : Machine} {i : Nat} {o : Obj} {k : Key} {r : Engine} {t : Tree} {s : Slot}

theorem objectMember_ok (found : m.state.objs.get? i = some o) (l : Key) :
  objectMember i l m = .ok (o.read i l) m
  := by
  rw [objectMember, object_bind found, Obj.read]
  generalize o.member l = v
  cases l == .text "length" with
  | true => cases o.missing <;> cases o.length <;> rfl
  | false => cases Builtin.method? l with
    | some m => rfl
    | none => rcases v with _ | (_ | _ | _ | _ | _ | ⟨_, _ | _ | _⟩) | _ <;> rfl

theorem isExposed_ok (holder : s.holder = some (.inl i)) (found : m.state.objs.get? i = some o) :
  ∃ b, isExposed s m = .ok b m
  := by
  rw [isExposed, holder]
  dsimp only
  split
  · rw [object_bind found]
    exact ⟨_, rfl⟩
  · exact ⟨_, rfl⟩

/-- A value that is no function is not put aside, wherever it is assigned. -/
theorem expose_prim (holder : s.holder = some (.inl i)) (found : m.state.objs.get? i = some o)
    (source : Option Tree) (v : Prim) :
  ∃ notes, expose s source (.prim v) m = .ok () { m with notes }
  := by
  cases source with
  | none => exact ⟨m.notes, rfl⟩
  | some e =>
    let marked : Machine := { m with notes := (m.notes.mark e).2 }
    obtain ⟨b, exposed⟩ := isExposed_ok (m := marked) holder found
    refine ⟨marked.notes, ?_⟩
    rw [expose, note_bind]
    split
    · rw [bind_of_ok exposed]
      cases b <;> rfl
    · rfl

/-- An assignment of a primitive value to a property of an object changes what is read under the keys
that count as the same and are read from the properties, and nothing else. -/
theorem member_after_assign (named : slot r t m = .ok s m1) (holder : s.holder = some (.inl i))
    (key : s.key = some k) (noIndex : k.int? = none) (found : m1.state.objs.get? i = some o)
    (source : Option Tree) (v : Prim) :
  ∃ m2, assign r t source (.prim v) m = .ok () m2 ∧ ∀ l, ∃ w, objectMember i l m1 = .ok w m1 ∧
    objectMember i l m2 = .ok (if k.same l && !l.isSpecial then .prim v else w) m2
  := by
  obtain ⟨notes, exposed⟩ := expose_prim holder found source v
  refine ⟨{ m1 with
      notes
      state := m1.state.updateObj i fun o => (o.drop k).setMember (some k) (.prim v) },
    ?_, fun l => ⟨o.read i l, objectMember_ok found l, ?_⟩⟩
  · rw [assign, bind_of_ok named, bind_of_ok exposed, writeSlot, holder, key]
    rfl
  · rw [← Obj.read_write o i v noIndex]
    apply objectMember_ok
    rw [State.updateObj, Heap.lookup_update, if_pos rfl, found, Option.map_some]

/-- A text is assigned to the property under a number. -/
theorem member_after_assign_number :
  let one : Prim := .num (.ofNat 1)
  let r : Engine := ⟨fun t => return if t.isTrue then .ref ⟨0, .unbound⟩ else .prim one,
    fun _ _ => return (), fun _ _ _ _ => return .top, fun _ _ => return ()⟩
  let t : Tree := .node 0 .memberExpression [(.object, .flag true), (.computed, .flag true)]
  let m : Machine := { state := { objs := Heap.insert {} 0 {} } }
  ∃ m2, assign r t (some (.flag false)) (.prim (.text "a")) m = .ok () m2 ∧
    objectMember 0 (.ofPrim one) m2 = .ok (.prim (.text "a")) m2
  := by
  intro one r t m
  obtain ⟨m2, assigned, reads⟩ :=
    member_after_assign (r := r) (t := t) (m := m) rfl rfl rfl rfl rfl (some (.flag false)) (.text "a")
  obtain ⟨w, -, read⟩ := reads (.ofPrim one)
  exact ⟨m2, assigned, read⟩

def valuesAfter? (source : Text) : Option (Option Value × Option Value) :=
  (analyze {} true source).toOption.map fun o => (globalValue? o.machine "x", globalValue? o.machine "y")

set_option maxRecDepth 20000 in
/-- A property with the name of a method is not read, and neither is one under the text of its key. -/
theorem written_property_is_not_read :
  valuesAfter? "o = \x7b\x7d; o.pop = 5; o[1] = 5; x = o.pop; y = o['1'];" =
    some (some (.ref ⟨9, .object 34⟩), some .undefined)
  := by
  decide +kernel

end Analysis

end ScriptLens
