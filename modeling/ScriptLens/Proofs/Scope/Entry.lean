import ScriptLens.Proofs.Analysis.Call
import ScriptLens.Proofs.Object.Join

/-!
# The scope of a function

A call of a function makes a scope that lists the parameters for which there is an argument, and the
statements of the body begin after the variables and functions that are declared directly among them
have been listed too.
-/

namespace ScriptLens

open State

/-! ### Properties under names -/

namespace Obj

variable {o : Obj} {k : Key} {x y : Text} {v : Value}

theorem get?_put : (o.put k v).get? (.text x) = if k = .text x then some v else o.get? (.text x)
  := by
  rw [get?, put, Props.get?_set]
  exact if_congr Key.same_name rfl rfl

theorem get?_setMember (missing : o.missing = .isUndefined) :
  ((o.drop (.text x)).setMember (some (.text x)) v).get? (.text y) =
    if x = y then some v else o.get? (.text y)
  := by
  have written : ((o.drop (.text x)).setMember (some (.text x)) v).get? (.text y) =
      ((o.drop (.text x)).put (.text x) v).get? (.text y) := by
    rw [setMember, show (o.drop (.text x)).missing = .isUndefined from missing]
    rfl
  rw [written, get?_put]
  by_cases same : x = y
  · rw [if_pos (congrArg Key.text same), if_pos same]
  · rw [if_neg fun keys => same (Key.text.inj keys), if_neg same, get?, drop,
      Props.get?_erase _ fun keys => same (Key.text.inj (Key.same_name.1 keys))]
    rfl

end Obj

/-! ### Names in the local scope -/

/-- The local scope of a machine is an object that it has numbered. -/
structure Machine.Within (own : Nat) (scope : Obj) (m : Machine) : Prop where
  lref : m.state.lref = some own
  found : m.state.objs.get? own = some scope
  old : own < m.nextId

namespace State

variable {s : State} {own : Nat} {scope : Obj} {x : Text}

theorem localId_of (lref : s.lref = some own) (found : s.objs.get? own = some scope) :
  s.localId = .ok own
  := by
  rw [localId, lref, except_bind_of_ok (scopeId_some own), except_bind_of_ok (obj_ok found)]
  rfl

theorem lookupFrom_contains {k : Key} {n i : Nat} (run : s.lookupFrom k n scope = .ok (some i)) :
  ∃ o, s.objs.get? i = some o ∧ o.props.contains k = true
  := by
  induction n generalizing scope with
  | zero => cases run
  | succ n ih =>
    rw [lookupFrom] at run
    split at run
    · cases run
    · obtain ⟨outer, found, run⟩ := except_bind_eq_ok.1 run
      split at run
      · rename_i contains
        cases run
        exact ⟨outer, obj_eq_ok found, contains⟩
      · exact ih run
    · cases run

theorem gref_of_globalId {g : Nat} (run : s.globalId = .ok g) : s.gref = some g := by
  obtain ⟨i, isScope, run⟩ := except_bind_eq_ok.1 run
  obtain ⟨_, -, run⟩ := except_bind_eq_ok.1 run
  cases run
  exact scopeId_eq_ok isScope

theorem lookup_eq_own_iff (lref : s.lref = some own) (found : s.objs.get? own = some scope)
    (inner : s.gref ≠ some own) :
  s.lookup (.text x) = .ok own ↔ (scope.get? (.text x)).isSome = true
  := by
  rw [lookup, except_bind_of_ok (localId_of lref found), except_bind_of_ok (obj_ok found)]
  change _ ↔ scope.props.contains (.text x) = true
  split
  · rename_i listed
    exact iff_of_true rfl listed
  · rename_i unlisted
    refine iff_of_false (fun run => ?_) unlisted
    obtain ⟨place, searched, run⟩ := except_bind_eq_ok.1 run
    cases place with
    | some i =>
      obtain rfl : i = own := Except.ok.inj run
      obtain ⟨o, found', contains⟩ := lookupFrom_contains searched
      obtain rfl : scope = o := Option.some.inj (found.symm.trans found')
      exact unlisted contains
    | none => exact inner (gref_of_globalId run)

end State

namespace Analysis

variable {own : Nat} {scope : Obj} {m m' m'' : Machine} {t : Tree} {x : Text} {v : Value}

/-! ### Reading and writing a name that the scope lists -/

/-- Among the objects there were, only one has changed. -/
structure ChangesOnly (own : Nat) (m m' : Machine) : Prop where
  lref : m'.state.lref = m.state.lref
  gref : m'.state.gref = m.state.gref
  isBottom : m'.state.isBottom = m.state.isBottom
  nextId : m.nextId ≤ m'.nextId
  others : ∀ i, i ≠ own → i < m.nextId → m'.state.objs.get? i = m.state.objs.get? i

theorem ChangesOnly.trans (first : ChangesOnly own m m') (second : ChangesOnly own m' m'') :
  ChangesOnly own m m''
  := by
  constructor
  case lref => exact second.lref.trans first.lref
  case gref => exact second.gref.trans first.gref
  case isBottom => exact second.isBottom.trans first.isBottom
  case nextId => exact Nat.le_trans first.nextId second.nextId
  case others =>
    intro i other old
    rw [second.others i other (Nat.lt_of_lt_of_le old first.nextId), first.others i other old]

theorem changesOnly_updateObj (f : Obj → Obj) :
  ChangesOnly own m { m with state := m.state.updateObj own f }
  := by
  refine ⟨rfl, rfl, rfl, Nat.le_refl _, fun i other _ => ?_⟩
  change (m.state.objs.update own f).get? i = _
  rw [Heap.lookup_update, if_neg (Ne.symm other)]

/-- A name that the scope lists is read and written there, and nowhere else. -/
structure Owned (own : Nat) (scope : Obj) (x : Text) (v : Value) (m : Machine) : Prop where
  read {t : Tree} (name : m.notes.attr t .name = .text x) (plain : x ≠ "undefined") :
    evalIdentifier t m = .ok v m
  write (r : Engine) {t : Tree} (source : Option Tree) (w : Value) (kind : t.kind = .identifier)
    (name : t.get .name = .text x) :
    ∃ m' scope', assign r t source w m = .ok () m' ∧ ChangesOnly own m m' ∧ m'.Within own scope' ∧
      ∀ y, scope'.get? (.text y) = if x = y then some w else scope.get? (.text y)

section

variable (within : m.Within own scope) (listed : scope.get? (.text x) = some v)

include within

theorem within_updateObj (f : Obj → Obj) :
  Machine.Within own (f scope) { m with state := m.state.updateObj own f }
  := by
  refine ⟨within.lref, ?_, within.old⟩
  change (m.state.objs.update own f).get? own = _
  rw [Heap.lookup_update, if_pos rfl, within.found]
  rfl

include listed

theorem lookup_listed : m.state.lookup (.text x) = .ok own := by
  rw [lookup, except_bind_of_ok (localId_of within.lref within.found),
    except_bind_of_ok (obj_ok within.found), Props.contains]
  change (if (scope.get? (.text x)).isSome = true then _ else _) = _
  rw [listed]
  rfl

theorem slot_listed (r : Engine) (kind : t.kind = .identifier) (name : t.get .name = .text x) :
  slot r t m = .ok { holder := some (.inl own), key := some (.text x), isMember := false } m
  := by
  rw [slot, slotSteps, slotWithin, kind, name]
  dsimp only [nameKey]
  rw [state_bind, lift_except_bind (lookup_listed within listed),
    localId_bind (localId_of within.lref within.found)]
  simp only [bne_self_eq_false, Bool.false_eq_true, if_false]
  rfl

theorem owned_of_listed (missing : scope.missing = .isUndefined) : Owned own scope x v m := by
  constructor
  case read =>
    intro t name plain
    have notUndefined : (Tree.text x).isText "undefined" = false := by
      rw [Tree.isText, beq_eq_false_iff_ne]
      exact fun same => plain (Option.some.inj same)
    rw [evalIdentifier, attr_bind, name, notUndefined]
    simp only [Bool.false_eq_true, if_false, nameKey]
    rw [state_bind, lift_except_bind (lookup_listed within listed), object_bind within.found,
      localId_bind (localId_of within.lref within.found)]
    simp only [bne_self_eq_false, Bool.false_eq_true, if_false, listed]
    rfl
  case write =>
    intro r t source w kind name
    -- A value that goes into a scope is not exposed, so that at most a note is looked at before.
    have written : ∃ notes, assign r t source w m = changeObject own
        (fun o => (o.drop (.text x)).setMember (some (.text x)) w) { m with notes } := by
      rw [assign, bind_of_ok (slot_listed within listed r kind name)]
      cases source with
      | none => exact ⟨m.notes, rfl⟩
      | some e =>
        rw [expose, bind_assoc, note_bind]
        refine ⟨(m.notes.mark e).2, ?_⟩
        split <;> rfl
    obtain ⟨notes, written⟩ := written
    have within' : Machine.Within own scope { m with notes } :=
      ⟨within.lref, within.found, within.old⟩
    have changes : ChangesOnly own m { m with notes } :=
      ⟨rfl, rfl, rfl, Nat.le_refl _, fun _ _ _ => rfl⟩
    exact ⟨_, _, written, changes.trans (changesOnly_updateObj _), within_updateObj within' _,
      fun y => Obj.get?_setMember missing⟩

end

/-! ### Declarations -/

def declaredKey (t : Tree) : Key := nameKey ((t.get .id).get .name)

def variablesOf (t : Tree) : List Key :=
  if t.kind = .variableDeclaration then (t.get .declarations).items.map declaredKey else []

def functionsOf (t : Tree) : List Key :=
  if t.kind = .functionDeclaration then [declaredKey t] else []

/-- From one machine to another, variables and functions were declared in the local scope. -/
structure Declares (own : Nat) (vs fs : List Key) (m m' : Machine) : Prop
    extends ChangesOnly own m m' where
  listed {scope : Obj} (found : m.state.objs.get? own = some scope) :
    ∃ scope', m'.state.objs.get? own = some scope' ∧ scope'.missing = scope.missing ∧
      ∀ x : Text, .text x ∉ fs → scope'.get? (.text x) =
        if .text x ∈ vs then some .undefined else scope.get? (.text x)

namespace Declares

variable {vs vs' fs fs' : List Key}

theorem within (declares : Declares own vs fs m m') (within : m.Within own scope) :
  ∃ scope', m'.Within own scope' ∧ scope'.missing = scope.missing ∧
    ∀ x : Text, .text x ∉ fs → scope'.get? (.text x) =
      if .text x ∈ vs then some .undefined else scope.get? (.text x)
  := by
  obtain ⟨scope', found, rest⟩ := declares.listed within.found
  exact ⟨scope', ⟨declares.lref.trans within.lref, found,
    Nat.lt_of_lt_of_le within.old declares.nextId⟩, rest⟩

theorem congr {n n' : Machine} (declares : Declares own vs fs m m') (state : n.state = m.state)
    (nextId : n.nextId = m.nextId) (state' : n'.state = m'.state) (nextId' : n'.nextId = m'.nextId) :
  Declares own vs fs n n'
  := by
  obtain ⟨⟨lref, gref, isBottom, le, others⟩, listed⟩ := declares
  rw [← state, ← state'] at *
  rw [← nextId, ← nextId'] at *
  exact ⟨⟨lref, gref, isBottom, le, others⟩, listed⟩

theorem of_same (state : m'.state.objs = m.state.objs) (lref : m'.state.lref = m.state.lref)
    (gref : m'.state.gref = m.state.gref) (isBottom : m'.state.isBottom = m.state.isBottom)
    (nextId : m'.nextId = m.nextId) : Declares own [] [] m m'
  := by
  refine ⟨⟨lref, gref, isBottom, Nat.le_of_eq nextId.symm, fun i _ _ => by rw [state]⟩, ?_⟩
  intro scope found
  refine ⟨scope, by rw [state, found], rfl, fun x _ => ?_⟩
  rw [if_neg List.not_mem_nil]

theorem trans (first : Declares own vs fs m m') (second : Declares own vs' fs' m' m'') :
  Declares own (vs ++ vs') (fs ++ fs') m m''
  := by
  refine ⟨first.toChangesOnly.trans second.toChangesOnly, fun found => ?_⟩
  obtain ⟨scope', found', missing, values⟩ := first.listed found
  obtain ⟨scope'', found'', missing', values'⟩ := second.listed found'
  refine ⟨scope'', found'', missing'.trans missing, fun x other => ?_⟩
  rw [List.mem_append, not_or] at other
  rw [values' x other.2, values x other.1]
  by_cases later : Key.text x ∈ vs'
  · rw [if_pos later, if_pos (List.mem_append_right vs later)]
  · rw [if_neg later]
    by_cases sooner : Key.text x ∈ vs
    · rw [if_pos sooner, if_pos (List.mem_append_left vs' sooner)]
    · rw [if_neg sooner, if_neg]
      exact fun either => (List.mem_append.1 either).elim sooner later

end Declares

theorem declare_declares (r : Engine) {hoisting : Bool} (within : m.Within own scope)
    (kind : t.kind = .variableDeclarator)
    (noValue : (hoisting || (t.get .initial).isNull) = true) :
  ∃ m', declare r t hoisting m = .ok () m' ∧ Declares own [declaredKey t] [] m m'
  := by
  have changes : ChangesOnly own m
      { m with state := m.state.updateObj own (·.put (declaredKey t) .undefined) } :=
    changesOnly_updateObj _
  have run : declare r t hoisting m = .ok () _ :=
    @consuming_of_ok Unit m { m with
      consumed := {} :: m.consumed
      state := m.state.updateObj own (·.put (declaredKey t) .undefined) } _ () (by
        rw [kind, noValue]
        simp only [bne_self_eq_false, Bool.false_eq_true, if_false, if_true]
        rw [localId_bind (m := { m with consumed := {} :: m.consumed })
          (localId_of within.lref within.found)]
        rfl)
  refine ⟨_, run, ⟨changes.lref, changes.gref, changes.isBottom, changes.nextId, changes.others⟩,
    fun {scope} found => ?_⟩
  refine ⟨scope.put (declaredKey t) .undefined, ?_, rfl, fun x _ => ?_⟩
  · change (m.state.objs.update own _).get? own = _
    rw [Heap.lookup_update, if_pos rfl, found]
    rfl
  · rw [Obj.get?_put]
    exact if_congr (by rw [List.mem_singleton, eq_comm]) rfl rfl

variable {l : List Tree} {o : Obj} {body : Tree}

theorem declareAll_declares (r : Engine) (within : m.Within own scope)
    (kinds : ∀ t ∈ l, t.kind = .variableDeclarator) :
  ∃ m', declareAll r true l m = .ok () m' ∧ Declares own (l.map declaredKey) [] m m'
  := by
  induction l generalizing m scope with
  | nil => exact ⟨m, rfl, .of_same rfl rfl rfl rfl rfl⟩
  | cons t l ih =>
    obtain ⟨m1, declared, first⟩ :=
      declare_declares r within (kinds t List.mem_cons_self) (Bool.true_or _)
    obtain ⟨scope1, within1, -⟩ := first.within within
    obtain ⟨m', rest, second⟩ := ih within1 fun u member => kinds u (List.mem_cons_of_mem t member)
    refine ⟨m', ?_, first.trans second⟩
    rw [declareAll, bind_of_ok declared, rest]

theorem newFunction_ok (t name : Tree) (m : Machine) :
  ∃ notes session o, newFunction t name m = .ok m.nextId
    { m with notes, session, nextId := m.nextId + 1, state := m.state.putObj m.nextId o }
  := by
  rw [newFunction, state_bind, attr_bind]
  split <;> exact ⟨_, _, _, rfl⟩

theorem declareFunction_declares (t : Tree) (within : m.Within own scope) :
  ∃ m', declareFunction t m = .ok () m' ∧ Declares own [] [declaredKey t] m m'
  := by
  obtain ⟨notes, session, o, made⟩ := newFunction_ok t ((t.get .id).get .name) m
  rw [declareFunction, localId_bind (localId_of within.lref within.found), bind_of_ok made]
  refine ⟨_, rfl, ⟨rfl, rfl, rfl, Nat.le_succ _, fun i other old => ?_⟩, fun {scope} found => ?_⟩
  · change ((m.state.objs.insert m.nextId o).update own _).get? i = _
    rw [Heap.lookup_update, if_neg (Ne.symm other), Heap.lookup_insert, if_neg (Nat.ne_of_gt old)]
  · refine ⟨scope.put (declaredKey t) (.ref ⟨m.nextId, .unbound⟩), ?_, rfl, fun x other => ?_⟩
    · change ((m.state.objs.insert m.nextId o).update own _).get? own = _
      rw [Heap.lookup_update, if_pos rfl, Heap.lookup_insert, if_neg (Nat.ne_of_gt within.old), found]
      rfl
    · rw [Obj.get?_put, if_neg, if_neg List.not_mem_nil]
      exact fun same => other (List.mem_singleton.2 same.symm)

theorem enterStatement_ok (m : Machine) (placed : (spanOf t).isSome = true) :
  ∃ notes, enterStatement t m = .ok ()
    { m with notes, session := { m.session with last := some t } }
  := by
  have lives : ∃ notes, setLive t m = .ok () { m with notes } := by
    rw [setLive, get_bind]
    split <;> exact ⟨_, rfl⟩
  obtain ⟨notes, lives⟩ := lives
  refine ⟨notes, ?_⟩
  rw [enterStatement, bind_of_ok lives, Option.isNone_eq_false_iff.2 placed]
  rfl

theorem passThrough_ok (t : Tree) (m : Machine) :
  ∃ notes session, passThrough t m = .ok () { m with notes, session }
  := by
  rw [passThrough, session_bind]
  split <;> exact ⟨_, _, rfl⟩

theorem untraced_of_ok {α : Type} {body : Analysis α} {a : α}
    (ended : body { m with session := { m.session with trace := none } } = .ok a m') :
  untraced body m = .ok a { m' with session := { m'.session with trace := m.session.trace } }
  := by
  rw [untraced, session_bind, changeSession_bind, bind_of_ok ended]
  rfl

def isDeclarable (t : Tree) : Bool :=
  (spanOf t).isSome && (t.get .declarations).items.all (·.kind == .variableDeclarator)

theorem exec_declares (k : Nat) (live : m.state.isBottom = false) (within : m.Within own scope)
    (declaration : isDeclaration t = true) (declarable : isDeclarable t = true) :
  ∃ m', (engine (k + 1)).exec t true m = .ok () m' ∧
    Declares own (variablesOf t) (functionsOf t) m m'
  := by
  rw [isDeclarable, Bool.and_eq_true, List.all_eq_true] at declarable
  obtain ⟨notes, entered⟩ := enterStatement_ok m declarable.1
  change ∃ m', execStatement (engine k) t true m = .ok () m' ∧ _
  rw [execStatement, isBottom_bind, live, if_neg Bool.false_ne_true, bind_of_ok entered]
  rw [isDeclaration, Bool.or_eq_true, beq_iff_eq, beq_iff_eq] at declaration
  have within' (notes' : Notes) (session : Session) :
      Machine.Within own scope { m with notes := notes', session } :=
    ⟨within.lref, within.found, within.old⟩
  rcases declaration with kind | kind
  · obtain ⟨notes', session, passed⟩ := passThrough_ok t
      { m with notes, session := { m.session with last := some t } }
    obtain ⟨m', declared, declares⟩ := declareFunction_declares t
      (within' notes' { session with trace := none })
    have noVariables : variablesOf t = [] := if_neg (by rw [kind]; decide)
    rw [noVariables, functionsOf, if_pos kind, kind]
    refine ⟨_, Eq.trans ?_ (untraced_of_ok (m := { m with notes := notes', session }) declared),
      declares.congr rfl rfl rfl rfl⟩
    dsimp only
    rw [whole, bind_of_ok passed]
  · obtain ⟨m', declared, declares⟩ := declareAll_declares (engine k)
      (within' notes { m.session with last := some t })
      (fun u member => beq_iff_eq.1 (declarable.2 u member))
    have noFunctions : functionsOf t = [] := if_neg (by rw [kind]; decide)
    rw [noFunctions, variablesOf, if_pos kind, kind]
    exact ⟨m', declared, declares.congr rfl rfl rfl rfl⟩

theorem declares_nothing (other : ¬ isDeclaration t = true) : variablesOf t = [] ∧ functionsOf t = []
  := by
  rw [isDeclaration, Bool.or_eq_true, beq_iff_eq, beq_iff_eq, not_or] at other
  exact ⟨if_neg other.2, if_neg other.1⟩

theorem hoist_declares (k : Nat) (live : m.state.isBottom = false)
    (within : m.Within own scope) (declarable : ∀ t ∈ l, isDeclaration t = true → isDeclarable t = true) :
  ∃ m', hoist (engine (k + 1)) l m = .ok () m' ∧
    Declares own (l.flatMap variablesOf) (l.flatMap functionsOf) m m'
  := by
  induction l generalizing m scope with
  | nil => exact ⟨m, rfl, .of_same rfl rfl rfl rfl rfl⟩
  | cons t l ih =>
    rw [hoist, List.flatMap_cons, List.flatMap_cons]
    have later : ∀ u ∈ l, isDeclaration u = true → isDeclarable u = true := fun u member =>
      declarable u (List.mem_cons_of_mem t member)
    split
    · rename_i declaration
      obtain ⟨m1, ran, first⟩ := exec_declares k live within declaration
        (declarable t List.mem_cons_self declaration)
      obtain ⟨scope1, within1, -⟩ := first.within within
      obtain ⟨m', rest, second⟩ := ih (first.isBottom.trans live) within1 later
      refine ⟨m', ?_, first.trans second⟩
      rw [bind_of_ok ran]
      exact rest
    · rename_i other
      rw [(declares_nothing other).1, (declares_nothing other).2]
      exact ih live within later

/-! ### The scope that a function begins with -/

def argument? (x : Text) : List Tree → List Value → Option Value
  | p :: ps, v :: vs => (argument? x ps vs).or (if nameKey (p.get .name) = .text x then some v else none)
  | _, _ => none

theorem bindParams_get? (x : Text) (ps : List Tree) (vs : List Value) (o : Obj) :
  (bindParams o ps vs).get? (.text x) = (argument? x ps vs).or (o.get? (.text x))
  := by
  fun_induction argument? x ps vs generalizing o with
  | case1 p ps v vs ih =>
    rw [bindParams, ih, Obj.get?_put, Option.or_assoc]
    split <;> rfl
  | case2 ps vs other =>
    rw [bindParams]
    · rfl
    · exact other

theorem bindParams_missing (ps : List Tree) (vs : List Value) (o : Obj) :
  (bindParams o ps vs).missing = o.missing
  := by
  fun_induction bindParams o ps vs with
  | case1 o p ps v vs ih => exact ih
  | case2 => rfl

def receiverScope : Receiver → Obj
  | .object 0 => {}
  | .object i => ({} : Obj).put "__this" (.ref ⟨i, .unbound⟩)
  | _ => {}

def entryScope (o : Obj) (args : List Value) (this : Receiver) (a : Nat) : Obj :=
  let bound := bindParams ((receiverScope this).put "arguments" (.ref ⟨a, .unbound⟩)) o.params args
  match o.env with
  | some e => bound.put "__closure" (.ref ⟨e, .unbound⟩)
  | none => bound

def callNames : List Text := ["__this", "arguments", "__closure"]

section

variable (o : Obj) (args : List Value) (this : Receiver) (a : Nat)

theorem entryScope_missing : (entryScope o args this a).missing = .isUndefined := by
  have start : (receiverScope this).missing = .isUndefined := by
    fun_cases receiverScope this <;> rfl
  rw [entryScope]
  split
  · exact (bindParams_missing _ _ _).trans start
  · exact (bindParams_missing _ _ _).trans start

theorem entryScope_get? (free : x ∉ callNames) :
  (entryScope o args this a).get? (.text x) = argument? x o.params args
  := by
  have other {y : Text} (isCallName : y ∈ callNames) : Key.text y ≠ .text x := by
    intro same
    obtain rfl := Key.text.inj same
    exact free isCallName
  have start : (receiverScope this).get? (.text x) = none := by
    fun_cases receiverScope this
    · rfl
    · rw [Obj.get?_put, if_neg (other (by decide))]
      rfl
    · rfl
  have bound : (bindParams ((receiverScope this).put "arguments" (.ref ⟨a, .unbound⟩)) o.params
      args).get? (.text x) = argument? x o.params args := by
    rw [bindParams_get?, Obj.get?_put, if_neg (other (by decide)), start, Option.or_none]
  rw [entryScope]
  split
  · rw [Obj.get?_put, if_neg (other (by decide)), bound]
  · exact bound

theorem enterFunction_within (m : Machine) :
  ∃ m', enterFunction o args this m = .ok () m' ∧
    m'.Within m.nextId (entryScope o args this (m.nextId + 1)) ∧
    m'.state.gref = m.state.gref ∧ m'.state.isBottom = m.state.isBottom ∧
    m.nextId ≤ m'.nextId ∧ ∀ i, i < m.nextId → m'.state.objs.get? i = m.state.objs.get? i
  := by
  have heap (i : Nat) : ((m.state.objs.insert m.nextId (entryScope o args this (m.nextId + 1))).insert
      (m.nextId + 1) { props := Builtin.enumerate 0 args }).get? i =
        if m.nextId + 1 = i then some { props := Builtin.enumerate 0 args } else
        if m.nextId = i then some (entryScope o args this (m.nextId + 1)) else
        m.state.objs.get? i := by
    rw [Heap.lookup_insert, Heap.lookup_insert]
  refine ⟨_, rfl, ⟨rfl, ?_, Nat.lt_add_of_pos_right Nat.two_pos⟩, rfl, rfl, Nat.le_add_right _ 2,
    fun i old => ?_⟩
  · refine (heap m.nextId).trans ?_
    rw [if_neg (Nat.succ_ne_self _), if_pos rfl]
  · refine (heap i).trans ?_
    rw [if_neg (by omega), if_neg (by omega)]

end

/-- What names mean where the statements of a function begin, in the scope of a call. -/
structure Begins (params : List Tree) (args : List Value) (l : List Tree) (own : Nat) (scope : Obj)
    (m : Machine) : Prop where
  within : m.Within own scope
  missing : scope.missing = .isUndefined
  value {x : Text} (free : x ∉ callNames) (other : .text x ∉ l.flatMap functionsOf) :
    scope.get? (.text x) =
      if .text x ∈ l.flatMap variablesOf then some .undefined else argument? x params args
  denotes {x : Text} (free : x ∉ callNames) (other : .text x ∉ l.flatMap functionsOf) :
    m.state.lookup (.text x) = .ok own ↔
      .text x ∈ l.flatMap variablesOf ∨ (argument? x params args).isSome = true
  given {x : Text} (free : x ∉ callNames) (other : .text x ∉ l.flatMap functionsOf) :
    scope.get? (.text x) = some ((argument? x params args).getD .undefined) ↔
      if .text x ∈ l.flatMap variablesOf then (argument? x params args).getD .undefined = .undefined
      else (argument? x params args).isSome = true

theorem begins_of_within {params : List Tree} {args : List Value}
    (within : m.Within own scope) (inner : m.state.gref ≠ some own)
    (missing : scope.missing = .isUndefined)
    (value : ∀ x, x ∉ callNames → .text x ∉ l.flatMap functionsOf → scope.get? (.text x) =
      if .text x ∈ l.flatMap variablesOf then some .undefined else argument? x params args) :
  Begins params args l own scope m
  := by
  refine ⟨within, missing, value _, fun {x} free other => ?_, fun {x} free other => ?_⟩
  · rw [lookup_eq_own_iff within.lref within.found inner, value x free other]
    split
    · rename_i declared
      exact iff_of_true rfl (.inl declared)
    · rename_i undeclared
      exact (or_iff_right undeclared).symm
  · rw [value x free other]
    split
    · rw [Option.some.injEq, eq_comm]
    · cases argument? x params args with
      | none => exact iff_of_false (Option.some_ne_none _).symm Bool.false_ne_true
      | some v => exact iff_of_true rfl rfl

def statementsOf (t : Tree) : List Tree :=
  (t.get .body).items.filter fun u => u.kind != .functionDeclaration

theorem callBody_begins (k : Nat) (args : List Value) (this : Receiver)
    (live : m.state.isBottom = false) (numbered : ∀ g, m.state.gref = some g → g < m.nextId)
    (isBlock : o.isExpr = false ∧ body.kind = .blockStatement) (placed : (spanOf body).isSome = true)
    (declarable : ∀ t ∈ (body.get .body).items, isDeclaration t = true → isDeclarable t = true) :
  ∃ trace scope m',
    callBody (engine (k + 2)) o body args this m = (do
      sequence (engine (k + 1)) (statementsOf body)
      changeSession fun s => { s with trace }
      return .absent : Analysis Value) m' ∧
    Begins o.params args (body.get .body).items m.nextId scope m' ∧
    ∀ i, i < m.nextId → m'.state.objs.get? i = m.state.objs.get? i
  := by
  obtain ⟨m1, entered, within, gref, isBottom, le, old⟩ := enterFunction_within o args this m
  have live1 : m1.state.isBottom = false := isBottom.trans live
  obtain ⟨notes, started⟩ := enterStatement_ok m1 placed
  obtain ⟨notes', session, passed⟩ := passThrough_ok body
    { m1 with notes, session := { m1.session with last := some body } }
  obtain ⟨m', hoisted, declares⟩ := hoist_declares k
    (m := { m1 with notes := notes', session := { session with trace := none } }) live1
    ⟨within.lref, within.found, within.old⟩ declarable
  obtain ⟨scope, within', missing, values⟩ := declares.within
    ⟨within.lref, within.found, within.old⟩
  have ran : (engine (k + 2)).exec body false m1 = (do
      sequence (engine (k + 1)) (statementsOf body)
      changeSession fun s => { s with trace := session.trace }) m' := by
    change execStatement (engine (k + 1)) body false m1 = _
    rw [execStatement, isBottom_bind, live1, if_neg Bool.false_ne_true, bind_of_ok started, isBlock.2]
    dsimp only
    rw [whole, bind_of_ok passed, untraced, session_bind, changeSession_bind, hoistedSequence,
      bind_assoc, bind_of_ok hoisted]
    rfl
  refine ⟨session.trace, scope, m', ?_, begins_of_within within' ?_ ?_ ?_, fun i before => ?_⟩
  · rw [callBody, bind_of_ok entered, isBlock.1, if_neg Bool.false_ne_true, bind_of_eq ran, bind_assoc]
  · intro same
    exact Nat.lt_irrefl _ (numbered _ (gref.symm.trans (declares.gref.symm.trans same)))
  · exact missing.trans (entryScope_missing ..)
  · intro x free other
    rw [values x other, entryScope_get? o args this _ free]
  · rw [declares.others i (Nat.ne_of_lt before) (Nat.lt_of_lt_of_le before le), old i before]

/-- The scope of a call lists the parameters that have an argument and the variables that are declared
directly in the body, which are undefined, and exactly these names belong to it.  While the scope lists
a name, the name is read and written there.  But where a variable is declared without a value, and where
a block begins in which one is declared, it becomes undefined. -/
theorem scope_lists_arguments_and_declarations (k : Nat) :
  (∀ {m : Machine} {o : Obj} {body : Tree} (args : List Value) (this : Receiver),
    m.state.isBottom = false → (∀ g, m.state.gref = some g → g < m.nextId) →
    o.isExpr = false ∧ body.kind = .blockStatement → (spanOf body).isSome = true →
    (∀ t ∈ (body.get .body).items, isDeclaration t = true → isDeclarable t = true) →
    ∃ trace scope m',
      callBody (engine (k + 2)) o body args this m = (do
        sequence (engine (k + 1)) (statementsOf body)
        changeSession fun s => { s with trace }
        return .absent : Analysis Value) m' ∧
      Begins o.params args (body.get .body).items m.nextId scope m' ∧
      ∀ i, i < m.nextId → m'.state.objs.get? i = m.state.objs.get? i) ∧
  (∀ {m : Machine} {own : Nat} {scope : Obj} {x : Text} {v : Value}, m.Within own scope →
    scope.missing = .isUndefined → scope.get? (.text x) = some v → Owned own scope x v m) ∧
  (∀ {m : Machine} {own : Nat} {scope : Obj} {t : Tree} {hoisting : Bool} (r : Engine),
    m.Within own scope → t.kind = .variableDeclarator →
    (hoisting || (t.get .initial).isNull) = true →
    ∃ m', declare r t hoisting m = .ok () m' ∧ Declares own [declaredKey t] [] m m') ∧
  ∀ {m : Machine} {own : Nat} {scope : Obj} {l : List Tree}, m.state.isBottom = false →
    m.Within own scope → (∀ t ∈ l, isDeclaration t = true → isDeclarable t = true) →
    ∃ m', hoist (engine (k + 1)) l m = .ok () m' ∧
      Declares own (l.flatMap variablesOf) (l.flatMap functionsOf) m m'
  := by
  refine ⟨?_, ?_, ?_, ?_⟩
  · intro m o body args this live numbered isBlock placed declarable
    exact callBody_begins k args this live numbered isBlock placed declarable
  · intro m own scope x v within missing listed
    exact owned_of_listed within listed missing
  · intro m own scope t hoisting r
    exact declare_declares r
  · intro m own scope l
    exact hoist_declares k

/-- Knowing nothing, declares a function that declares one of its parameters and, inside of a block, a
variable. -/
def declareSample : Analysis Obj := do
  setState (← fresh true)
  let p ← parseScript "function f(x, y) \x7b var y; if (x) \x7b var z; \x7d \x7d" 1
  hoist (engine 30) (p.tree.get .body).items
  object 1

/-- What is checked of the function before it is called with two arguments. -/
def isSample (v w : Value) (o : Obj) (body : Tree) (m : Machine) : Prop :=
  let l := (body.get .body).items
  (o.isExpr = false ∧ body.kind = .blockStatement) ∧ (spanOf body).isSome = true ∧
  (∀ t ∈ l, isDeclaration t = true → isDeclarable t = true) ∧
  m.state.isBottom = false ∧ (m.state.gref = some 0 ∧ 0 < m.nextId) ∧
  l.flatMap functionsOf = [] ∧ l.flatMap variablesOf = [.text "y"] ∧
  argument? "x" o.params [v, w] = some v ∧ argument? "z" o.params [v, w] = none

instance {w : Value} : Decidable (isSample v w o body m) :=
  inferInstanceAs (Decidable (_ ∧ _))

set_option maxRecDepth 20000 in
/-- The function has its first argument, its second parameter is undefined, and the variable inside of
the block does not belong to it. -/
theorem scope_lists_arguments_and_declarations_sample :
  ∃ o body m scope m', declareSample {} = .ok o m ∧ o.body = some body ∧
    Begins o.params [.prim (.bool true), .prim (.bool false)] (body.get .body).items m.nextId scope m' ∧
    scope.get? (.text "x") = some (.prim (.bool true)) ∧ scope.get? (.text "y") = some .undefined ∧
    m'.state.lookup (.text "z") ≠ .ok m.nextId ∧
    Owned m.nextId scope "x" (.prim (.bool true)) m'
  := by
  have found : ends declareSample {} (fun o m => o.body.any fun body =>
      decide (isSample (.prim (.bool true)) (.prim (.bool false)) o body m)) = true := by decide +kernel
  obtain ⟨o, m, declared, found⟩ := exists_of_ends found
  cases isBody : o.body with
  | none =>
    rw [isBody] at found
    cases found
  | some body =>
    rw [isBody] at found
    obtain ⟨isBlock, placed, declarable, live, ⟨global, old⟩, noFunctions, isDeclared, first, none⟩ :=
      of_decide_eq_true found
    have numbered (g : Nat) (isGlobal : m.state.gref = some g) : g < m.nextId := by
      cases global.symm.trans isGlobal
      exact old
    obtain ⟨call, owned, -⟩ := scope_lists_arguments_and_declarations 28
    obtain ⟨trace, scope, m', -, begins, -⟩ := call [.prim (.bool true), .prim (.bool false)] .unbound
      live numbered isBlock placed declarable
    have free (x : Text) : Key.text x ∉ (body.get .body).items.flatMap functionsOf := by
      rw [noFunctions]
      exact List.not_mem_nil
    have x := begins.value (x := "x") (by decide) (free _)
    have y := begins.value (x := "y") (by decide) (free _)
    have z := begins.denotes (x := "z") (by decide) (free _)
    rw [isDeclared] at x y z
    rw [first, if_neg (by decide)] at x
    rw [if_pos (by decide)] at y
    rw [none] at z
    refine ⟨o, body, m, scope, m', declared, isBody, begins, x, y, fun own => ?_,
      owned begins.within begins.missing x⟩
    revert own
    rw [z]
    decide

/-- A program with a parameter for which there is no argument. -/
def runSample : Analysis Unit := do
  setState (← fresh true)
  let p ← parseScript "x = 1; function f(x) \x7b return x; \x7d y = f();" 1
  hoistedSequence (engine 30) (p.tree.get .body).items

set_option maxRecDepth 20000 in
/-- The parameter is not undefined, but the variable of the same name outside of the function. -/
theorem runSample_reads_outer :
  ∃ m, runSample {} = .ok () m ∧ globalValue? m "y" = some (.prim (.num (.ofNat 1)))
  := by
  have found : ends runSample {} (fun _ m =>
      globalValue? m "y" == some (.prim (.num (.ofNat 1)))) = true := by decide +kernel
  obtain ⟨_, m, ended, found⟩ := exists_of_ends found
  exact ⟨m, ended, beq_iff_eq.1 found⟩

end Analysis

end ScriptLens
