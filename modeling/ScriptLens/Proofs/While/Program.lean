import ScriptLens.Proofs.While.Statement

/-!
# Programs of the while-language

If the guarded analysis of a program of the while-language ends, then so does the analysis, with the
same result, and the result covers all runs of the program: every value that an expression takes is
among those noted on it, and the final state stands for every store in which a run ends.
-/

open ScriptLens.State ScriptLens.Builtin ScriptLens.Machine ScriptLens.Analysis List

namespace ScriptLens.Tree

mutual

def nodes : Tree → List Tree
  | .list l => listNodes l
  | .node r k as =>
    if k == .record then attrNodes as else .node r k as :: attrNodes as
  | _ => []

def listNodes : List Tree → List Tree
  | [] => []
  | t :: l => nodes t ++ listNodes l

def attrNodes : List (Attr × Tree) → List Tree
  | [] => []
  | (_, t) :: as => nodes t ++ attrNodes as

end

def WellNumbered (t : Tree) : Prop := (t.nodes.map ref).Nodup

instance (t : Tree) : Decidable t.WellNumbered := inferInstanceAs (Decidable (Nodup _))

variable {t u : Tree}

theorem self_mem_nodes (isNode : t.kind ≠ .record) : t ∈ t.nodes := by
  cases t with
  | node r k as =>
    have other : (k == .record) = false := beq_eq_false_iff_ne.2 isNode
    rw [nodes, other]
    exact mem_cons_self
  | _ => exact (isNode rfl).elim

theorem mem_listNodes {s : Tree} {l : List Tree} (listed : s ∈ l) (member : u ∈ s.nodes) :
  u ∈ listNodes l
  := by
  induction l with
  | nil => cases listed
  | cons t l ih =>
    rw [listNodes, mem_append]
    rcases mem_cons.1 listed with rfl | later
    · exact .inl member
    · exact .inr (ih later)

variable {a : Attr} {as : List (Attr × Tree)}

theorem mem_attrNodes (member : u ∈ ((as.lookup a).getD null).nodes) : u ∈ attrNodes as := by
  induction as with
  | nil => cases member
  | cons p as ih =>
    obtain ⟨b, t⟩ := p
    rw [attrNodes, List.mem_append]
    rw [List.lookup_cons] at member
    cases same : a == b with
    | true =>
      rw [same] at member
      exact .inl member
    | false =>
      rw [same] at member
      exact .inr (ih member)

theorem attrNodes_subset {r : Nat} {k : Kind} (member : u ∈ attrNodes as) : u ∈ (node r k as).nodes
  := by
  rw [nodes]
  split
  · exact member
  · exact mem_cons_of_mem _ member

theorem get_nodes_subset (member : u ∈ (t.get a).nodes) : u ∈ t.nodes := by
  cases t with
  | node r k as => exact attrNodes_subset (mem_attrNodes member)
  | _ => cases member

theorem items_subset_nodes (item : u ∈ t.items) (isNode : u.kind ≠ .record) : u ∈ t.nodes := by
  cases t with
  | list l =>
    rw [nodes]
    exact mem_listNodes item (self_mem_nodes isNode)
  | _ => cases item

mutual

theorem nodes_trans (member : u ∈ t.nodes) : ∀ root : Tree, t ∈ root.nodes → u ∈ root.nodes
  | .list l, inside => listNodes_trans member l inside
  | .node r k as, inside => by
    rw [nodes] at inside
    split at inside
    · exact attrNodes_subset (attrNodes_trans member as inside)
    · rcases mem_cons.1 inside with rfl | deeper
      · exact member
      · exact attrNodes_subset (attrNodes_trans member as deeper)

theorem listNodes_trans (member : u ∈ t.nodes) :
  ∀ l : List Tree, t ∈ listNodes l → u ∈ listNodes l
  | s :: l, inside => by
    rw [listNodes, mem_append] at inside ⊢
    exact inside.imp (nodes_trans member s) (listNodes_trans member l)

theorem attrNodes_trans (member : u ∈ t.nodes) :
  ∀ as : List (Attr × Tree), t ∈ attrNodes as → u ∈ attrNodes as
  | (_, s) :: as, inside => by
    rw [attrNodes, mem_append] at inside ⊢
    exact inside.imp (nodes_trans member s) (attrNodes_trans member as)

end

end ScriptLens.Tree

namespace ScriptLens

namespace Builtin

theorem fill_get? (h : Heap) (i j : Nat) (l : List Obj) :
  (fill h i l).get? j = if i ≤ j ∧ j < i + l.length then l[j - i]? else h.get? j
  := by
  induction l generalizing h i with
  | nil =>
    rw [fill, if_neg]
    rintro ⟨le, lt⟩
    simp at lt
    omega
  | cons o l ih =>
    rw [fill, ih, Heap.lookup_insert, length_cons]
    by_cases same : i = j
    · subst same
      rw [if_neg (by omega), if_pos rfl, if_pos (by omega), Nat.sub_self, getElem?_cons_zero]
    · rw [if_neg same]
      by_cases inside : i + 1 ≤ j ∧ j < i + 1 + l.length
      · have next : j - i = j - (i + 1) + 1 := by omega
        rw [if_pos inside, if_pos (by omega), next, getElem?_cons_succ]
      · rw [if_neg inside, if_neg (by omega)]

theorem fixed_of_mem {i : Nat} {o : Obj} (found : (objects ++ [({} : Obj)])[i - 1]? = some o) :
  o.Fixed i
  := by
  have noEnv : ∀ o ∈ objects, o.env = none := by decide
  rw [getElem?_append] at found
  split at found
  · refine ⟨noEnv o (mem_of_getElem? found), ?_⟩
    rw [propsOf, found]
    rfl
  · rename_i outside
    have last : i - 1 - objects.length = 0 := by
      have := (List.getElem?_eq_some_iff.1 found).1
      simpa using this
    have big : deferredId ≤ i := by
      have : deferredId = objects.length + 1 := rfl
      have : 0 < objects.length := by decide
      omega
    rw [last] at found
    cases found
    exact ⟨rfl, (propsOf_eq_nil big).symm⟩

def bind (names : List (String × Nat)) (o : Obj) : Obj :=
  names.foldl (fun o p => o.put p.1 (.ref ⟨p.2, .unbound⟩)) o

theorem populate_get? (s : State) (objs : List Obj) (names : List (String × Nat)) (i : Nat) :
  (populate s objs names).objs.get? i =
    if i = 0 then (s.objs.get? 0).map (bind names)
    else if i < objs.length + 1 then objs[i - 1]? else s.objs.get? i
  := by
  apply (Heap.lookup_update _ 0 i (bind names)).trans
  rw [fill_get?]
  by_cases zero : i = 0
  · subst zero
    rw [if_pos rfl, if_pos rfl, if_neg (by omega)]
  · rw [if_neg (Ne.symm zero), if_neg zero]
    by_cases inside : i < objs.length + 1
    · rw [if_pos (by omega), if_pos inside]
    · rw [if_neg (by omega), if_neg inside]

theorem start_heap : startState.objs.Fixed := by
  intro i o positive found
  rw [startState, populate_get?, if_neg positive] at found
  split at found
  · apply fixed_of_mem found
  · rename_i outside
    rw [plainState, populate_get?, if_neg positive] at found
    split at found
    · rename_i inside
      rw [length_append] at outside
      omega
    · rw [Heap.lookup_insert, if_neg (Ne.symm positive)] at found
      cases found

theorem start_scope :
  startState.objs.get? 0 =
    some (bind [(deferredName, deferredId)] (bind symbols unknownObj))
  := by
  rw [startState, populate_get?, if_pos rfl, plainState, populate_get?, if_pos rfl,
    Heap.lookup_insert, if_pos rfl]
  rfl

theorem start_props :
  (bind [(deferredName, deferredId)] (bind symbols unknownObj)).props =
    (symbols ++ [(deferredName, deferredId)]).map fun p => (.text p.1, .ref ⟨p.2, .unbound⟩)
  := by
  rfl

theorem mem_globals_of_start {p : Key × Value}
    (member : p ∈ (bind [(deferredName, deferredId)] (bind symbols unknownObj)).props) :
  p ∈ globals
  := by
  rw [start_props] at member
  obtain ⟨q, inside, rfl⟩ := mem_map.1 member
  apply mem_map_of_mem
  rcases mem_append.1 inside with symbol | deferred
  · apply mem_cons_of_mem _ symbol
  · rw [mem_singleton.1 deferred]
    apply mem_cons_self

theorem start_isScope : (bind [(deferredName, deferredId)] (bind symbols unknownObj)).Scope
  := by
  refine ⟨rfl, rfl, ?_, ?_⟩
  · rw [start_props]
    decide
  · intro p member
    left
    apply mem_globals_of_start member

end Builtin

namespace State

theorem start_shape : startState.Shape := by
  refine ⟨rfl, rfl, rfl, rfl, rfl, .top, ?_, start_heap⟩
  exact ⟨_, start_scope, start_isScope⟩

theorem start_describes (ρ : While.Store) : startState.Describes ρ := by
  use rfl
  intro o found
  cases start_scope.symm.trans found
  intro x v free found
  have member := start_isScope.distinct.get?_text.1 found
  apply (free (mem_reserved (mem_globals_of_start member))).elim

end State

theorem Machine.start_tame {E : Tree → Prop} {options : Options}
    (keepsTops : options.cleanTopObjects = false) (isQuiet : Bool) (source : Text) (p : Parsed) :
  (start options isQuiet source p).Tame E
  := by
  have blank : (({} : Notes).markTree p.tree).Blank := Notes.Blank.markTree ⟨Notes.well_empty, rfl⟩ p.tree
  refine ⟨keepsTops, start_shape.tame, tame_bottom, rfl, rfl, Nat.lt_succ_self _,
    blank.well, ?_⟩
  intro t v _ found
  have none := blank.valueOf_eq t
  rw [start, none] at found
  cases found

open While

namespace Analysis

variable {E : Tree → Prop} {m m' : Machine} {r : Engine} {ρ : Store}

/-! ### The end of a program -/

theorem deferredObject_eq {i : Nat} (tame : m.Tame E) (notBottom : m.state.isBottom = false)
    (run : deferredObject m = .ok i m') : i = deferredId ∧ m' = m
  := by
  have shape := tame.state.shape notBottom
  obtain ⟨o, found, scope⟩ := shape.scope
  have only : ∀ v, o.get? (.text deferredName) = some v →
      v = .ref ⟨deferredId, .unbound⟩ := by
    intro v present
    rcases scope.listed _ (scope.distinct.get?_text.1 present) with builtin | ⟨x, name, free, -⟩
    · have start : (.text deferredName, .ref ⟨deferredId, .unbound⟩) ∈ globals :=
        mem_cons_self
      apply globals_unique builtin start
    · obtain rfl := Key.text.inj name
      apply (free (by decide)).elim
  rw [deferredObject, globalId_bind shape.globalId_eq, object_bind found] at run
  cases present : o.get? (.text deferredName) with
  | none =>
    rw [present] at run
    cases run
  | some v =>
    rw [present, only v present] at run
    cases run
    exact ⟨rfl, rfl⟩

theorem deferredFunctions_eq {l : List Ref} (tame : m.Tame E)
    (run : deferredFunctions deferredId m = .ok l m') : l = [] ∧ m' = m
  := by
  have positive : deferredId ≠ 0 := by decide
  cases found : m.state.objs.get? deferredId with
  | none =>
    obtain ⟨o, m1, asked, -⟩ := bind_eq_ok.1 run
    change (ofExcept (m.state.obj deferredId)) m = .ok o m1 at asked
    rw [obj, found] at asked
    cases asked
  | some o =>
    rw [deferredFunctions, object_bind found] at run
    cases run
    have fixed := (tame.state.heap _ o positive found).2
    rw [fixed, propsOf_eq_nil (Nat.le_refl _)]
    exact ⟨rfl, rfl⟩

theorem settle_spec (n : Nat) {header : State} {round rounds : Nat} (tame : m.Tame E)
    (tameH : header.Tame) (run : settle r deferredId header round n m = .ok rounds m') :
  m.Leads E m' ∧ ∀ ρ, m.state.Describes ρ → m'.state.Describes ρ
  := by
  induction n generalizing m header round with
  | zero =>
    rw [settle] at run
    cases run
  | succ n ih =>
    rw [settle] at run
    obtain ⟨previous, m1, cloned, run⟩ := bind_eq_ok.1 run
    obtain ⟨leads1, same1, copy⟩ := clone_leads tame tameH cloned
    obtain ⟨_, m2, collected, run⟩ := bind_eq_ok.1 run
    obtain ⟨leads2, mirrors2⟩ := collect_leads leads1.tame collected
    obtain ⟨joined, m3, absorbed, run⟩ := bind_eq_ok.1 run
    obtain ⟨leads3, tameJ, grows, same3⟩ := absorb_leads leads2.tame tameH absorbed
    obtain ⟨previous1, m4, collected1, run⟩ := bind_eq_ok.1 run
    obtain ⟨leads4, same4, mirrors4⟩ := collectIn_leads leads3.tame copy.tame collected1
    obtain ⟨header1, m5, collected2, run⟩ := bind_eq_ok.1 run
    obtain ⟨leads5, same5, mirrors5⟩ := collectIn_leads leads4.tame tameJ collected2
    obtain ⟨previous2, m6, unified, run⟩ := bind_eq_ok.1 run
    obtain ⟨leads6, same6, mirrors6⟩ := unify_leads leads5.tame mirrors4.tame mirrors5.tame unified
    obtain ⟨previous3, m7, collected3, run⟩ := bind_eq_ok.1 run
    obtain ⟨leads7, same7, -⟩ := collectIn_leads leads6.tame mirrors6.tame collected3
    obtain ⟨functions, m8, asked, after⟩ := bind_eq_ok.1 run
    obtain ⟨rfl, rfl⟩ := deferredFunctions_eq leads7.tame asked
    have sameState := same7.trans (same6.trans (same5.trans same4))
    have leads := leads1.trans (leads2.trans (leads3.trans (leads4.trans (leads5.trans
      (leads6.trans leads7)))))
    have keeps : ∀ ρ, m.state.Describes ρ → m8.state.Describes ρ := by
      intro ρ describes
      rw [← same1] at describes
      rw [sameState]
      apply (same3 ρ).2 (grows ρ ((mirrors2.describes ρ).2 describes))
    obtain ⟨equal, -, last⟩ := lift_except_bind_eq_ok.1 after
    cases equal with
    | true =>
      cases last
      exact ⟨leads, keeps⟩
    | false =>
      obtain ⟨leads', keeps'⟩ := ih leads.tame mirrors5.tame last
      exact ⟨leads.trans leads', fun ρ describes => keeps' ρ (keeps ρ describes)⟩

/-! ### Whole programs -/

instance (line : Text) : Keeps Quiet (report line) := by
  have prints : Keeps Quiet (print line) := .change fun _ => .aside
  unfold report
  infer_instance

theorem runBody_refines (t : Tree) (n : Nat) :
  Refines (runBody (guarded n) t) (runBody (engine n) t)
  := by
  have refines : refinement.Related (runBody (guarded n) t) (runBody (engine n) t) := inferInstance
  exact refines.rel

theorem runBody_covers {t : Tree} (nodes : Nodes E) (program : Program t)
    (inside : ∀ s ∈ (t.get .body).items, E s) {n : Nat} (tame : m.Tame E)
    (run : runBody (guarded n) t m = .ok () m') {ρ' : Store} {es : List Event}
    (describes : m.state.Describes ρ) (finishes : Finishes t ρ es ρ') :
  m'.Tame E ∧ m'.state.Describes ρ' ∧ ∀ e ∈ es, m'.Noted e
  := by
  rw [runBody, hoistedSequence_eq program] at run
  obtain ⟨_, m1, reported, run⟩ := bind_eq_ok.1 run
  have quiet1 := quiet_run reported
  obtain ⟨_, m2, ran, run⟩ := bind_eq_ok.1 run
  have follows := (guarded_follower nodes n).sequence nodes
    (fun s member => ⟨inside s member, program s member⟩) m1 m2 (quiet1.tame tame) ran
  rw [← quiet1.state] at describes
  obtain ⟨noted, ends⟩ := follows.covers ρ es false ρ' describes finishes
  obtain ⟨_, m3, reported, run⟩ := bind_eq_ok.1 run
  have quiet3 := quiet_run reported
  obtain ⟨_, m4, collected, run⟩ := bind_eq_ok.1 run
  have leads3 := quiet3.leads follows.leads.tame
  obtain ⟨leads4, mirrors⟩ := collect_leads leads3.tame collected
  have ends4 : m4.state.Describes ρ' := by
    apply (mirrors.describes ρ').2
    rw [quiet3.state]
    apply ends
  obtain ⟨_, m5, reported, run⟩ := bind_eq_ok.1 run
  have quiet5 := quiet_run reported
  have leads5 := quiet5.leads leads4.tame
  rw [← quiet5.state] at ends4
  obtain ⟨i, m6, asked, after⟩ := bind_eq_ok.1 run
  obtain ⟨rfl, rfl⟩ := deferredObject_eq leads5.tame ends4.1 asked
  obtain ⟨rounds, m7, settled, last⟩ := bind_eq_ok.1 after
  obtain ⟨leads7, keeps⟩ := settle_spec _ leads5.tame tame_bottom settled
  have quiet := quiet_run last
  have leads := leads3.trans (leads4.trans (leads5.trans (leads7.trans (quiet.leads leads7.tame))))
  refine ⟨leads.tame, ?_, ?_⟩
  · rw [quiet.state]
    apply keeps ρ' ends4
  · intro e member
    have isNode := finishes.inside nodes (fun s member => ⟨inside s member, _, program s member⟩)
    apply leads.noted e (isNode e member) (noted e member)

end Analysis

/-! ### Whole texts -/

theorem Tree.WellNumbered.nodes {t : Tree} (numbered : t.WellNumbered) : Nodes (· ∈ t.nodes) := by
  constructor
  · intro u v inside insideV same
    rw [inj_on_of_nodup_map numbered insideV inside same]
  · intro u a inside isNode
    exact nodes_trans (get_nodes_subset (self_mem_nodes isNode)) t inside
  · intro u a l s inside list listed isNode
    have item : s ∈ (u.get a).items := list ▸ listed
    exact nodes_trans (get_nodes_subset (items_subset_nodes item isNode)) t inside

/-- The analysis of a program text that fails if two nodes of the program have one number, or if what
it found out about a loop does not cover what happened in it. -/
def analyzeGuarded (options : Options) (isQuiet : Bool) (source : Text) :
    Except Failure Outcome := do
  let p ← parseScript source 1
  if !p.tree.WellNumbered then throw (.broken "")
  let body := runBody (guarded patience) p.tree
  match body (start options isQuiet source p) with
  | .ok _ m => return { tree := p.tree, machine := m }
  | .error (.failure f) _ => throw f
  | .error (.unwind _) _ => throw .unfinished

theorem analyzeGuarded_eq_ok {options : Options} {isQuiet : Bool} {source : Text} {o : Outcome}
    (checked : analyzeGuarded options isQuiet source = .ok o) :
  ∃ p, parseScript source 1 = .ok p ∧ p.tree = o.tree ∧ o.tree.WellNumbered ∧
    runBody (guarded patience) o.tree
      (start options isQuiet source p) = .ok () o.machine
  := by
  obtain ⟨p, parsed, result⟩ := except_bind_eq_ok.1 checked
  by_cases numbered : p.tree.WellNumbered
  · simp only [numbered, decide_true, Bool.not_true, Bool.false_eq_true, if_false] at result
    cases run : runBody (guarded patience) p.tree
        (start options isQuiet source p) with
    | ok _ m =>
      rw [run] at result
      cases result
      exact ⟨p, parsed, rfl, numbered, run⟩
    | error e m =>
      rw [run] at result
      cases e <;> cases result
  · simp only [numbered, decide_false, Bool.not_false, if_true] at result
    cases result

/-- The outcome of an analysis covers a run: the final state is reached, it stands for the store in
which the run ends, and the values that expressions take on the way are noted on them. -/
structure Outcome.CoversRun (o : Outcome) (es : List Event) (ρ : Store) : Prop where
  reached : o.machine.state.isBottom = false
  scope : ∃ i g, o.machine.state.gref = some i ∧ o.machine.state.objs.get? i = some g ∧
    g.missing = .isTop ∧ g.Allows ρ
  values : ∀ e ∈ es, o.machine.Noted e

/-- If the guarded analysis of a program of the while-language ends, then so does the analysis, with
the same outcome, and it covers all runs of the program that reach its end. -/
theorem analyze_covers_runs {options : Options} (keepsTops : options.cleanTopObjects = false)
    {isQuiet : Bool} {source : Text} {o : Outcome}
    (checked : analyzeGuarded options isQuiet source = .ok o) (program : Program o.tree) :
  analyze options isQuiet source = .ok o ∧
    ∀ ρ es ρ', Finishes o.tree ρ es ρ' → o.CoversRun es ρ'
  := by
  obtain ⟨p, parsed, same, numbered, run⟩ := analyzeGuarded_eq_ok checked
  constructor
  · have ran := runBody_refines o.tree _ _ _ _ run
    apply except_bind_eq_ok.2
    use p, parsed
    simp only [reporting, same, ran]
    rfl
  · intro ρ es ρ' finishes
    have inside : ∀ s ∈ (o.tree.get .body).items, s ∈ o.tree.nodes := fun s member =>
      Tree.get_nodes_subset (Tree.items_subset_nodes member (program s member).kind_ne)
    obtain ⟨tame, describes, noted⟩ := runBody_covers numbered.nodes program inside
      (start_tame keepsTops isQuiet source p) run (start_describes ρ) finishes
    have shape := tame.state.shape describes.1
    obtain ⟨g, found, scope⟩ := shape.scope
    exact ⟨describes.1, ⟨0, g, shape.gref, found, scope.missing, describes.2 g found⟩, noted⟩

/-! ### Two programs -/

namespace While

variable {t s l : Tree} {x : Text} {n : Int} {k : Kind}

instance : Decidable (t = .null)
  := decidable_of_iff (t.isNull = true) (by cases t <;> simp [Tree.isNull])

instance : Decidable (t = .text x)
  := decidable_of_iff (t.text? = some x) (by cases t <;> simp [Tree.text?])

abbrev IsName (t : Tree) (x : Text) : Prop :=
  t.kind = .identifier ∧ t.get .operator = .null ∧ t.get .name = .text x ∧ x ∉ reserved

theorem IsName.arithmetic (name : IsName t x) : Arithmetic t
  := .name name.1 name.2.1 name.2.2.1 name.2.2.2

theorem IsName.evaluates (name : IsName t x) (ρ : Store) : Evaluates ρ t (ρ x) [(t, ρ x)]
  := .name name.1 name.2.2.1

abbrev IsNumber (t : Tree) (n : Int) : Prop :=
  t.kind = .literal ∧ t.get .operator = .null ∧ literal? (t.get .value) = some (.num (.ofInt n)) ∧
    (Double.ofInt n).isNaN = false

theorem IsNumber.arithmetic (number : IsNumber t n) : Arithmetic t
  := .literal number.1 number.2.1 number.2.2.1 number.2.2.2

theorem IsNumber.evaluates (number : IsNumber t n) (ρ : Store) :
  Evaluates ρ t (.num (.ofInt n)) [(t, .num (.ofInt n))]
  := .literal number.1 number.2.2.1

abbrev IsOperation (t : Tree) (k : Kind) (op : Text) : Prop :=
  t.kind = k ∧ t.get .operator = .text op

abbrev valueOf (t : Tree) : Tree := (t.get .expression).get .right

abbrev Sets (t : Tree) (x : Text) : Prop :=
  t.kind = .expressionStatement ∧ t.get .body = .null ∧ IsOperation (t.get .expression)
    .assignmentExpression "=" ∧ IsName ((t.get .expression).get .left) x

theorem Sets.assigns (sets : Sets t x) : Assigns (t.get .expression) x
  := ⟨sets.2.2.1.1, sets.2.2.1.2, sets.2.2.2.1, sets.2.2.2.2.2.1, sets.2.2.2.2.2.2⟩

/-- Two statements that give a variable a value and change it in a loop. -/
abbrev Counts (s l : Tree) (x : Text) : Prop :=
  Sets s x ∧ l.kind = .whileStatement ∧ l.get .initial = .null ∧ l.get .update = .null ∧
    Sets (l.get .body) x

def consists (t : Tree) (asks : Tree → Tree → Bool) : Bool :=
  match (t.get .body).items with
  | [s, l] => asks s l
  | _ => false

theorem consists_eq_true {asks : Tree → Tree → Bool} (found : consists t asks = true) :
  ∃ s l, (t.get .body).items = [s, l] ∧ asks s l = true
  := by
  unfold consists at found
  split at found
  · rename_i s l items
    exact ⟨s, l, items, found⟩
  · cases found

section

variable (items : (t.get .body).items = [s, l]) (counts : Counts s l x)

include items counts

theorem Counts.program (value : Arithmetic (valueOf s)) (test : Condition (l.get .test))
    (step : Arithmetic (valueOf (l.get .body))) : Program t
  := by
  obtain ⟨first, kind, initial, update, body⟩ := counts
  intro u member
  rw [items, mem_pair] at member
  obtain rfl | rfl := member
  · exact .assign first.1 first.2.1 first.assigns value
  · exact .loop kind initial update test (.assign body.1 body.2.1 body.assigns step)

theorem Counts.finishes {ρ : Store} {v v' w w' : Concrete} {es fs gs hs : List Event}
    (value : Evaluates ρ (valueOf s) v es) (test : Evaluates (ρ.set x v) (l.get .test) w fs)
    (goes : w.toBool = true) (step : Evaluates (ρ.set x v) (valueOf (l.get .body)) v' gs)
    (last : Evaluates ((ρ.set x v).set x v') (l.get .test) w' hs) (stops : w'.toBool = false) :
  ∃ es, Finishes t ρ es ((ρ.set x v).set x v')
  := by
  obtain ⟨first, kind, -, -, body⟩ := counts
  unfold Finishes
  rw [items]
  exact ⟨_, .cons (.assign first.1 first.assigns value) (.loopStep kind test goes
    (.assign body.1 body.assigns step) (.loopEnd kind last stops))⟩

end

end While

set_option maxRecDepth 20000 in
/-- A loop that counts down is covered. -/
theorem analyze_covers_countdown :
  ∃ o es ρ, analyzeGuarded {} true "x = 1; while (x) x = x - 1;" = .ok o ∧
    Program o.tree ∧ Finishes o.tree (fun _ => .undefined) es ρ ∧ ρ "x" = .num (.ofNat 0) ∧
    analyze {} true "x = 1; while (x) x = x - 1;" = .ok o ∧ o.CoversRun es ρ
  := by
  have found : (analyzeGuarded {} true "x = 1; while (x) x = x - 1;").toOption.any (fun o =>
      consists o.tree fun s l => let e := valueOf (l.get .body)
        Counts s l "x" ∧ IsNumber (valueOf s) 1 ∧ IsName (l.get .test) "x" ∧
        IsOperation e .binaryExpression "-" ∧ IsName (e.get .left) "x" ∧
        IsNumber (e.get .right) 1) = true := by decide +kernel
  obtain ⟨o, checked, found⟩ := except_any_eq_true found
  obtain ⟨s, l, items, found⟩ := consists_eq_true found
  obtain ⟨counts, value, test, minus, left, right⟩ := of_decide_eq_true found
  have program := counts.program items value.arithmetic (.arithmetic test.arithmetic)
    (.binary (o := .sub) minus.1 minus.2 (by decide) rfl left.arithmetic right.arithmetic)
  obtain ⟨es, finishes⟩ := counts.finishes items (value.evaluates fun _ => .undefined)
    (test.evaluates _) (by decide +kernel) (.binary (o := .sub) minus.1 minus.2 (by decide)
      (left.evaluates _) (right.evaluates _)) (test.evaluates _) (by decide +kernel)
  obtain ⟨analyzed, covers⟩ := analyze_covers_runs rfl checked program
  exact ⟨o, es, _, checked, program, finishes, by decide +kernel, analyzed,
    covers _ es _ finishes⟩

set_option maxRecDepth 20000 in
/-- A loop whose condition is known to hold at first and unknown later: it is left with `x` being one,
but only the states before its first iteration and after its second one are joined. -/
theorem analyze_misses_exit :
  ∃ o es ρ, analyze {} true "x = 0; while (!x || u) x = 1 - x;" = .ok o ∧ Program o.tree ∧
    Finishes o.tree (fun _ => .undefined) es ρ ∧ ¬ o.CoversRun es ρ
  := by
  have found : (analyze {} true "x = 0; while (!x || u) x = 1 - x;").toOption.any (fun o =>
      consists o.tree fun s l => let e := valueOf (l.get .body); let c := l.get .test
        (o.machine.state.gref = some 0 ∧
          (o.machine.state.objs.get? 0).bind (fun g => g.get? (.text "x"))
            = some (.prim (.num (.ofNat 0)))) ∧
        Counts s l "x" ∧ IsNumber (valueOf s) 0 ∧ IsOperation c .logicalExpression "||" ∧
        IsOperation (c.get .left) .unaryExpression "!" ∧
        IsName ((c.get .left).get .argument) "x" ∧ IsName (c.get .right) "u" ∧
        IsOperation e .binaryExpression "-" ∧ IsNumber (e.get .left) 1 ∧
        IsName (e.get .right) "x") = true := by decide +kernel
  obtain ⟨o, analyzed, found⟩ := except_any_eq_true found
  obtain ⟨s, l, items, found⟩ := consists_eq_true found
  obtain ⟨⟨global, noted⟩, counts, value, either, negates, name, other, minus, left, right⟩ :=
    of_decide_eq_true found
  have program := counts.program items value.arithmetic
    (@Condition.logical _ true either (.negation negates.1 negates.2 (by decide)
      (.arithmetic name.arithmetic)) (.arithmetic other.arithmetic))
    (.binary (o := .sub) minus.1 minus.2 (by decide) rfl left.arithmetic right.arithmetic)
  have negation (ρ : Store) := Evaluates.unary (o := .not) negates.1 negates.2 (by decide)
    (name.evaluates ρ)
  obtain ⟨es, finishes⟩ := counts.finishes items (value.evaluates fun _ => .undefined)
    (.stop (b := true) either (negation _) (by decide +kernel)) (by decide +kernel)
    (.binary (o := .sub) minus.1 minus.2 (by decide) (left.evaluates _) (right.evaluates _))
    (.goOn (b := true) either (negation _) (by decide +kernel) (other.evaluates _))
    (by decide +kernel)
  refine ⟨o, es, _, analyzed, program, finishes, ?_⟩
  intro covers
  obtain ⟨i, g, isGlobal, found, -, allows⟩ := covers.scope
  cases global.symm.trans isGlobal
  rw [found] at noted
  rcases allows "x" _ (by decide) noted with top | ⟨d, known, alike⟩
  · cases top
  · cases known
    have truth := alike.toBool_eq
    revert truth
    decide +kernel

end ScriptLens
