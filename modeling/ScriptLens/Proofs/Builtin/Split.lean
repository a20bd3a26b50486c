import ScriptLens.Analysis.Native
import ScriptLens.Proofs.Computation
import ScriptLens.Proofs.Scan.Lines

/-!
# Splitting and joining

A text that is split at a separator and joined with it again is the same text, and a text that is
split into its letters, turned round and joined is the text backwards.
-/

namespace ScriptLens

namespace Text

open Builtin

theorem append_assoc (t u v : Text) : t ++ u ++ v = t ++ (u ++ v)
  := congrArg Text.mk Array.append_assoc

theorem intercalate_cons (sep t u : Text) (ts : List Text) :
  intercalate sep (t :: u :: ts) = t ++ sep ++ intercalate sep (u :: ts)
  := by
  change ts.foldl _ (t ++ sep ++ u) = t ++ sep ++ ts.foldl _ u
  generalize t ++ sep = first
  induction ts generalizing u with
  | nil => rfl
  | cons v ts ih =>
    rw [List.foldl_cons, List.foldl_cons, append_assoc, append_assoc, ih, append_assoc]

variable {t sep : Text} {i j n : Nat}

theorem findFrom_eq_some (found : findFrom sep t i n = some j) :
  i ≤ j ∧ j < i + n ∧ sep.occursAt t j = true
  := by
  induction n generalizing i with
  | zero => cases found
  | succ n ih =>
    rw [findFrom] at found
    split at found
    · cases found
      exact ⟨le_rfl, by omega, ‹_›⟩
    · have later := ih found
      exact ⟨by omega, by omega, later.2.2⟩

theorem find?_eq_some (found : t.find? sep i = some j) :
  i ≤ j ∧ j + sep.length ≤ t.length ∧ t.extract j (j + sep.length) = sep
  := by
  rw [find?] at found
  split at found
  · cases found
  · obtain ⟨after, before, stands⟩ := findFrom_eq_some found
    exact ⟨after, by omega, eq_of_beq stands⟩

theorem splitFrom_eq_cons (t sep : Text) (i n : Nat) : ∃ u us, t.splitFrom sep i n = u :: us := by
  cases n with
  | zero => exact ⟨_, _, rfl⟩
  | succ n =>
    rw [splitFrom]
    split <;> exact ⟨_, _, rfl⟩

theorem intercalate_splitFrom (t sep : Text) (i n : Nat) : intercalate sep (t.splitFrom sep i n) = t.drop i
  := by
  induction n generalizing i with
  | zero => rfl
  | succ n ih =>
    rw [splitFrom]
    split
    · rfl
    · rename_i j found
      obtain ⟨after, inside, stands⟩ := find?_eq_some found
      obtain ⟨u, us, rest⟩ := t.splitFrom_eq_cons sep (j + sep.length) n
      have joined := ih (j + sep.length)
      have upTo : t.extract i j ++ sep = t.extract i (j + sep.length) := by
        rw [← extract_append after (Nat.le_add_right ..), stands]
      rw [rest] at joined ⊢
      rw [intercalate_cons, joined, upTo, drop, drop, extract_append (by omega) inside]

theorem intercalate_pieces (t : Text) : intercalate "" t.pieces = t := by
  have joined (l : List Nat) : intercalate "" (l.map singleton) = ofList l := by
    induction l with
    | nil => rfl
    | cons c l ih =>
      cases l with
      | nil => rfl
      | cons d l =>
        rw [List.map_cons, List.map_cons, intercalate_cons, ← List.map_cons, ih]
        apply congrArg Text.mk
        change #[c] ++ #[] ++ (d :: l).toArray = _
        simp
  exact joined t.toList

theorem intercalate_splitText (t sep : Text) : intercalate sep (splitText t sep) = t := by
  rw [splitText]
  split
  · rename_i none
    obtain rfl : sep = "" := congrArg Text.mk (Array.isEmpty_iff.1 none)
    exact t.intercalate_pieces
  · rw [splitOn, intercalate_splitFrom, drop]
    exact congrArg Text.mk Array.extract_size

end Text

namespace Builtin

/-! ### Elements by number -/

theorem enumerate_eq (i : Int) (l : List Value) : enumerate i l = l.mapIdx fun j v => (.int (i + j), v)
  := by
  induction l generalizing i with
  | nil => rfl
  | cons v l ih =>
    rw [enumerate, ih, List.mapIdx_cons]
    simp [Int.add_assoc, Int.add_comm 1]

theorem enumerate_ordered (l : List Value) :
  (enumerate 0 l).Pairwise fun p q => p.1.int?.getD 0 < q.1.int?.getD 0
  := by
  rw [enumerate_eq]
  apply List.pairwise_iff_getElem.2
  intro i j _ _ before
  simpa [Key.int?] using before

theorem sortedProps_of_perm {ps : Props} {l : List Value} (perm : ps.Perm (enumerate 0 l)) :
  sortedProps ps = .ok (enumerate 0 l)
  := by
  have ordered := enumerate_ordered l
  have integers : ps.all (fun p => p.1.int?.isSome) = true := by
    simp [List.all_eq_true, perm.mem_iff, enumerate_eq, List.mem_mapIdx, Key.int?]
    grind
  rw [sortedProps, integers]
  split
  · rename_i short
    cases ps with
    | nil => rw [perm.nil_eq]; rfl
    | cons p ps =>
      obtain rfl : ps = [] := List.eq_nil_of_length_eq_zero (by simpa using short)
      rw [List.perm_singleton.1 perm.symm]
      rfl
  · apply congrArg Except.ok
    have sorted := List.mergeSort_perm ps fun p q => decide (p.1.int?.getD 0 ≤ q.1.int?.getD 0)
    refine List.Perm.eq_of_pairwise (fun p q here there le ge => ?_)
      (List.pairwise_mergeSort (fun _ _ _ => by grind) (fun _ _ => by grind) ps)
      (ordered.imp fun less => by grind) (sorted.trans perm)
    exact List.inj_on_of_nodup_map (List.pairwise_map.2 (ordered.imp ne_of_lt))
      ((sorted.trans perm).mem_iff.1 here) there (by grind)

def ofTexts (ts : List Text) : List Value := ts.map fun t => .prim (.text t)

theorem joined_of_perm {o : Obj} {ts : List Text} (known : o.missing = .isUndefined)
    (perm : o.props.Perm (enumerate 0 (ofTexts ts))) (sep : Text) :
  joined o (.prim (.text sep)) = .ok (.prim (.text (Text.intercalate sep ts)))
  := by
  have prims (i : Int) (us : List Text) :
      (enumerate i (ofTexts us)).mapM (fun p => primOf p.2) = .ok (us.map Prim.text) := by
    induction us generalizing i with
    | nil => rfl
    | cons u us ih =>
      rw [ofTexts, List.map_cons, enumerate, List.mapM_cons, ← ofTexts, ih]
      rfl
  have texts (us : List Text) : (us.map Prim.text).mapM textOf = .ok us := by
    induction us with
    | nil => rfl
    | cons u us ih =>
      rw [List.map_cons, List.mapM_cons, ih]
      rfl
  have plain : o.containsTop = false := by
    have other (p) (member : p ∈ o.props) : p.2.same .top = false := by
      rw [perm.mem_iff, enumerate_eq, List.mem_mapIdx] at member
      obtain ⟨j, inside, rfl⟩ := member
      simp only [ofTexts, List.getElem_map]
      rfl
    rw [Obj.containsTop, known, Bool.or_eq_false_iff, List.any_eq_false]
    exact ⟨rfl, fun p member => by simp [other p member]⟩
  rw [joined, plain]
  simp only [Bool.false_eq_true, if_false]
  change (do
    let prims ← (← sortedProps o.props).mapM fun (p : Key × Value) => primOf p.2
    return Value.prim (.text (Text.intercalate sep (← prims.mapM textOf)))) = _
  rw [sortedProps_of_perm perm, except_bind_of_ok rfl, prims, except_bind_of_ok rfl, texts]
  rfl

/-! ### Arrays backwards -/

theorem set_of_new {ps : Props} {k : Key} (new : ∀ p ∈ ps, p.1.same k = false) (v : Value) :
  ps.set k v = ps ++ [(k, v)]
  := by
  induction ps with
  | nil => rfl
  | cons p ps ih =>
    rw [Props.set, new p List.mem_cons_self, ih fun q member => new q (List.mem_cons_of_mem _ member)]
    rfl

theorem opposite_run (n k : Nat) (l : List Value) {ps : Props}
    (above : ∀ p ∈ ps, ∃ m : Int, p.1 = .int m ∧ n - k ≤ m) :
  (enumerate k l).foldlM (fun (ps : Props) p => do return ps.set (← oppositeKey n p.1) p.2) ps =
    (.ok (ps ++ l.mapIdx fun j v => (.int (n - (k + j) - 1), v)) : Except Failure Props)
  := by
  induction l generalizing k ps with
  | nil => simp [enumerate]; rfl
  | cons v l ih =>
    have new : ∀ p ∈ ps, p.1.same (.int (n - k - 1)) = false := by
      intro p member
      obtain ⟨m, key, le⟩ := above p member
      rw [key, Key.same]
      simp [Key.canonical]
      omega
    rw [enumerate, List.foldlM_cons]
    change (enumerate (k + 1 : Nat) l).foldlM _ (ps.set (.int (n - k - 1)) v) = _
    rw [set_of_new new, ih (k + 1), List.mapIdx_cons]
    · simp [Int.add_assoc, Int.add_comm 1]
    · intro p member
      rcases List.mem_append.1 member with before | here
      · obtain ⟨m, key, le⟩ := above p before
        exact ⟨m, key, by omega⟩
      · rw [List.mem_singleton.1 here]
        exact ⟨_, rfl, by omega⟩

theorem reversed_array (l : List Value) :
  ∃ ps : Props, reversed (arrayOf l) = .ok { props := ps } ∧ ps.Perm (enumerate 0 l.reverse)
  := by
  have run := opposite_run l.length 0 l (List.forall_mem_nil _)
  have size : (arrayOf l).props.length = l.length := by simp [arrayOf, enumerate_eq]
  rw [reversed, size]
  refine ⟨_, (except_bind_of_ok run).trans rfl, ?_⟩
  rw [enumerate_eq, List.mapIdx_reverse, List.nil_append]
  refine (List.Perm.of_eq ?_).trans (List.reverse_perm _).symm
  refine List.mapIdx_eq_mapIdx_iff.2 fun j inside => ?_
  congr 2
  omega

end Builtin

/-! ### Calls -/

namespace Analysis

/-- The heap of a machine has new objects, under new numbers, and nothing else has changed in it. -/
structure Gains (m m' : Machine) (news : List (Nat × Obj)) : Prop where
  fresh : ∀ e ∈ news, m.nextId ≤ e.1
  distinct : (news.map Prod.fst).Nodup
  found : ∀ e ∈ news, m'.state.objs.get? e.1 = some e.2
  kept : ∀ i ∉ news.map Prod.fst, m'.state.objs.get? i = m.state.objs.get? i
  others : m'.state = { m.state with objs := m'.state.objs }

def textGiven (t : Text) : Argument := .value (.prim (.text t))

variable {r : Engine} {site : Option Tree} {m : Machine} {i : Nat} {o o' : Obj}

theorem reverse_run (run : Builtin.reversed o = .ok o') :
  runNative r .reverse site [.object i o] m = .ok (.ref ⟨m.nextId, .unbound⟩)
    { m with nextId := m.nextId + 1, state := m.state.putObj m.nextId o' }
  := estate_bind_eq_ok.2 ⟨_, _, rfl, estate_bind_eq_ok.2
    ⟨o', { m with nextId := m.nextId + 1 }, (congrArg (ofExcept · _) run).trans rfl, rfl⟩⟩

theorem join_run {ts : List Text} (known : o.missing = .isUndefined)
    (perm : o.props.Perm (Builtin.enumerate 0 (Builtin.ofTexts ts))) (t : Text) :
  runNative r .join site [.object i o, textGiven t] m = .ok (.prim (.text (Text.intercalate t ts))) m
  := (congrArg (ofExcept · m) (Builtin.joined_of_perm known perm t)).trans rfl

/-- Splitting a text and joining it with the same separator gives the text; splitting it into letters,
reversing and joining them gives the text backwards; and the heap gains the arrays that are made. -/
theorem split_join_reverse (r : Engine) (site : Option Tree) (s t : Text) (m : Machine) :
  (∃ i o m', runNative r .split site [textGiven s, textGiven t] m = .ok (.ref ⟨i, .unbound⟩) m' ∧
    Gains m m' [(i, o)] ∧
    runNative r .join site [.object i o, textGiven t] m' = .ok (.prim (.text s)) m') ∧
  ∃ i o m' j o' m'', runNative r .split site [textGiven s, textGiven ""] m = .ok (.ref ⟨i, .unbound⟩) m' ∧
    Gains m m' [(i, o)] ∧
    runNative r .reverse site [.object i o] m' = .ok (.ref ⟨j, .unbound⟩) m'' ∧ Gains m m'' [(i, o), (j, o')] ∧
    runNative r .join site [.object j o', textGiven ""] m'' = .ok (.prim (.text s.reverse)) m''
  := by
  let m₁ (t : Text) : Machine := { m with
    nextId := m.nextId + 1
    state := m.state.putObj m.nextId (Builtin.arrayOf (Builtin.ofTexts (Builtin.splitText s t))) }
  have gains (t : Text) : Gains m (m₁ t) [(m.nextId, Builtin.arrayOf (Builtin.ofTexts (Builtin.splitText s t)))] := by
    refine ⟨by simp, by simp, ?_, ?_, rfl⟩ <;> simp [m₁, State.putObj, Heap.lookup_insert] <;> grind
  constructor
  · refine ⟨m.nextId, _, m₁ t, rfl, gains t, ?_⟩
    rw [join_run rfl (.refl _), Text.intercalate_splitText]
  · obtain ⟨ps, run, perm⟩ := Builtin.reversed_array (Builtin.ofTexts (Builtin.splitText s ""))
    rw [Builtin.ofTexts, ← List.map_reverse, ← Builtin.ofTexts] at perm
    refine ⟨m.nextId, _, m₁ "", m.nextId + 1, { props := ps }, _, rfl, gains "", reverse_run run, ?_, ?_⟩
    · refine ⟨by simp, by simp, ?_, ?_, rfl⟩ <;> simp [m₁, State.putObj, Heap.lookup_insert] <;> grind
    · rw [join_run rfl perm]
      have backwards : (Builtin.splitText s "").reverse = s.reverse.pieces := by
        simp [Builtin.splitText, Text.pieces, Text.reverse, Text.toList, Text.isEmpty, Text.ofString]
      rw [backwards, Text.intercalate_pieces]

end Analysis

end ScriptLens
