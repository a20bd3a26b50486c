import ScriptLens.Domain.State

/-!
# Notes on syntax nodes

What an analysis finds out about a program is noted on the nodes of its syntax tree.
-/

namespace ScriptLens

inductive NoteName where
  | staticValue
  /-- The values of an expression, told apart by the iterations of the loops around it. -/
  | contextValues
  /-- Whether a call is to be left out because its recursion has become stable. -/
  | skip
  | active
  | recursionState
  /-- Whether a function has been put aside to be called after the program. -/
  | processed
  | calleeIsPure
  | targetBody
  | targetParams
  /-- Whether different functions are called. -/
  | targetsAgree
  | unrolled
  /-- Why the iterations of a loop cannot be written one after another. -/
  | reason
  | isEval
  | evalTree
  | madeFunction
  | evalUnused
  | isUpdated
  | impure
  | countedExpression
  | countedCall
  | countedBlock
  | countedVariable
  | countedStatement
  | innerNames
  | usedBy
  | declUsedBy
  | hasEffects
  | inFunction
  | useless
  | declUseless
  | sideEffects
  | test
  | other (name : Text)
deriving DecidableEq

namespace NoteName

def spellings : List (String × NoteName) :=
  [("static_value", .staticValue), ("contextual_static_value", .contextValues), ("skip", .skip),
   ("active", .active), ("recursion_state", .recursionState), ("processed", .processed),
   ("callee_is_pure", .calleeIsPure), ("call_target.body", .targetBody),
   ("call_target.params", .targetParams), ("callee_target.body", .targetsAgree),
   ("unrolled", .unrolled), ("reason", .reason), ("is_eval", .isEval), ("eval", .evalTree),
   ("fn_cons", .madeFunction), ("eval_value_unused", .evalUnused), ("is_updated", .isUpdated),
   ("impure", .impure), ("side_effects", .sideEffects), ("useless", .useless),
   ("decl_useless", .declUseless), ("test", .test)]

def ofString (s : String) : NoteName := (spellings.lookup s).getD (.other s)

end NoteName

/-- The iteration numbers of the loops around an expression, each with the number of the loop. -/
abbrev LoopContext := List (Nat × Int)

inductive Note where
  | none
  | flag (b : Bool)
  | value (v : Value)
  | values (l : List (LoopContext × Value))
  | count (n : Int)
  | state (s : State)
  | node (id : Nat)
  | names (l : List Tree)
  /-- The nodes a loop passes through, `-1` at the start of each iteration. -/
  | trace (l : List Int)
  | text (t : Text)
  | tree (t : Tree)
  | trees (l : List Tree)
  | nameSet (l : List Text)
  | nodeSet (s : IdSet)
  | place (p : Nat)
  | places (l : List Nat)

def Note.isTrue : Note → Bool
  | flag b => b
  | _ => false

def Note.value? : Note → Option Value
  | value v => some v
  | _ => Option.none

structure Notes where
  ids : Std.TreeMap Nat Nat := {}
  nodes : Std.TreeMap Nat Tree := {}
  table : Std.TreeMap Nat (List (NoteName × Note)) := {}
  /-- Further attributes of nodes, by serial number, in the order in which they were given. -/
  extras : Std.TreeMap Nat (List (Attr × Tree)) := {}
  next : Nat := 0

namespace Notes

def putNote (n : NoteName) (v : Note) : List (NoteName × Note) → List (NoteName × Note)
  | [] => [(n, v)]
  | (m, w) :: l => if m == n then (n, v) :: l else (m, w) :: putNote n v l

def mark (t : Tree) (s : Notes) : Nat × Notes :=
  match s.ids[t.ref]? with
  | some i => (i, s)
  | none =>
    (s.next, { s with ids := s.ids.insert t.ref s.next, nodes := s.nodes.insert s.next t,
                      next := s.next + 1 })

def getAt (i : Nat) (n : NoteName) (s : Notes) : Note :=
  ((s.table[i]?).bind fun l => l.lookup n).getD .none

def setAt (i : Nat) (n : NoteName) (v : Note) (s : Notes) : Notes :=
  { s with table := s.table.insert i (putNote n v ((s.table[i]?).getD [])) }

def eraseAt (i : Nat) (n : NoteName) (s : Notes) : Notes :=
  { s with table := s.table.insert i (((s.table[i]?).getD []).filter fun p => p.1 != n) }

def extrasOf (t : Tree) (s : Notes) : List (Attr × Tree) := (s.extras[t.ref]?).getD []

def attr (t : Tree) (a : Attr) (s : Notes) : Tree :=
  match (s.extrasOf t).lookup a with
  | some v => v
  | none => t.get a

def setAttr (t : Tree) (a : Attr) (v : Tree) (s : Notes) : Notes :=
  { s with extras := s.extras.insert t.ref (Tree.putAttr a v (s.extrasOf t)) }

mutual

def markTree (s : Notes) : Tree → Notes
  | .list l => markList s l
  | .node r k as =>
    if k.isNode then ((markAttrs s as).mark (.node r k as)).2 else s
  | _ => s

def markList (s : Notes) : List Tree → Notes
  | [] => s
  | t :: l => markList (markTree s t) l

def markAttrs (s : Notes) : List (Attr × Tree) → Notes
  | [] => s
  | (_, t) :: l => markAttrs (markTree s t) l

end

end Notes

end ScriptLens
