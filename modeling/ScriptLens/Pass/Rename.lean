import ScriptLens.Pass.Walk

/-!
# Renaming

Names that look as if a machine had made them become names that can be spoken: three syllables of a
consonant and a vowel each, chosen from two lists.  How they are chosen is left open.  The pass fails when
a name is made a second time.
-/

namespace ScriptLens.Pass.Rename

open Edit

/-- The names that have been changed, with their new names, and how many sounds have been chosen. -/
structure Names where
  given : List (Text × Text) := []
  taken : Nat := 0

def consonants : List Text :=
  ["b", "ch", "d", "f", "g", "l", "k", "m", "n", "p", "r", "t", "v", "x", "z"]

def vowels : List Text := ["a", "e", "o", "u", "i", "au", "ou"]

/-- Which one of so many things is chosen, after so many other choices. -/
abbrev Choice := Nat → Nat → Nat

/-- The things are chosen in turn. -/
def Choice.inTurn : Choice := fun made _ => made

def sound (choose : Choice) (l : List Text) (k : Nat) : Text := (l[choose k l.length % l.length]?).getD {}

/-- A name of `n` syllables, which are chosen after `k` other choices. -/
def spoken (choose : Choice) (k : Nat) : Nat → Text
  | 0 => {}
  | n + 1 => sound choose consonants k ++ sound choose vowels (k + 1) ++ spoken choose (k + 2) n

def syllables : Nat := 3

/-- Whether a name looks as if a machine had made it: by its beginning, or by its length. -/
def isOdd (t : Text) : Bool :=
  Text.occursAt "_0x" t 0 || Text.occursAt "____" t 0
    || (28 ≤ t.length && !(t.extract 0 28).contains 10)

/-- The name that a name becomes; a new one is made for an odd name that has none yet. -/
def renamed (choose : Choice) (name : Tree) : Walk Names Tree := do
  match name with
  | .text t =>
    if !isOdd t then return name
    let s ← get
    match s.given.lookup t with
    | some u => return .text u
    | none =>
      let u := spoken choose s.taken syllables
      if s.given.any fun p => p.2 == u then throw (.missingName {})
      set { s with given := (t, u) :: s.given, taken := s.taken + 2 * syllables }
      return .text u
  | _ => return .null

def rename (choose : Choice) (p : Nat) : Walk Names Unit := do
  setAttr p .name (.leaf (← renamed choose (← nameOf p)))

section

variable {σ : Type} (act : Nat → Walk σ Unit)

def forNodes (l : List Item) : Walk σ Unit := l.forM fun x => do act (← placeOf x)

def namesInExpr (p : Nat) : Walk σ Unit := do
  match ← kind p with
  | .identifier =>
    if (← nameOf p).text? != some (Text.ofString "uncreate_defd") then act p
  | .assignmentExpression => act (← child p .left)
  | .functionExpression => forNodes act (← itemsOf p .params)
  | .arrowFunctionExpression => forNodes act (← itemsOf p .params)
  | _ => return ()

/-- Does something to the nodes whose names are of interest when the walk comes to a statement. -/
def namesInStmt (p : Nat) : Walk σ Unit := do
  match ← kind p with
  | .variableDeclaration =>
    (← itemsOf p .declarations).forM fun x => do
      let id ← child (← placeOf x) .id
      if (← kind id) == .identifier then act id
  | .functionDeclaration =>
    forNodes act (← itemsOf p .params)
    act (← child p .id)
  | .classDeclaration => act (← child p .id)
  | .methodDefinition =>
    forNodes act (← itemsOf (← child p .value) .params)
  | _ => return ()

def overNames : Pass σ where
  beforeExpr p := do
    namesInExpr act p
    return true
  beforeStmt p := do
    namesInStmt act p
    return true

end

def pass (choose : Choice) : Pass Names := overNames (rename choose)

end ScriptLens.Pass.Rename
