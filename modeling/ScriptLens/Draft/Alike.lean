import ScriptLens.Draft.Basic

/-!
# Comparing nodes of a draft

Two nodes are alike if they were made as the same thing and their attributes are alike, apart from
the numbers given to nodes and calls.
-/

namespace ScriptLens.Edit

def sameLeaf : Tree → Tree → Bool
  | .null, .null => true
  | .flag a, .flag b => a == b
  | .int a, .int b => a == b
  | .real a, .real b => a.eq b
  | .text a, .text b => a == b
  | .regexp a, .regexp b => a == b
  | .node r _ _, .node q _ _ => r == q
  | _, _ => false

def formAt (p : Nat) : Edit (Option Form) := do
  match (← get).places[p]? with
  | some c => return c.made
  | none => throw .missingEntry

def compareValues (p q : Nat) : Edit Unit := do
  let v ← valueOf p
  let w ← valueOf q
  if !v.equal w then eraseNote p .staticValue

def alikeLists (f : Item → Item → Edit Bool) : List Item → List Item → Edit Bool
  | [], _ => return true
  | _ :: _, [] => throw .missingItem
  | x :: l, y :: m => do if ← f x y then alikeLists f l m else return false

def alikeAttrs (f : Item → Item → Edit Bool) (others : List (Attr × Item)) :
    List (Attr × Item) → Edit Bool
  | [] => return true
  | (a, x) :: l => do
    match others.lookup a with
    | none => throw .missingEntry
    | some y =>
      let same ← f x y
      if !same && a != .serial && a != .site then return false
      alikeAttrs f others l

/-- Whether two items are alike; the first argument bounds the depth. -/
def alikeItems : Nat → Item → Item → Edit Bool
  | 0, _, _ => throw .unfinished
  | n + 1, .place p, .place q => do
    if (← formAt p) != (← formAt q) then return false
    if (← kind p) != (← kind q) then return false
    if ← alikeAttrs (alikeItems n) (← record q).attrs (← record p).attrs then
      compareValues p q
      return true
    else return false
  | n + 1, .list l, .list m => do alikeLists (alikeItems n) (← items l) (← items m)
  | _ + 1, .leaf a, .leaf b => return sameLeaf a b
  | _ + 1, .bytes a, .bytes b => return a == b
  | _ + 1, _, _ => return false

def alike (x y : Item) : Edit Bool := do
  alikeItems (2 * (← get).fresh + 2) x y

end ScriptLens.Edit
