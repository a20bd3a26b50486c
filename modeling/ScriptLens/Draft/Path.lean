import ScriptLens.Draft.Basic

/-!
# Paths in drafts

A path leads from an item to one of its parts, by names of attributes and positions in lists.
-/

namespace ScriptLens

inductive Step where
  | name (s : String)
  /-- To the item at a position, which counts from the end if it is negative. -/
  | position (i : Int)

namespace Edit

def itemAt (l : List Item) (i : Int) : Edit Item := do
  let j := if i < 0 then i + l.length else i
  if j < 0 then throw .missingItem
  match l[j.toNat]? with
  | some x => return x
  | none => throw .missingItem

def step : Item → Step → Edit Item
  | .place p, .name "type" => return .leaf (.text (← kind p).name)
  | .place p, .name s =>
    match Attr.ofName? s with
    | some a => attr p a
    | none => return .leaf .null
  | .leaf t, .name s =>
    match t, Attr.ofName? s with
    | .node _ _ _, some a => return .leaf (t.get a)
    | .node _ _ _, none => return .leaf .null
    | _, _ => throw .missingPart
  | .list l, .position i => do itemAt (← items l) i
  | _, .name _ => throw .missingPart
  | _, .position _ => throw .wrongKind

def follow (x : Item) (path : List Step) : Edit Item := path.foldlM step x

def attrNames (p : Nat) : Edit (List (String × Bool)) := do
  let r ← record p
  return ("type", true) :: r.attrs.map fun q => (q.1.shownName, !Item.isNull q.2)

/-- The nodes in an item, a node before its parts; the first argument bounds the depth. -/
def nodesIn : Nat → Item → Edit (List Nat)
  | 0, _ => throw .unfinished
  | n + 1, .place p => do
    let parts ← (← record p).attrs.mapM fun q => nodesIn n q.2
    return p :: parts.flatten
  | n + 1, .list l => do return (← (← items l).mapM (nodesIn n)).flatten
  | _ + 1, _ => return []

end Edit

end ScriptLens
