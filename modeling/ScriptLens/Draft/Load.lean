import ScriptLens.Analysis.Program
import ScriptLens.Draft.Basic

/-!
# From trees to drafts and back

`Draft.load` puts a syntax tree into a draft, at the places that its serial numbers give, and
`Draft.unfold` reads the tree at a place.
-/

namespace ScriptLens

namespace Draft

def addList (d : Draft) (l : List Item) : Draft × Nat :=
  ({ d with lists := d.lists.insert d.fresh l, fresh := d.fresh + 1 }, d.fresh)

/-- The attributes of a node with those that were given to it later. -/
def withExtras (extras : List (Attr × Tree)) (attrs : List (Attr × Item)) : List (Attr × Item) :=
  extras.foldl (fun l p => Edit.putItem p.1 (.leaf p.2) l) attrs

mutual

def load (notes : Notes) (d : Draft) : Tree → Draft × Item
  | .list l =>
    let (d, l) := loadList notes d l
    let (d, n) := d.addList l
    (d, .list n)
  | .node r k as =>
    if !k.isNode then (d, .leaf (.node r k as))
    else if d.places.contains r then (d, .place r)
    else
      let t := Tree.node r k as
      let (d, attrs) := loadAttrs notes d as
      let serial := match notes.ids[r]? with
        | some i => [(Attr.serial, Item.leaf (.int i))]
        | none => []
      let attrs := withExtras (notes.extrasOf t) (attrs ++ serial)
      ({ d with places := d.places.insert r ⟨r, some ⟨k, t.has .directive⟩⟩
                records := d.records.insert r ⟨k, attrs⟩ }, .place r)
  | t => (d, .leaf t)

def loadList (notes : Notes) (d : Draft) : List Tree → Draft × List Item
  | [] => (d, [])
  | t :: l =>
    let (d, x) := load notes d t
    let (d, xs) := loadList notes d l
    (d, x :: xs)

def loadAttrs (notes : Notes) (d : Draft) : List (Attr × Tree) → Draft × List (Attr × Item)
  | [] => (d, [])
  | (a, t) :: l =>
    let (d, x) := load notes d t
    let (d, xs) := loadAttrs notes d l
    (d, (a, x) :: xs)

end

def loadNote (notes : Notes) (d : Draft) : Note → Draft × Note
  | .tree t => ((d.load notes t).1, .place t.ref)
  | .trees l => ((d.loadList notes l).1, .places (l.map Tree.ref))
  | .state _ => (d, .none)
  | n => (d, n)

def loadNotes (notes : Notes) (d : Draft) : List (NoteName × Note) → Draft × List (NoteName × Note)
  | [] => (d, [])
  | (n, v) :: l =>
    let (d, v) := loadNote notes d v
    let (d, l) := loadNotes notes d l
    (d, (n, v) :: l)

def ofNotes (notes : Notes) (tree : Tree) (fresh : Nat) (useOr : Bool) : Draft :=
  let d := (Draft.load notes { fresh, nextNode := notes.next, useOr } tree).1
  let d := notes.nodes.foldl (fun (d : Draft) i t =>
    let d := (d.load notes t).1
    { d with nodes := d.nodes.insert i t.ref, notes := d.notes.insert i [] }) d
  notes.table.foldl (fun (d : Draft) i l =>
    let (d, l) := loadNotes notes d l
    { d with notes := d.notes.insert i l }) d

def ofOutcome (o : Outcome) : Draft :=
  ofNotes o.machine.notes o.tree o.machine.nextRef o.machine.setting.options.useOr

def depth (d : Draft) : Nat := 2 * d.fresh + 2

def unfoldItem (d : Draft) : Nat → Item → Except Failure Tree
  | 0, _ => throw .unfinished
  | _ + 1, .leaf t => return t
  | _ + 1, .bytes _ => throw .missingPart
  | n + 1, .list l => do
    return .list (← ((d.lists[l]?).getD []).mapM (unfoldItem d n))
  | n + 1, .place p =>
    match (d.places[p]?).bind fun c => d.records[c.record]? with
    | none => throw .missingEntry
    | some r => do
      let attrs ← r.attrs.mapM fun q => do return (q.1, ← unfoldItem d n q.2)
      return .node p r.kind attrs

def unfold (d : Draft) (x : Item) : Except Failure Tree := d.unfoldItem d.depth x

end Draft

end ScriptLens
