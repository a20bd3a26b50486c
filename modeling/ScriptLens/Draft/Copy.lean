import ScriptLens.Draft.Basic

/-!
# Copies of nodes

A copy of a node is made of copies of its parts; every node in it gets a number of its own and the
notes of the node it is a copy of.
-/

namespace ScriptLens.Edit

/-- Gives the node at a place the notes of another one, some of them left out. -/
def copyNotes (target source : Nat) (skip : List NoteName) : Edit Unit := do
  match (← get).notes[source]? with
  | none => throw .missingEntry
  | some l =>
    let kept := l.filter fun q => !skip.contains q.1
    let old ← notesAt target
    let all := kept.foldl (fun l q => Notes.putNote q.1 q.2 l) old
    modify fun d => { d with notes := d.notes.insert target all }

def copyItem (skip : List NoteName) : Nat → Item → Edit (Item × List (Nat × Nat))
  | 0, _ => throw .unfinished
  | n + 1, .list l => do
    let parts ← (← items l).mapM (copyItem skip n)
    return (← newList (parts.map Prod.fst), parts.flatMap Prod.snd)
  | n + 1, .place p => do
    let r ← record p
    let kept := r.attrs.filter fun q => q.1 != .serial
    let parts ← kept.mapM fun q => do
      let (x, pairs) ← copyItem skip n q.2
      return ((q.1, x), pairs)
    let q ← newPlace none ⟨r.kind, parts.map Prod.fst⟩
    let i ← mark q
    let j ← mark p
    copyNotes i j skip
    return (.place q, parts.flatMap Prod.snd ++ [(i, j)])
  | _ + 1, x => return (x, [])

def depth : Edit Nat := return 2 * (← get).fresh + 2

def copy (p : Nat) : Edit Nat := do
  match ← copyItem [] (← depth) (.place p) with
  | (.place q, _) => return q
  | _ => return p

def assign (p q : Nat) (keep : List NoteName) : Edit Unit := do
  let saved ← keep.mapM fun n => do return (n, ← note p n)
  match ← copyItem keep (← depth) (.place q) with
  | (.place c, _) => share p c
  | _ => pure ()
  saved.forM fun s => setNote p s.1 s.2

/-- Gives numbers to the nodes in an item, to the parts of a node before the node; `n` bounds the
depth. -/
def markAll : Nat → Item → Edit Unit
  | 0, _ => throw .unfinished
  | n + 1, .list l => do (← items l).forM (markAll n)
  | n + 1, .place p => do
    (← record p).attrs.forM fun q => markAll n q.2
    let _ ← mark p
  | _ + 1, _ => return ()

end ScriptLens.Edit
