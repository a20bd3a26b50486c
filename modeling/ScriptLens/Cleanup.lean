import ScriptLens.Draft.Load
import ScriptLens.Pass.Plan
import ScriptLens.Tree.Data

/-!
# Cleaning programs up

A program text is analysed, and what the analysis has found out is used to change the program:
`cleanUp` gives the changed program as plain data and says how much was changed.
-/

namespace ScriptLens

inductive Stage where
  | analysis
  | change
deriving DecidableEq

structure Cleaned where
  data : Data
  stats : Stats

/-- The code points of a text with one line end in the place of each of the common ones. -/
def plainLineEnds : List Nat → List Nat
  | 13 :: 10 :: l => 10 :: plainLineEnds l
  | 13 :: l => 10 :: plainLineEnds l
  | c :: l => c :: plainLineEnds l
  | [] => []

def Text.withPlainLineEnds (t : Text) : Text := .ofList (plainLineEnds t.toList)

def Draft.dataAt (d : Draft) (p : Nat) : Except Failure Data :=
  return (← d.unfold (.place p)).toFullData

def cleanUp (options : Options) (plan : Plan) (source : Text) : Except (Stage × Failure) Cleaned :=
  match analyze options false source.withPlainLineEnds with
  | .error f => .error (.analysis, f)
  | .ok o =>
    match (plan.run o.tree.ref).run (Draft.ofOutcome o) with
    | .error f _ => .error (.change, f)
    | .ok _ d =>
      match d.dataAt o.tree.ref with
      | .error f => .error (.change, f)
      | .ok data => .ok ⟨data, d.stats⟩

end ScriptLens
