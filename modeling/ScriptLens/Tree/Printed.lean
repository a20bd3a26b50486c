import ScriptLens.Tree.Basic
import ScriptLens.Text.Quoted
import ScriptLens.Number.Decimal

/-!
# Printed trees

The layout a syntax tree is shown in: four blanks a level, one attribute a line, attributes that
are nothing left out.  A source location is written on one line.
-/

namespace ScriptLens

def Regexp.printed (r : Regexp) : Text :=
  let flag : Text := match r.flag with
    | .plain => ""
    | .ignoreCase => ", re.IGNORECASE"
    | .multiline => ", re.MULTILINE"
  ("re.compile(" : Text) ++ r.pattern.quoted.extract 0 200 ++ flag ++ (")" : Text)

namespace Tree

/-- The blanks that begin a line, after its line break; nothing on a single line. -/
def newline (flat : Bool) (level : Nat) : Text :=
  if flat then "" else Text.ofList (10 :: List.replicate (4 * level) 32)

def bracketed (flat : Bool) (level : Nat) (opening closing : Text) (items : List Text) : Text :=
  if items.isEmpty then opening ++ closing
  else
    opening ++ newline flat (level + 1)
      ++ Text.intercalate (("," : Text) ++ newline flat (level + 1)) items
      ++ newline flat level ++ closing

mutual

def printedAt (flat : Bool) (level : Nat) : Tree → Text
  | null => "None"
  | flag b => if b then "True" else "False"
  | int n => Decimal.intText n
  | real x => x.toReport
  | text t => t.asciiQuoted
  | regexp r => r.printed
  | list l => bracketed flat level "[" "]" (printedItems flat (level + 1) l)
  | node _ k as =>
    let flat := flat || k == .location
    let head : List Text := match k.name? with
      | some n => [("type: " : Text) ++ (n : Text).asciiQuoted]
      | none => []
    bracketed flat level "\x7b" "\x7d" (head ++ printedAttrs flat (level + 1) as)

def printedItems (flat : Bool) (level : Nat) : List Tree → List Text
  | [] => []
  | t :: r => printedAt flat level t :: printedItems flat level r

def printedAttrs (flat : Bool) (level : Nat) : List (Attr × Tree) → List Text
  | [] => []
  | (a, t) :: r =>
    match t with
    | null => printedAttrs flat level r
    | t => ((a.shownName : Text) ++ (": " : Text) ++ printedAt flat level t)
        :: printedAttrs flat level r

end

def printed (t : Tree) : Text := printedAt false 0 t

end Tree

end ScriptLens
