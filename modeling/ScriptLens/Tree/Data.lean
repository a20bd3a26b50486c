import ScriptLens.Tree.Basic

/-!
# Plain data

What a syntax tree is written out as: nested lists and objects of scalars.
-/

namespace ScriptLens

inductive Data where
  | null
  | flag (b : Bool)
  | int (n : Int)
  | real (x : Double)
  | text (t : Text)
  | regexp (r : Regexp)
  | list (items : List Data)
  | object (fields : List (String × Data))

namespace Data

def get? (d : Data) (k : String) : Option Data :=
  match d with
  | object l => l.lookup k
  | _ => none

def get (d : Data) (k : String) : Data := (d.get? k).getD null

def isTrue : Data → Bool
  | flag b => b
  | _ => false

def items : Data → List Data
  | list l => l
  | _ => []

def fields : Data → List (String × Data)
  | object l => l
  | _ => []

end Data

namespace Tree

def dataName : Attr → String
  | .isAsync => "async"
  | a => a.shownName

mutual

/-- A tree as plain data.  Attributes that are nothing are left out. -/
def toData : Tree → Data
  | null => .null
  | flag b => .flag b
  | int n => .int n
  | real x => .real x
  | text t => .text t
  | regexp r => .regexp r
  | list l => .list (toDataList l)
  | node _ k as =>
    match k.name? with
    | some n => .object (("type", .text n) :: toDataFields as)
    | none => .object (toDataFields as)

def toDataList : List Tree → List Data
  | [] => []
  | t :: r => toData t :: toDataList r

def toDataFields : List (Attr × Tree) → List (String × Data)
  | [] => []
  | (a, t) :: r =>
    match t with
    | null => toDataFields r
    | t => (dataName a, toData t) :: toDataFields r

end

mutual

/-- A tree as plain data with all attributes, also those that are nothing.  Regular expressions are
left out. -/
def toFullData : Tree → Data
  | null => .null
  | flag b => .flag b
  | int n => .int n
  | real x => .real x
  | text t => .text t
  | regexp _ => .null
  | list l => .list (toFullDataList l)
  | node _ k as =>
    match k.name? with
    | some n => .object (("type", .text n) :: toFullDataFields as)
    | none => .object (toFullDataFields as)

def toFullDataList : List Tree → List Data
  | [] => []
  | t :: r => toFullData t :: toFullDataList r

def toFullDataFields : List (Attr × Tree) → List (String × Data)
  | [] => []
  | (a, t) :: r => (a.shownName, toFullData t) :: toFullDataFields r

end

end Tree

end ScriptLens
