/-!
# Text

A text is a sequence of code points, surrogates included, so that lengths, positions and ranges
count code points.
-/

namespace ScriptLens

/-- A sequence of code points; unlike a `String` it may hold surrogates. -/
structure Text where
  points : Array Nat
deriving DecidableEq, Inhabited

namespace Text

def ofString (s : String) : Text := ⟨(s.toList.map Char.toNat).toArray⟩

instance : Coe String Text := ⟨ofString⟩

instance : Hashable Text := ⟨fun t => hash t.points⟩

def ofList (l : List Nat) : Text := ⟨l.toArray⟩

def toList (t : Text) : List Nat := t.points.toList

def empty : Text := ⟨#[]⟩

instance : EmptyCollection Text := ⟨empty⟩

def singleton (c : Nat) : Text := ⟨#[c]⟩

def length (t : Text) : Nat := t.points.size

def isEmpty (t : Text) : Bool := t.points.isEmpty

def get (t : Text) (i : Nat) : Nat := t.points.getD i 0

def push (t : Text) (c : Nat) : Text := ⟨t.points.push c⟩

def append (s t : Text) : Text := ⟨s.points ++ t.points⟩

instance : Append Text := ⟨append⟩

def extract (t : Text) (i j : Nat) : Text := ⟨t.points.extract i j⟩

def drop (t : Text) (i : Nat) : Text := t.extract i t.length

def contains (t : Text) (c : Nat) : Bool := t.points.contains c

def reverse (t : Text) : Text := ⟨t.points.reverse⟩

def occursAt (s t : Text) (i : Nat) : Bool := t.extract i (i + s.length) == s

/-- The first position of `s` among the `n` positions of `t` from `i` on. -/
def findFrom (s t : Text) (i : Nat) : Nat → Option Nat
  | 0 => none
  | n + 1 => if s.occursAt t i then some i else findFrom s t (i + 1) n

/-- The first position at or after `i` where `s` stands in `t`. -/
def find? (t s : Text) (i : Nat) : Option Nat :=
  if t.length < i + s.length then none
  else findFrom s t i (t.length - s.length - i + 1)

/-- The parts of `t` between the occurrences of a non-empty separator, read from position
`i` on; `n` bounds the number of cuts. -/
def splitFrom (t sep : Text) (i : Nat) : Nat → List Text
  | 0 => [t.drop i]
  | n + 1 =>
    match t.find? sep i with
    | none => [t.drop i]
    | some j => t.extract i j :: splitFrom t sep (j + sep.length) n

def splitOn (t sep : Text) : List Text := t.splitFrom sep 0 (t.length + 1)

def intercalate (sep : Text) : List Text → Text
  | [] => empty
  | t :: ts => ts.foldl (fun acc u => acc ++ sep ++ u) t

def concat (ts : List Text) : Text := intercalate empty ts

def lexLt : List Nat → List Nat → Bool
  | _, [] => false
  | [], _ :: _ => true
  | a :: as, b :: bs => if a < b then true else if b < a then false else lexLt as bs

def lt (s t : Text) : Bool := lexLt s.toList t.toList

def isSurrogate (c : Nat) : Bool := 0xD800 ≤ c && c ≤ 0xDFFF

def hasSurrogate (t : Text) : Bool := t.points.any isSurrogate

def toString (t : Text) : String :=
  String.ofList (t.toList.map fun c => if isSurrogate c then Char.ofNat 0xFFFD else Char.ofNat c)

instance : ToString Text := ⟨toString⟩

@[simp]
theorem toList_ofList (l : List Nat) : (ofList l).toList = l
  := rfl

@[simp]
theorem toList_append (s t : Text) : (s ++ t).toList = s.toList ++ t.toList
  := Array.toList_append

end Text

end ScriptLens
