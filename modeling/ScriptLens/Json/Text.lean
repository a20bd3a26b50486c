import ScriptLens.Number.Decimal
import ScriptLens.Text.Quoted
import ScriptLens.Tree.Data

/-!
# JSON

What a reader returns is what it has read and the rest of the text.
-/

namespace ScriptLens.Data

def skipBlanks : List Nat → List Nat
  | c :: l => if c == 32 || c == 9 || c == 10 || c == 13 then skipBlanks l else c :: l
  | [] => []

def hexValue (c : Nat) : Nat := (Text.hexValue? c).getD 0

/-- Adds a code point to a text; the second half of a pair is joined to the first one. -/
def putUnit (acc : Array Nat) (v : Nat) : Array Nat :=
  match acc.back? with
  | some w =>
    if 0xD800 ≤ w && w ≤ 0xDBFF && 0xDC00 ≤ v && v ≤ 0xDFFF then
      acc.pop.push (0x10000 + (w - 0xD800) * 1024 + (v - 0xDC00))
    else acc.push v
  | none => acc.push v

/-- The code point that a letter behind a backslash stands for. -/
def escaped (c : Nat) : Nat :=
  if c == 110 then 10
  else if c == 114 then 13
  else if c == 116 then 9
  else if c == 98 then 8
  else if c == 102 then 12
  else c

def readText (acc : Array Nat) : List Nat → Option (Text × List Nat)
  | [] => none
  | 34 :: l => some (⟨acc⟩, l)
  | 92 :: 117 :: a :: b :: c :: d :: l =>
    let v := ((hexValue a * 16 + hexValue b) * 16 + hexValue c) * 16 + hexValue d
    readText (putUnit acc v) l
  | 92 :: c :: l => readText (acc.push (escaped c)) l
  | c :: l => readText (acc.push c) l

def isDigit (c : Nat) : Bool := 48 ≤ c && c ≤ 57

def readDigits (l : List Nat) : List Nat × List Nat := (l.takeWhile isDigit, l.dropWhile isDigit)

def readFraction : List Nat → List Nat × List Nat
  | 46 :: l => readDigits l
  | l => ([], l)

def readExponent : List Nat → Option Int × List Nat
  | c :: l =>
    if c == 101 || c == 69 then
      let (isNegative, l) := match l with
        | 45 :: l => (true, l)
        | 43 :: l => (false, l)
        | l => (false, l)
      let (digits, rest) := readDigits l
      let n : Int := Double.digitsValue digits
      (some (if isNegative then -n else n), rest)
    else (none, c :: l)
  | [] => (none, [])

def readNumber (isNegative : Bool) (l : List Nat) : Option (Data × List Nat) :=
  let (whole, afterWhole) := readDigits l
  let (fraction, afterFraction) := readFraction afterWhole
  let (exponent, rest) := readExponent afterFraction
  if whole.isEmpty then none
  else if afterWhole.length == rest.length then
    let n : Int := Double.digitsValue whole
    some (.int (if isNegative then -n else n), rest)
  else
    let x := Double.ofParts whole fraction (exponent.getD 0)
    some (.real (if isNegative then x.neg else x), rest)

def behind (word : String) (l : List Nat) : Option (List Nat) :=
  let w := word.toList.map Char.toNat
  if l.take w.length == w then some (l.drop w.length) else none

mutual

def readValue : Nat → List Nat → Option (Data × List Nat)
  | 0, _ => none
  | n + 1, l =>
    match skipBlanks l with
    | 34 :: r => (readText #[] r).map fun (t, r) => (.text t, r)
    | 91 :: r =>
      match skipBlanks r with
      | 93 :: r => some (.list [], r)
      | r => readItems n [] r
    | 123 :: r =>
      match skipBlanks r with
      | 125 :: r => some (.object [], r)
      | r => readFields n [] r
    | 45 :: r => readNumber true r
    | r =>
      match behind "true" r, behind "false" r, behind "null" r with
      | some r, _, _ => some (.flag true, r)
      | _, some r, _ => some (.flag false, r)
      | _, _, some r => some (.null, r)
      | _, _, _ => readNumber false r

def readItems : Nat → List Data → List Nat → Option (Data × List Nat)
  | 0, _, _ => none
  | n + 1, acc, l =>
    match readValue n l with
    | none => none
    | some (d, r) =>
      match skipBlanks r with
      | 44 :: r => readItems n (d :: acc) r
      | 93 :: r => some (.list (d :: acc).reverse, r)
      | _ => none

def readFields : Nat → List (String × Data) → List Nat → Option (Data × List Nat)
  | 0, _, _ => none
  | n + 1, acc, l =>
    match skipBlanks l with
    | 34 :: r =>
      match readText #[] r with
      | none => none
      | some (k, r) =>
        match skipBlanks r with
        | 58 :: r =>
          match readValue n r with
          | none => none
          | some (d, r) =>
            match skipBlanks r with
            | 44 :: r => readFields n ((k.toString, d) :: acc) r
            | 125 :: r => some (.object ((k.toString, d) :: acc).reverse, r)
            | _ => none
        | _ => none
    | _ => none

end

def ofJson? (t : Text) : Option Data :=
  match readValue (2 * t.length + 2) t.toList with
  | some (d, r) => if (skipBlanks r).isEmpty then some d else none
  | none => none

/-- A number as JSON text, where numbers that are not finite have names. -/
def realText (x : Double) : Text :=
  if x.isNaN then "NaN"
  else if x.isInfinite then (if x.isNegative then "-Infinity" else "Infinity")
  else x.toReport

def newLine (pretty : Bool) (level : Nat) (acc : Array Nat) : Array Nat :=
  if pretty then acc.push 10 ++ Array.replicate (4 * level) 32 else acc

def separate (pretty isFirst : Bool) (level : Nat) (acc : Array Nat) : Array Nat :=
  if isFirst then newLine pretty level acc
  else if pretty then newLine true level (acc.push 44)
  else acc ++ #[44, 32]

mutual

def writeTo (pretty : Bool) (level : Nat) (acc : Array Nat) : Data → Array Nat
  | null => acc ++ Text.points "null"
  | flag b => acc ++ Text.points (if b then "true" else "false")
  | int n => acc ++ (Decimal.intText n).points
  | real x => acc ++ (realText x).points
  | text t => acc ++ t.asciiQuoted.points
  | regexp _ => acc ++ Text.points "null"
  | list l =>
    if l.isEmpty then acc ++ #[91, 93]
    else (newLine pretty level (writeItems pretty (level + 1) true (acc.push 91) l)).push 93
  | object l =>
    if l.isEmpty then acc ++ #[123, 125]
    else (newLine pretty level (writeFields pretty (level + 1) true (acc.push 123) l)).push 125

def writeItems (pretty : Bool) (level : Nat) (isFirst : Bool) (acc : Array Nat) :
    List Data → Array Nat
  | [] => acc
  | d :: l =>
    writeItems pretty level false
      (writeTo pretty level (separate pretty isFirst level acc) d) l

def writeFields (pretty : Bool) (level : Nat) (isFirst : Bool) (acc : Array Nat) :
    List (String × Data) → Array Nat
  | [] => acc
  | (k, d) :: l =>
    let named := separate pretty isFirst level acc ++ (Text.ofString k).asciiQuoted.points
    writeFields pretty level false (writeTo pretty level (named ++ #[58, 32]) d) l

end

def json (d : Data) : Text := ⟨d.writeTo false 0 #[]⟩

def prettyJson (d : Data) : Text := ⟨d.writeTo true 0 #[]⟩

end ScriptLens.Data
