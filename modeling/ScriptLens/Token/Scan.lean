import ScriptLens.Failure
import ScriptLens.Token.Basic

/-!
# Scanning

A scanner walks over a source text.  `Cursor` is where it stands: the index, the line and its start,
and the braces that are open.
-/

namespace ScriptLens

structure Source where
  text : Text
  /-- Whether problems that allow it are recorded instead of ending the scan. -/
  tolerant : Bool := false
  keepComments : Bool := false

/-- An open brace: of a block or an object, or of a substitution in a template. -/
inductive Brace where
  | plain
  | substitution
deriving DecidableEq

structure Cursor where
  index : Nat := 0
  line : Nat := 1
  lineStart : Int := 0
  /-- The braces that are open, the innermost first. -/
  braces : List Brace := []
  inModule : Bool := false
  errors : Array Diagnostic := #[]

def Cursor.start (t : Text) : Cursor := { line := if t.isEmpty then 0 else 1 }

abbrev Scan := ReaderT Source (EStateM Failure Cursor)

namespace Scan

/-- The code point some places further on.  What lies behind the zero at the end cannot be read. -/
abbrev ahead (k : Nat) : Scan Nat := do
  let i := (← get).index + k
  if (← read).text.length < i then throw .missingItem else return (← read).text.get i

abbrev here : Scan Nat := ahead 0

abbrev skip (k : Nat) : Scan Unit := modify fun c => { c with index := c.index + k }

abbrev take : Scan Nat := do
  let c ← here
  skip 1
  return c

abbrev atEnd : Scan Bool := do return (← read).text.length ≤ (← get).index

abbrev size : Scan Nat := do return (← read).text.length

abbrev looksAt (k : Nat) (t : Text) : Scan Bool := do
  return t.occursAt (← read).text ((← get).index + k)

abbrev diagnostic (p : Problem) : Scan Diagnostic := do
  let c ← get
  return ⟨p, c.index, c.line, c.index - c.lineStart + 1⟩

def fail {α : Type} (p : Problem) : Scan α := do throw (.source (← diagnostic p))

def tolerate (p : Problem) : Scan Unit := do
  let d ← diagnostic p
  if (← read).tolerant then modify fun c => { c with errors := c.errors.push d }
  else throw (.source d)

/-- Moves over a line terminator at the cursor; a carriage return takes a line feed with it. -/
def breakLine : Scan Unit := do
  let c ← take
  if c == 13 && (← here) == 10 then skip 1
  modify fun c => { c with line := c.line + 1, lineStart := c.index }

/-- The first of `n` positions from `i` on whose code point is not of a class. -/
def spanEnd (p : Nat → Bool) (t : Text) (i : Nat) : Nat → Nat
  | 0 => i
  | n + 1 => if p (t.get i) then spanEnd p t (i + 1) n else i

def takeRun (p : Nat → Bool) : Scan (List Nat) := do
  let t := (← read).text
  let i := (← get).index
  let j := spanEnd p t i (t.length - i)
  modify fun c => { c with index := j }
  return (t.extract i j).toList

def digitsValue (base : Nat) (digits : List Nat) : Scan Nat :=
  if digits.all (Text.isDigitOf base) then
    return digits.foldl (fun n c => n * base + (Text.hexValue? c).getD 0) 0
  else throw (.badValue "")

def token (kind : TokenKind) (value : Scalar) (start : Nat) : Scan Token := do
  let c ← get
  return { kind, value, line := c.line, lineStart := c.lineStart, start, stop := c.index }

end Scan

end ScriptLens
