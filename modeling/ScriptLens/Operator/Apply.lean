import ScriptLens.Operator.Concrete

/-!
# Operators of scripts

The operators on primitive values that scripts share with most languages of the same family,
with the conversions each of them makes.
-/

namespace ScriptLens

inductive BinaryOp where
  | add | sub | mul | div | rem
  | gt | lt | ge | le
  | eq | ne | identical | different
  | xor | or | and | shiftLeft | shiftRight
deriving DecidableEq

def BinaryOp.spellings : List (String × BinaryOp) :=
  [("+", .add), ("-", .sub), ("*", .mul), ("/", .div), ("%", .rem), (">", .gt), ("<", .lt),
   (">=", .ge), ("<=", .le), ("==", .eq), ("!=", .ne), ("===", .identical), ("!==", .different),
   ("^", .xor), ("|", .or), ("&", .and), ("<<", .shiftLeft), (">>", .shiftRight)]

def BinaryOp.texts : List (Text × BinaryOp) := spellings.map fun p => (Text.ofString p.1, p.2)

def BinaryOp.ofText? (t : Text) : Option BinaryOp := texts.lookup t

inductive UnaryOp where
  | plus | minus | not | complement
deriving DecidableEq

def UnaryOp.spellings : List (String × UnaryOp) :=
  [("+", .plus), ("-", .minus), ("!", .not), ("~", .complement)]

def UnaryOp.texts : List (Text × UnaryOp) := spellings.map fun p => (Text.ofString p.1, p.2)

def UnaryOp.ofText? (t : Text) : Option UnaryOp := texts.lookup t

namespace Concrete

def identical : Concrete → Concrete → Bool
  | undefined, undefined => true
  | null, null => true
  | num x, num y => x.eq y
  | text s, text t => s == t
  | bool a, bool b => a == b
  | _, _ => false

def looselyEqual : Concrete → Concrete → Bool
  | undefined, null => true
  | null, undefined => true
  | num x, text t => x.eq (Numeral.value t)
  | text s, num y => (Numeral.value s).eq y
  | a, b => identical a b

/-- A truth value as a number, any other value as it is. -/
def unbool : Concrete → Concrete
  | bool b => num (boolNumber b)
  | v => v

def loose (a b : Concrete) : Bool := looselyEqual a.unbool b.unbool

/-- The order of values: of texts by code points, else of numbers. -/
def less : Concrete → Concrete → Bool
  | text s, text t => s.lt t
  | a, b => a.toNumber.lt b.toNumber

/-- At most: of texts by code points, else of numbers, where nothing compares with a NaN. -/
def atMost : Concrete → Concrete → Bool
  | text s, text t => !t.lt s
  | a, b => a.toNumber.le b.toNumber

/-- Concatenation if one operand is a text, else the sum. -/
def plus : Concrete → Concrete → Concrete
  | text s, b => text (s ++ b.toText)
  | a, text t => text (a.toText ++ t)
  | a, b => num (a.toNumber.add b.toNumber)

def shiftAmount (v : Concrete) : Nat := v.toUInt32.toNat % 32

/-- A signed 32-bit integer shifted to the right, its sign kept. -/
def shiftedRight (n : UInt32) (k : Nat) : UInt32 :=
  if n.toNat < Nat.pow 2 31 then UInt32.ofNat (n.toNat / Nat.pow 2 k)
  else ~~~(UInt32.ofNat ((~~~n).toNat / Nat.pow 2 k))

def binary : BinaryOp → Concrete → Concrete → Concrete
  | .add, a, b => plus a b
  | .sub, a, b => num (a.toNumber.sub b.toNumber)
  | .mul, a, b => num (a.toNumber.mul b.toNumber)
  | .div, a, b => num (a.toNumber.div b.toNumber)
  | .rem, a, b => num (a.toNumber.rem b.toNumber)
  | .gt, a, b => bool (less b a)
  | .lt, a, b => bool (less a b)
  | .ge, a, b => bool (atMost b a)
  | .le, a, b => bool (atMost a b)
  | .eq, a, b => bool (loose a b)
  | .ne, a, b => bool (!loose a b)
  | .identical, a, b => bool (identical a b)
  | .different, a, b => bool (!identical a b)
  | .xor, a, b => num (Double.ofInt32 (a.toUInt32 ^^^ b.toUInt32))
  | .or, a, b => num (Double.ofInt32 (a.toUInt32 ||| b.toUInt32))
  | .and, a, b => num (Double.ofInt32 (a.toUInt32 &&& b.toUInt32))
  | .shiftLeft, a, b =>
    num (Double.ofInt32 (UInt32.ofNat (a.toUInt32.toNat * Nat.pow 2 (shiftAmount b))))
  | .shiftRight, a, b => num (Double.ofInt32 (shiftedRight a.toUInt32 (shiftAmount b)))

def unary : UnaryOp → Concrete → Concrete
  | .plus, a => num a.toNumber
  | .minus, a => num a.toNumber.neg
  | .not, a => bool (!a.toBool)
  | .complement, a => num (Double.ofInt32 (~~~a.toUInt32))

end Concrete

end ScriptLens
