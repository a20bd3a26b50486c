import ScriptLens.Operator.Concrete
import ScriptLens.Tree.Printed

/-!
# Known primitive values

A `Prim` is a primitive value that the analysis knows exactly.  Besides what scripts have, it may be
a sequence of bytes, a regular expression or nothing at all.
-/

namespace ScriptLens

inductive Prim where
  | num (x : Double)
  | nan (tag : Nat)
  | text (t : Text)
  | bool (b : Bool)
  | bytes (t : Text)
  | regexp (r : Regexp)
  | none
deriving DecidableEq, Inhabited

namespace Prim

def ofDouble (tag : Nat) (x : Double) : Prim := if x.isNaN then nan tag else num x

def ofNat (n : Nat) : Prim := num (Double.ofNat n)

def double? : Prim → Option Double
  | num x => some x
  | nan _ => some Double.nan
  | _ => Option.none

def text? : Prim → Option Text
  | text t => some t
  | _ => Option.none

def equal : Prim → Prim → Bool
  | num x, num y => x.eq y
  | num x, bool b => x.eq (Concrete.boolNumber b)
  | bool a, num y => (Concrete.boolNumber a).eq y
  | text s, text t => s == t
  | bool a, bool b => a == b
  | bytes s, bytes t => s == t
  | regexp r, regexp s => r == s
  | none, none => true
  | _, _ => false

def same : Prim → Prim → Bool
  | nan a, nan b => a == b
  | p, q => equal p q

def kindName : Prim → String
  | num _ => "<class 'float'>"
  | nan _ => "<class 'float'>"
  | text _ => "<class 'str'>"
  | bool _ => "<class 'bool'>"
  | bytes _ => "<class 'bytes'>"
  | regexp _ => "<class 're.Pattern'>"
  | none => "<class 'NoneType'>"

def shown : Prim → Text
  | num x => x.toReport
  | nan _ => "nan"
  | text t => t.quoted
  | bool b => if b then "True" else "False"
  | bytes t => Text.ofString "b" ++ t.quoted
  | regexp r => r.printed
  | none => "None"

end Prim

end ScriptLens
