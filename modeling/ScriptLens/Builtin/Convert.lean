import ScriptLens.Domain.State
import ScriptLens.Operator.Apply

/-!
# Operators on abstract values

An operator is carried out when its operands are known primitive values.
-/

namespace ScriptLens

def Text.beforeNul (t : Text) : Text :=
  if t.contains 0 then Text.ofList (t.toList.takeWhile (· != 0)) else t

def Value.concrete : Value → Except Failure Concrete
  | .undefined => return .undefined
  | .null => return .null
  | .prim (.num x) => return .num x
  | .prim (.nan _) => return .num Double.nan
  | .prim (.bool b) => return .bool b
  | .prim (.text t) => if t.hasSurrogate then throw .notEncodable else return .text t.beforeNul
  | _ => throw .notConvertible

def Value.ofConcrete (tag : Nat) : Concrete → Value
  | .undefined => .undefined
  | .null => .null
  | .num x => .prim (.ofDouble tag x)
  | .text t => .prim (.text t.beforeNul)
  | .bool b => .prim (.bool b)

structure Scene where
  heap : Heap
  source : Text
  tag : Nat

def functionId : Nat := 26

namespace Scene

def target (c : Scene) (r : Ref) : Except Failure Obj :=
  match c.heap.get? r.target with
  | some o => return o
  | none => throw .missingEntry

def functionText (c : Scene) (o : Obj) : Except Failure Text :=
  match o.span with
  | some (i, j) => return c.source.extract i.toNat j.toNat
  | none => throw .missingPart

def elementTexts (textOf : Value → Except Failure Value) (o : Obj) :
    List Nat → Except Failure (Option (List Text))
  | [] => return some []
  | i :: places =>
    match o.get? (.int i) with
    | none => return none
    | some v => do
      match ← textOf v with
      | .prim (.text t) => return (← elementTexts textOf o places).map (t :: ·)
      | _ => return none

def plainText (c : Scene) (v : Value) : Except Failure Value := do
  if v.isTop then return .top
  return .ofConcrete c.tag (.binary .add (.text "") (← v.concrete))

/-- A value as a text; arrays inside arrays are followed `n` deep. -/
def textWithin (c : Scene) : Nat → Value → Except Failure Value
  | 0, _ => throw .unfinished
  | n + 1, .ref r => do
    let o ← c.target r
    if o.body.isSome then return .prim (.text (← c.functionText o))
    match o.length with
    | none => return .prim (.text "[object Object]")
    | some l =>
      match ← elementTexts (c.textWithin n) o (List.range l.toNat) with
      | some ts => return .prim (.text (Text.intercalate "," ts))
      | none => return .top
  | _ + 1, v => c.plainText v

def toText (c : Scene) (v : Value) : Except Failure Value := c.textWithin (c.heap.size + 2) v

def unaryKnown (c : Scene) (op : UnaryOp) (v : Value) : Except Failure Value :=
  return .ofConcrete c.tag (.unary op (← v.concrete))

def unaryPlain (c : Scene) (op : Text) (v : Value) : Except Failure Value := do
  if v.isTop then return .top
  match UnaryOp.ofText? op, v with
  | some .not, .ref _ => return .prim (.bool false)
  | some o, .ref _ => c.unaryKnown o (← c.toText v)
  | some o, _ => c.unaryKnown o v
  | none, .ref r =>
    if op == "typeof" then
      let o ← c.target r
      return .prim (.text (if o.isCallable then "function" else "object"))
    else return .top
  | none, _ => return .top

def toNumber (c : Scene) (v : Value) : Except Failure Value := do
  match ← c.toText v with
  | .top => return .top
  | w => c.unaryKnown .plus w

/-- Whether a binary operator converts references among its operands to texts. -/
def readsText : BinaryOp → Bool
  | .or | .and | .xor | .add | .eq | .sub | .div | .mul | .gt | .lt | .ge | .le => true
  | _ => false

def isRef : Value → Bool
  | .ref _ => true
  | _ => false

/-- Whether the first operand is known to be an instance of the second. -/
def instanceOf (c : Scene) (a b : Value) : Except Failure Value := do
  match a, b with
  | .ref r, .ref q =>
    if q.target == functionId then
      let o ← c.target r
      return if o.isCallable then .prim (.bool true) else .top
    else return .top
  | _, _ => return .top

/-- The first operand of an operator that converts, after references have been converted.  The
text of the second operand, if that is a reference, takes the place of the first one. -/
def converted (c : Scene) (a b : Value) : Except Failure Value := do
  let a ← (do if isRef a then c.toText a else return a : Except Failure Value)
  if isRef b then c.toText b else return a

def binaryPlain (c : Scene) (op : Text) (a b : Value) : Except Failure Value := do
  if a.isTop || b.isTop then return .top
  let hasRef := isRef a || isRef b
  match BinaryOp.ofText? op with
  | none => if hasRef && op == "instanceof" then c.instanceOf a b else return .top
  | some .identical =>
    if isRef a && isRef b then throw .missingPart
    else if hasRef then return .prim (.bool false)
    else return .ofConcrete c.tag (.binary .identical (← a.concrete) (← b.concrete))
  | some o =>
    let a ← (do if hasRef && readsText o then c.converted a b else return a : Except Failure Value)
    let x ← a.concrete
    let y ← b.concrete
    return .ofConcrete c.tag (.binary o x y)

def unary (c : Scene) (useOr : Bool) (op : Text) (v : Value) : Except Failure Value :=
  Value.lift useOr (fun l => c.unaryPlain op (l.headD .absent)) [] [v]

def binary (c : Scene) (useOr : Bool) (op : Text) (a b : Value) : Except Failure Value :=
  Value.lift useOr
    (fun
      | [v, w] => c.binaryPlain op v w
      | _ => return .top) [] [a, b]

/-- What a variable holds after it is counted up or down: only numbers are followed. -/
def update (c : Scene) (op : Text) (v : Value) : Value :=
  match v with
  | .prim p =>
    match p.double? with
    | some x =>
      if op == "++" then .prim (.ofDouble c.tag (x.add (.ofNat 1)))
      else if op == "--" then .prim (.ofDouble c.tag (x.sub (.ofNat 1)))
      else .top
    | none => .top
  | _ => .top

end Scene

end ScriptLens
