import ScriptLens.Analysis.Basic
import ScriptLens.Builtin.Arrays
import ScriptLens.Grammar.Program
import ScriptLens.Pattern.Match

/-!
# Calls of built-in functions

A built-in function gets the receiver of the call, if there is one, as its first argument.
-/

namespace ScriptLens

open Builtin Text

inductive Argument where
  | value (v : Value)
  | object (id : Nat) (o : Obj)

namespace Argument

def value? : Argument → Option Value
  | value v => some v
  | object _ _ => none

def prim? : Argument → Option Prim
  | value (.prim p) => some p
  | _ => none

def text? (a : Argument) : Option Text := a.prim?.bind Prim.text?

def double? (a : Argument) : Option Double := a.prim?.bind Prim.double?

def isTop : Argument → Bool
  | value v => v.isTop
  | object _ _ => false

def shown : Argument → Text
  | value v => v.shown
  | object _ o => o.shown

def kindName : Argument → String
  | value v => v.kindName
  | object _ _ => "<class 'abstract.JSObject'>"

end Argument

/-- The least and, if there is one, the greatest number of arguments of a built-in function. -/
def Native.arity : Native → Nat × Option Nat
  | .toText => (1, some 2)
  | .fromCharCode => (2, some 2)
  | .string => (1, some 1)
  | .display => (0, none)
  | .showState => (0, some 0)
  | .parseInt => (1, some 2)
  | .assert => (1, some 1)
  | .isKnown => (1, some 1)
  | .pop => (1, some 1)
  | .push => (2, some 2)
  | .shift => (1, some 1)
  | .indexOf => (2, some 3)
  | .reverse => (1, some 1)
  | .join => (1, some 2)
  | .split => (1, some 3)
  | .charCodeAt => (2, some 2)
  | .charAt => (2, some 2)
  | .slice => (1, some 3)
  | .substr => (1, some 3)
  | .substring => (1, some 3)
  | .replace => (3, some 3)
  | .fromBase64 => (1, some 1)
  | .toBase64 => (1, some 1)
  | .unquote => (1, some 1)
  | .decodeUri => (1, some 1)
  | .makeFunction => (1, none)
  | .round => (2, some 2)
  | .regexp => (2, some 3)
  | .test => (2, some 2)
  | .eval => (1, some 1)
  | .named _ => (0, none)

namespace Analysis

def numberOf (v : Value) : Analysis (Option Double) := do
  match ← (← scene).toNumber v with
  | .prim p => return p.double?
  | _ => return none

def ofDouble (x : Double) : Analysis Value := do return .prim (.ofDouble (← scene).tag x)

def onArray (a : Argument) (f : Obj → Except Failure (Value × Obj)) : Analysis Value := do
  match a with
  | .value .top => return .top
  | .value _ => fail .missingPart
  | .object i o =>
    let (v, o) ← f o
    changeObject i fun _ => o
    return v

def nativeToText (a base : Argument) : Analysis Value := do
  match a.double?, base.double? with
  | some x, some b =>
    let n ← x.toInt
    return .prim (.text (← intText n (← b.toInt)))
  | _, _ =>
    match a with
    | .object _ o =>
      if o.body.isSome then return .prim (.text (← (← scene).functionText o))
    | .value .absent => fail .missingPart
    | .value _ => pure ()
    print ("warning: .toString() unhandled argument:  " ++ a.shown ++ ofString " base: "
      ++ base.shown)
    return .top

def nativeFromCharCode (code : Argument) : Analysis Value := do
  match code.value? with
  | none => fail .notConvertible
  | some v =>
    if v.isTop || v.isOr then return .top
    match ← numberOf v with
    | none => return .top
    | some x =>
      if x.isNaN then return .prim (.text (singleton 0))
      let n ← x.toInt
      if n < -2147483648 || 2147483647 < n then fail .tooLarge
      if n < 0 || 0x10FFFF < n then fail (.badValue "")
      return .prim (.text (singleton n.toNat))

def nativeParseInt (a base : Argument) : Analysis Value := do
  match a with
  | .value .undefined => return .undefined
  | _ =>
    let text ← (do
      match a.double? with
      | some x => return some (Decimal.intText (← x.toInt))
      | none => return a.text? : Analysis (Option Text))
    match text, base.double? with
    | some t, some b => parseInt (← scene).tag t b
    | _, _ => return .top

def nativeAssert (a : Argument) : Analysis Value := do
  let holds ← (match a with
    | .value (.prim p) => (Value.prim p).truth
    | .value (.ref _) => return true
    | _ => return false : Except Failure Bool)
  if holds then return .top
  fail (.broken ("Analyzer assertion failed: " ++ a.shown))

def nativeIndexOf (a item start : Argument) : Analysis Value := do
  if a.isTop || item.isTop || start.isTop then return .top
  match a with
  | .object _ o =>
    searchItem (item.value?.getD .absent) (start.value?.getD .absent) 0 o.props
  | .value (.prim (.text t)) =>
    let p ← primOf (item.value?.getD .absent)
    let q ← primOf (start.value?.getD .absent)
    let i ← primInt q
    let s ← textOf p
    return .prim (.num (findText t s i))
  | _ => fail (.missingName "Invalid Javascript")

def nativeSplit (a : Argument) (separator count : Option Argument) : Analysis Value := do
  match separator with
  | none => return (a.value?).getD .top
  | some separator =>
    match a.text?, separator.text? with
    | some t, some s =>
      let parts := splitText t s
      let parts ← (match count with
        | none => return some parts
        | some c =>
          match c.double? with
          | some x => do return some (firstItems parts (← x.toInt))
          | none => return none : Except Failure (Option (List Text)))
      match parts with
      | none => return .top
      | some parts =>
        let i ← newObject (arrayOf (parts.map fun p => .prim (.text p)))
        return .ref ⟨i, .unbound⟩
    | _, _ => return .top

def nativePointAt (a position : Argument) (f : Nat → Value) : Analysis Value := do
  match a.text? with
  | none => return .top
  | some t =>
    if position.isTop then return .top
    match ← numberOf (position.value?.getD .absent) with
    | none => return .top
    | some x =>
      match ← pointAt t x with
      | some c => return f c
      | none => return .undefined

def nativeSubstr (a start length : Argument) : Analysis Value := do
  match a.text? with
  | none => return .top
  | some t =>
    if start.isTop || length.isTop then return .top
    let i ← numberOf (start.value?.getD .absent)
    let l ← (do
      if length.prim? == some .none then return some none
      match ← numberOf (length.value?.getD .absent) with
      | some x => return some (some x)
      | none => return none : Analysis (Option (Option Double)))
    match l, i with
    | some l, some i => substr t i l
    | _, _ => return .top

def nativeSubstring (a start : Argument) (stop : Option Argument) : Analysis Value := do
  match a.text? with
  | none => return .top
  | some t =>
    if start.isTop then return .top
    if (stop.map Argument.isTop).getD false then return .top
    match ← numberOf (start.value?.getD .absent) with
    | none => return .top
    | some i =>
      match stop with
      | none => substring t i none
      | some j =>
        match ← numberOf (j.value?.getD .absent) with
        | none => return .top
        | some j => substring t i (some j)

def nativeSlice (a start stop : Argument) : Analysis Value := do
  match a.text?, start.double?, stop.prim? with
  | some t, some i, some .none => slice t i none
  | some t, some i, some p =>
    match p.double? with
    | some j => slice t i (some j)
    | none => return .top
  | _, _, _ => return .top

def ofFault {α : Type} : Except Pattern.Fault α → Except Failure α
  | .ok a => return a
  | .error .malformed => throw .badPattern
  | .error .countTooLarge => throw .tooLarge

def ofTemplateFault {α : Type} : Except Pattern.TemplateFault α → Except Failure α
  | .ok a => return a
  | .error .malformed => throw .badPattern
  | .error .unknownName => throw .missingItem

def replacementBy (r : Engine) (f : Ref) (matched : Text) : Analysis (Option Text) := do
  let o ← object f.target
  if !o.isCallable then fail (.broken "")
  match ← r.invoke (.object o) none [.prim (.text matched)] .unbound with
  | .prim (.text t) => return some t
  | _ => return none

def replacementsBy (r : Engine) (f : Ref) (t : Text) :
    List Pattern.Found → Analysis (List (Pattern.Found × Option Text))
  | [] => return []
  | m :: l => do
    let s ← replacementBy r f (t.extract m.start m.stop)
    return (m, s) :: (← replacementsBy r f t l)

def replacer? (v : Value) : Analysis (Option Ref) := do
  match v with
  | .ref f => return if (← object f.target).isCallable then some f else none
  | _ => return none

def primArgument (a : Argument) : Except Failure Prim :=
  match a.prim? with
  | some p => return p
  | none => throw .missingPart

def replacePattern (r : Engine) (a : Argument) (e : Regexp) (replacement : Value) (all : Bool) :
    Analysis Value := do
  match ← replacer? replacement with
  | some f =>
    let t ← textOf (← primArgument a)
    let found ← ofFault (e.matchesIn t all)
    let replaced ← replacementsBy r f t found
    if replaced.any fun p => p.2.isNone then return .top
    return .prim (.text (Pattern.splice t 0 (replaced.map fun p => (p.1, p.2.getD ""))))
  | none =>
    let p ← primOf replacement
    let q ← primArgument a
    let s ← textOf p
    let compiled ← ofFault (Pattern.compile e)
    let parts ← ofTemplateFault (Pattern.template compiled (s.length + 1) s.toList)
    let t ← textOf q
    let found ← ofFault (e.matchesIn t false)
    return .prim (.text (Pattern.splice t 0 (found.map fun m =>
      (m, concat (parts.map (Pattern.Part.expand t m))))))

def replaceText (r : Engine) (a : Argument) (pattern : Prim) (replacement : Value) :
    Analysis Value := do
  let t ← (match ← primArgument a with
    | .text t => return t
    | .bytes _ => throw .wrongKind
    | _ => throw .missingPart : Except Failure Text)
  let p ← textOf pattern
  match t.find? p 0 with
  | none => return .prim (.text t)
  | some i =>
    let replaced ← (do
      match ← replacer? replacement with
      | some f => replacementBy r f (t.extract i (i + p.length))
      | none => return some (← textOf (← primOf replacement)) : Analysis (Option Text))
    match replaced with
    | none => return .top
    | some s => return .prim (.text (t.extract 0 i ++ s ++ t.drop (i + p.length)))

def nativeReplace (r : Engine) (a pattern replacement : Argument) : Analysis Value := do
  if a.isTop || pattern.isTop || replacement.isTop then return .top
  let replacement := replacement.value?.getD .absent
  match pattern.value?.getD .absent with
  | .ref q =>
    let o ← object q.target
    let all ← (match o.get? "regexp_flags" with
      | none => throw .missingEntry
      | some (.prim (.text t)) => return t.contains 103
      | some (.prim _) => throw .wrongKind
      | some _ => throw .missingPart : Except Failure Bool)
    match o.get? "regexp" with
    | none => fail .missingEntry
    | some (.prim (.regexp e)) => replacePattern r a e replacement all
    | some (.prim p) => replaceText r a p replacement
    | some _ => fail .missingPart
  | .prim (.regexp e) => replacePattern r a e replacement false
  | .prim p => replaceText r a p replacement
  | _ => fail .missingPart

def nativeRegexp (this pattern flags : Argument) : Analysis Value := do
  match pattern.text? with
  | some t =>
    let e : Regexp := ⟨t, .plain⟩
    let _ ← ofFault (Pattern.compile e)
    match this with
    | .value _ => fail .missingPart
    | .object i _ =>
      changeObject i fun o =>
        (o.put "regexp" (.prim (.regexp e))).put "regexp_flags" (flags.value?.getD .absent)
      let test ← newObject (.builtin .test true)
      changeObject i fun o => o.put "test" (.ref ⟨test, .unbound⟩)
      return .undefined
  | none =>
    match this with
    | .value _ => fail .missingPart
    | .object i _ =>
      changeObject i fun o => { o.setMissing .isTop with props := [] }
      return .undefined

def nativeTest (this target : Argument) : Analysis Value := do
  match this with
  | .value _ => fail .missingPart
  | .object _ o =>
    match o.get? "regexp" with
    | none => fail .missingEntry
    | some (.prim (.regexp e)) =>
      let t ← textOf (← primArgument target)
      return .prim (.bool (← ofFault (e.matchesStart t)))
    | some _ => fail .missingPart

def callSite : Option Tree → Analysis Tree
  | some t => return t
  | none => fail .missingPart

def parseText (t : Text) : Analysis Tree := do
  let p ← parseScript t (← get).nextRef
  modify fun m => { m with nextRef := p.nextRef }
  return p.tree

def nativeMakeFunction (r : Engine) (site : Option Tree) (args : List Argument) :
    Analysis Value := do
  match args.getLast? with
  | none => fail .missingItem
  | some body =>
    let site ← callSite site
    setNote site .isEval (.flag true)
    match body.text? with
    | none => return .top
    | some t =>
      let text := ofString "(function() \x7b" ++ t ++ ofString "\x7d)"
      let tree ← parseText text
      r.program tree text
      setNote site .madeFunction (.trees (tree.get .body).items)
      return (← state).value

def readCode (site : Tree) (x : Text) : Analysis Tree := do
  print "True"
  let tree ← parseText x
  setNote site .evalTree (.tree tree)
  return tree

def evalCode (site : Tree) (x : Text) : Analysis Tree := do
  match ← note site .evalTree with
  | .tree tree =>
    print "False"
    return tree
  | _ => readCode site x

def nativeEval (r : Engine) (site : Option Tree) (target : Argument) : Analysis Value := do
  if target.isTop then return .top
  let site ← callSite site
  setNote site .isEval (.flag true)
  match target.text? with
  | none => return (target.value?).getD .top
  | some t =>
    let tree ← evalCode site t
    print "False"
    r.program tree t
    return (← state).value

def nativeDisplay : Nat → List Argument → Analysis Unit
  | _, [] => print ""
  | i, a :: l => do
    let start := ofString "Arg " ++ Decimal.natText i ++ ofString " type: "
      ++ ofString a.kindName ++ ofString " value: " ++ a.shown
    let finish ← (match a with
      | .value (.ref q) => do return ofString " target: " ++ (← object q.target).shown
      | .value (.prim p) => return ofString " concrete type: " ++ ofString p.kindName
      | _ => return "" : Analysis Text)
    print (start ++ finish)
    nativeDisplay (i + 1) l

def numberArgument (n : Nat) : Argument := .value (.prim (.num (.ofNat n)))

def argument (args : List Argument) (i : Nat) (default : Argument) : Argument := args.getD i default

/-- Carries out a built-in function that has been given a number of arguments it takes. -/
def runNative (r : Engine) (f : Native) (site : Option Tree) (args : List Argument) :
    Analysis Value := do
  let nothing := Argument.value .absent
  let a := argument args 0 nothing
  let b := argument args 1 nothing
  let missing := Argument.value (.prim .none)
  match f with
  | .toText => nativeToText a (argument args 1 (numberArgument 10))
  | .fromCharCode => nativeFromCharCode b
  | .string => return (a.prim?.map Value.prim).getD .top
  | .display =>
    print "displaying args:"
    nativeDisplay 0 args
    return .undefined
  | .showState =>
    print (ofString "___state: " ++ (← state).shown)
    return .top
  | .parseInt => nativeParseInt a (argument args 1 (numberArgument 10))
  | .assert => nativeAssert a
  | .isKnown => return .prim (.bool !a.isTop)
  | .pop => onArray a popLast
  | .push => onArray a fun o => return pushLast (b.value?.getD .absent) o
  | .shift => onArray a fun o => return shiftFirst o
  | .indexOf => nativeIndexOf a b (argument args 2 (numberArgument 0))
  | .reverse =>
    match a with
    | .value .top => return .top
    | .value _ => fail .missingPart
    | .object _ o =>
      let i ← newId
      let o ← reversed o
      changeState fun s => s.putObj i o
      return .ref ⟨i, .unbound⟩
  | .join =>
    let separator := (argument args 1 (.value (.prim (.text ",")))).value?.getD .absent
    match a with
    | .value .top => return .top
    | .value _ => if separator.isTop then return .top else fail .missingPart
    | .object _ o => joined o separator
  | .split => nativeSplit a (args[1]?) (args[2]?)
  | .charCodeAt => nativePointAt a b fun c => .prim (.num (.ofNat c))
  | .charAt => nativePointAt a b fun c => .prim (.text (singleton c))
  | .slice => nativeSlice a (argument args 1 (numberArgument 0)) (argument args 2 missing)
  | .substr => nativeSubstr a (argument args 1 (numberArgument 0)) (argument args 2 missing)
  | .substring => nativeSubstring a (argument args 1 (numberArgument 0)) (args[2]?)
  | .replace => nativeReplace r a b (argument args 2 nothing)
  | .fromBase64 =>
    match a.text? with
    | some t => return .prim (.text (← Base64.decode t))
    | none => return .top
  | .toBase64 =>
    match a.text? with
    | some t =>
      if t.hasSurrogate then fail .notEncodable
      return .prim (.bytes (ofList (Base64.encode (Utf8.encode t.toList))))
    | none => return .top
  | .unquote =>
    match a.text? with
    | some t => return .prim (.text (Percent.unquote t))
    | none => return .top
  | .decodeUri =>
    match a.text? with
    | some t =>
      match ← (Value.prim (.text t)).concrete with
      | .text t => return .prim (.text (← Percent.decodeUri t).beforeNul)
      | _ => return .top
    | none => return .top
  | .makeFunction => nativeMakeFunction r site args.tail
  | .round =>
    match b.double? with
    | some x =>
      if x.isNaN then fail (.badValue "")
      if x.isInfinite then fail .tooLarge
      return .prim (.num (.ofInt x.roundEven))
    | none => return .top
  | .regexp => nativeRegexp a b (argument args 2 (.value (.prim (.text ""))))
  | .test => nativeTest a b
  | .eval => nativeEval r site a
  | .named _ => return .top

def callNative (r : Engine) (f : Native) (site : Option Tree) (this : Receiver)
    (args : List Value) : Analysis Value := do
  let receiver ← (match this with
    | .unbound => return []
    | .object 0 => return []
    | .object i => do return [.object i (← object i)]
    | .prim p => return [.value (.prim p)] : Analysis (List Argument))
  let args := receiver ++ args.map Argument.value
  let (least, greatest) := f.arity
  if args.length < least then fail .wrongKind
  match greatest with
  | some n => if n < args.length then fail .wrongKind
  | none => pure ()
  runNative r f site args

end Analysis

end ScriptLens
