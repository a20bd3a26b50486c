import ScriptLens.Pattern.Basic
import ScriptLens.Text.Identifier

/-!
# Reading regular expressions

`Pattern.compile` reads the text of a pattern.  The reader keeps the rest of the text and the
groups seen so far; every choice it makes is decided by the next characters.
-/

namespace ScriptLens.Pattern

open Text

structure Reader where
  rest : List Nat
  /-- The number of groups opened so far, the whole match included. -/
  groups : Nat := 1
  names : List (Text × Nat) := []
  opened : List Nat := []
  behind : Option Nat := none
  conditions : List Nat := []
  /-- The least and greatest width of the groups that are closed. -/
  widths : List (Nat × Nat × Option Nat) := []

abbrev Read := StateT Reader (Except Fault)

def wrong {α : Type} : Read α := throw .malformed

def peek : Read (Option Nat) := do return (← get).rest.head?

def next : Read (Option Nat) := do
  let s ← get
  match s.rest with
  | [] => return none
  | c :: r =>
    set { s with rest := r }
    return some c

def accept (c : Char) : Read Bool := do
  if (← peek) == some c.toNat then
    let _ ← next
    return true
  else return false

/-- Takes at most `n` characters of a class. -/
def takeSome (p : Nat → Bool) : Nat → Read (List Nat)
  | 0 => return []
  | n + 1 => do
    match ← peek with
    | some c =>
      if p c then
        let _ ← next
        return c :: (← takeSome p n)
      else return []
    | none => return []

def takeUntil (close : Char) : Read Text := do
  let s ← get
  let taken := s.rest.takeWhile (· != close.toNat)
  match s.rest.drop taken.length with
  | [] => wrong
  | _ :: r =>
    if taken.isEmpty then wrong
    set { s with rest := r }
    return ofList taken

def isName (t : Text) : Bool :=
  match t.toList with
  | [] => false
  | c :: r =>
    let start (c : Nat) := isIdentifierStart c && c != 36 && c != 92
    let part (c : Nat) := isIdentifierPart c && c != 36 && c != 92 && c != 0x200C && c != 0x200D
    start c && r.all part

def digitsIn (base : Nat) (l : List Nat) : Nat :=
  l.foldl (fun n c => base * n + (hexValue? c).getD 0) 0

def isAsciiLetter (c : Nat) : Bool := (65 ≤ c && c ≤ 90) || (97 ≤ c && c ≤ 122)

def hexEscape (n : Nat) : Read Nat := do
  let ds ← takeSome isHexDigit n
  if ds.length == n then
    let v := digitsIn 16 ds
    if v < 0x110000 then return v else wrong
  else wrong

def simpleEscape? (c : Nat) : Option Nat :=
  if c == 'a'.toNat then some 7
  else if c == 'f'.toNat then some 12
  else if c == 'n'.toNat then some 10
  else if c == 'r'.toNat then some 13
  else if c == 't'.toNat then some 9
  else if c == 'v'.toNat then some 11
  else if c == 92 then some 92
  else none

def classEscape? (c : Nat) : Option Member :=
  if c == 'd'.toNat then some (.digit true)
  else if c == 'D'.toNat then some (.digit false)
  else if c == 's'.toNat then some (.space true)
  else if c == 'S'.toNat then some (.space false)
  else if c == 'w'.toNat then some (.word true)
  else if c == 'W'.toNat then some (.word false)
  else none

/-- The escapes by code that mean the same inside and outside a set. -/
def codeEscape (c : Nat) : Read (Option Nat) := do
  if c == 'x'.toNat then return some (← hexEscape 2)
  else if c == 'u'.toNat then return some (← hexEscape 4)
  else if c == 'U'.toNat then return some (← hexEscape 8)
  else return none

def setEscape : Read Member := do
  match ← next with
  | none => wrong
  | some c =>
    if c == 'b'.toNat then return .one 8
    if let some v := simpleEscape? c then return .one v
    if let some m := classEscape? c then return m
    if let some v ← codeEscape c then return .one v
    if isOctalDigit c then
      let v := digitsIn 8 (c :: (← takeSome isOctalDigit 2))
      if v ≤ 255 then return .one v else wrong
    if isDecimalDigit c || isAsciiLetter c then wrong
    return .one c

def setItem (c : Nat) : Read Member := if c == 92 then setEscape else return .one c

def setMembers : Nat → List Member → Read (List Member)
  | 0, _ => wrong
  | n + 1, acc => do
    match ← next with
    | none => wrong
    | some c =>
      if c == ']'.toNat && !acc.isEmpty then return acc.reverse
      let first ← setItem c
      if ← accept '-' then
        match ← next with
        | none => wrong
        | some d =>
          if d == ']'.toNat then return (Member.one '-'.toNat :: first :: acc).reverse
          let second ← setItem d
          match first, second with
          | .one low, .one high =>
            if high < low then wrong
            setMembers n (.range low high :: acc)
          | _, _ => wrong
      else setMembers n (first :: acc)

def reference (mode : Mode) (g : Nat) : Read Expr := do
  let s ← get
  if g == 0 || s.groups ≤ g || s.opened.contains g then wrong
  match s.behind with
  | some limit => if limit ≤ g then wrong else return .same mode g
  | none => return .same mode g

def numberEscape (mode : Mode) (c : Nat) : Read Expr := do
  match ← takeSome isDecimalDigit 1 with
  | [d] =>
    if isOctalDigit c && isOctalDigit d then
      match ← takeSome isOctalDigit 1 with
      | [e] =>
        let v := digitsIn 8 [c, d, e]
        if v ≤ 255 then return .char mode v else wrong
      | _ => reference mode (digitsIn 10 [c, d])
    else reference mode (digitsIn 10 [c, d])
  | _ => reference mode (digitsIn 10 [c])

def escape (mode : Mode) : Read Expr := do
  match ← next with
  | none => wrong
  | some c =>
    if c == 'A'.toNat then return .textStart
    if c == 'Z'.toNat then return .textEnd
    if c == 'b'.toNat then return .boundary mode true
    if c == 'B'.toNat then return .boundary mode false
    if let some m := classEscape? c then return .set mode true [m]
    if let some v := simpleEscape? c then return .char mode v
    if let some v ← codeEscape c then return .char mode v
    if c == 48 then return .char mode (digitsIn 8 (← takeSome isOctalDigit 2))
    if isDecimalDigit c then return (← numberEscape mode c)
    if isAsciiLetter c then wrong
    return .char mode c

def width (groups : List (Nat × Nat × Option Nat)) : Nat → Expr → Nat × Option Nat
  | 0, _ => (0, none)
  | n + 1, e =>
    match e with
    | .char _ _ | .any _ | .set _ _ _ => (1, some 1)
    | .lineStart _ | .lineEnd _ | .textStart | .textEnd | .boundary _ _ | .look _ _ _ => (0, some 0)
    | .seq items =>
      items.foldl (fun (lo, hi) i =>
        let (l, h) := width groups n i
        (lo + l, match hi, h with
          | some a, some b => some (a + b)
          | _, _ => none)) (0, some 0)
    | .alt [] => (0, some 0)
    | .alt (b :: bs) =>
      bs.foldl (fun (lo, hi) i =>
        let (l, h) := width groups n i
        (min lo l, match hi, h with
          | some a, some b => some (max a b)
          | _, _ => none)) (width groups n b)
    | .repeated lo hi _ i _ =>
      let (l, h) := width groups n i
      (lo * l, match hi, h with
        | some a, some b => some (a * b)
        | none, some 0 | some 0, none => some 0
        | _, _ => none)
    | .group _ i | .plain i | .atomic i => width groups n i
    | .same _ g =>
      match groups.find? (·.1 == g) with
      | some (_, lo, hi) => (lo, hi)
      | none => (0, none)
    | .ifGroup _ a b =>
      let (l, h) := width groups n a
      let (l', h') := width groups n b
      (min l l', match h, h' with
        | some x, some y => some (max x y)
        | _, _ => none)

/-- Whether an expression may not be repeated: it is missing, or only looks at the place. -/
def isAnchor : Expr → Bool
  | .lineStart _ | .lineEnd _ | .textStart | .textEnd | .boundary _ _ => true
  | _ => false

/-- The bounds of a counted repetition after its opening brace, or nothing if it is none. -/
def counts : Read (Option (Nat × Option Nat)) := do
  let start ← get
  if (← peek) == some '}'.toNat then return none
  let all := start.rest.length
  let low ← takeSome isDecimalDigit all
  let high ← if ← accept ',' then takeSome isDecimalDigit all else pure low
  if !(← accept '}') then
    set start
    return none
  let limit := 4294967295
  let lo := digitsIn 10 low
  if limit ≤ lo then throw .countTooLarge
  if high.isEmpty then return some (lo, none)
  let hi := digitsIn 10 high
  if limit ≤ hi then throw .countTooLarge
  if hi < lo then wrong
  return some (lo, some hi)

def greedMark : Read Greed := do
  if ← accept '?' then return .lazy
  if ← accept '+' then return .possessive
  return .greedy

def isSetting (c : Nat) : Bool := "aiLmstux".toList.any fun d => d.toNat == c

def Mode.change (m : Mode) (c : Nat) (on : Bool) : Mode :=
  if c == 'i'.toNat then { m with ignoreCase := on }
  else if c == 'm'.toNat then { m with multiline := on }
  else if c == 's'.toNat then { m with dotAll := on }
  else if c == 'x'.toNat then { m with verbose := on }
  else if c == 'a'.toNat then { m with ascii := on }
  else m

def dropLine : List Nat → List Nat
  | [] => []
  | 92 :: _ :: r => dropLine r
  | 10 :: r => r
  | _ :: r => dropLine r

def skipBlanks : Nat → Read Unit
  | 0 => return ()
  | n + 1 => do
    match ← peek with
    | some c =>
      if c == 32 || (9 ≤ c && c ≤ 13) then
        let _ ← next
        skipBlanks n
      else if c == '#'.toNat then
        modify fun s => { s with rest := dropLine s.rest }
        skipBlanks n
      else return ()
    | none => return ()

def settingsOff (on : List Nat) (inside : Mode) : Read Mode := do
  let off ← takeSome isSetting (← get).rest.length
  if off.isEmpty || off.any fun o => "aLtu".toList.any fun d => d.toNat == o then wrong
  if off.any on.contains then wrong
  if ← accept ':' then return off.foldl (fun m o => m.change o false) inside else wrong

/-- Settings at the start of a group, after the question mark and the character `c`: those for the
rest of the pattern are the first alternative, those for the inside of the group the second. -/
def settings (mode : Mode) (c : Nat) : Read (Mode ⊕ Mode) := do
  if c == '-'.toNat then return .inr (← settingsOff [] mode)
  let on := c :: (← takeSome isSetting (← get).rest.length)
  if on.contains 'L'.toNat then wrong
  if on.contains 'a'.toNat && on.contains 'u'.toNat then wrong
  let inside := on.foldl (fun m d => m.change d true) mode
  if ← accept ')' then return .inl inside
  if on.contains 't'.toNat then wrong
  if ← accept ':' then return .inr inside
  if ← accept '-' then return .inr (← settingsOff on inside)
  wrong

def openGroup (name : Option Text) : Read Nat := do
  let s ← get
  if let some t := name then
    if s.names.any (·.1 == t) then wrong
  set { s with
    groups := s.groups + 1, opened := s.groups :: s.opened,
    names := match name with
      | some t => s.names ++ [(t, s.groups)]
      | none => s.names }
  return s.groups

def closeGroup (g : Nat) (e : Expr) (depth : Nat) : Read Unit :=
  modify fun s => { s with
    opened := s.opened.erase g, widths := (g, width s.widths depth e) :: s.widths }

/-- Drops the rest of a comment with its closing parenthesis; an escape does not close it. -/
def dropComment : List Nat → Option (List Nat)
  | [] => none
  | 92 :: _ :: r => dropComment r
  | 41 :: r => some r
  | _ :: r => dropComment r

def close : Read Unit := do if !(← accept ')') then wrong

inductive Piece where
  | item (e : Expr)
  | nothing
  | mode (m : Mode)

def Expr.ofItems : List Expr → Expr
  | [e] => e
  | es => .seq es

mutual

def branches (mode : Mode) (top : Bool) : Nat → Read Expr
  | 0 => wrong
  | n + 1 => do
    let (first, mode') ← items mode top [] n
    if (← peek) == some '|'.toNat then
      let rest ← moreBranches (if top then mode' else mode) n
      return .alt (first :: rest)
    else return first

def moreBranches (mode : Mode) : Nat → Read (List Expr)
  | 0 => wrong
  | n + 1 => do
    if ← accept '|' then
      let (e, _) ← items mode false [] n
      return e :: (← moreBranches mode n)
    else return []

def items (mode : Mode) (top : Bool) (acc : List Expr) : Nat → Read (Expr × Mode)
  | 0 => wrong
  | n + 1 => do
    if mode.verbose then skipBlanks (← get).rest.length
    match ← peek with
    | none => return (.ofItems acc.reverse, mode)
    | some c =>
      if c == '|'.toNat || c == ')'.toNat then return (.ofItems acc.reverse, mode)
      let _ ← next
      let bounds ←
        if c == '*'.toNat then pure (some (0, none))
        else if c == '+'.toNat then pure (some (1, none))
        else if c == '?'.toNat then pure (some (0, some 1))
        else if c == '{'.toNat then counts
        else pure none
      match bounds with
      | some (lo, hi) =>
        match acc with
        | [] => wrong
        | e :: before =>
          if isAnchor e then wrong
          if let .repeated .. := e then wrong
          let greed ← greedMark
          let item := match e with
            | .plain i => i
            | e => e
          items mode top (.repeated lo hi greed item none :: before) n
      | none =>
        match ← piece mode top acc.isEmpty c n with
        | .item e => items mode top (e :: acc) n
        | .nothing => items mode top acc n
        | .mode m => items m top acc n

def piece (mode : Mode) (top first : Bool) (c : Nat) : Nat → Read Piece
  | 0 => wrong
  | n + 1 => do
    if c == 92 then return .item (← escape mode)
    if c == '.'.toNat then return .item (.any mode)
    if c == '^'.toNat then return .item (.lineStart mode)
    if c == '$'.toNat then return .item (.lineEnd mode)
    if c == '['.toNat then
      let negative ← accept '^'
      let members ← setMembers ((← get).rest.length + 1) []
      return .item (.set mode (!negative) members)
    if c == '('.toNat then group mode (top && first) n
    else return .item (.char mode c)

def group (mode : Mode) (start : Bool) : Nat → Read Piece
  | 0 => wrong
  | n + 1 => do
    if !(← accept '?') then return .item (← captured mode none n)
    match ← next with
    | none => wrong
    | some c =>
      if c == 'P'.toNat then
        if ← accept '<' then
          let name ← takeUntil '>'
          if !isName name then wrong
          return .item (← captured mode (some name) n)
        else if ← accept '=' then
          let name ← takeUntil ')'
          if !isName name then wrong
          match (← get).names.find? (·.1 == name) with
          | some (_, g) => return .item (← reference mode g)
          | none => wrong
        else wrong
      else if c == ':'.toNat then
        let e ← branches mode false n
        close
        return .item (.plain e)
      else if c == '#'.toNat then
        let s ← get
        match dropComment s.rest with
        | none => wrong
        | some r =>
          set { s with rest := r }
          return .nothing
      else if c == '='.toNat || c == '!'.toNat then
        let e ← branches mode false n
        close
        return .item (.look none (c == '='.toNat) e)
      else if c == '<'.toNat then
        match ← next with
        | none => wrong
        | some d =>
          if d == '='.toNat || d == '!'.toNat then
            let before := (← get).behind
            if before.isNone then modify fun s => { s with behind := some s.groups }
            let e ← branches mode false n
            close
            modify fun s => { s with behind := before }
            match width (← get).widths n e with
            | (lo, some hi) =>
              if lo == hi then return .item (.look (some lo) (d == '='.toNat) e) else wrong
            | _ => wrong
          else wrong
      else if c == '('.toNat then
        let name ← takeUntil ')'
        let g ←
          if isName name then
            match (← get).names.find? (·.1 == name) with
            | some (_, g) => pure g
            | none => wrong
          else if name.toList.all isDecimalDigit then
            let g := digitsIn 10 name.toList
            if g == 0 then wrong else pure g
          else wrong
        modify fun s => { s with conditions := g :: s.conditions }
        if let some limit := (← get).behind then
          if limit ≤ g || (← get).opened.contains g then wrong
        let (yes, _) ← items mode false [] n
        let no ←
          if ← accept '|' then
            let (e, _) ← items mode false [] n
            if (← peek) == some '|'.toNat then wrong
            pure e
          else pure (.seq [])
        close
        return .item (.ifGroup g yes no)
      else if c == '>'.toNat then
        let e ← branches mode false n
        close
        return .item (.atomic e)
      else if isSetting c || c == '-'.toNat then
        match ← settings mode c with
        | .inl m => if start then return .mode m else wrong
        | .inr m =>
          let e ← branches m false n
          close
          return .item (.plain (.plain e))
      else wrong

def captured (mode : Mode) (name : Option Text) : Nat → Read Expr
  | 0 => wrong
  | n + 1 => do
    let g ← openGroup name
    let e ← branches mode false n
    close
    closeGroup g e n
    return .group g e

end

def Mode.ofFlag : RegexpFlag → Mode
  | .plain => {}
  | .ignoreCase => { ignoreCase := true }
  | .multiline => { multiline := true }

def compile (r : Regexp) : Except Fault Compiled := do
  let fuel := 8 * r.pattern.length + 16
  let (e, s) ← (branches (.ofFlag r.flag) true fuel).run { rest := r.pattern.toList }
  if !s.rest.isEmpty then throw .malformed
  if s.conditions.any (s.groups ≤ ·) then throw .malformed
  return ⟨e, s.groups, s.names⟩

end ScriptLens.Pattern
