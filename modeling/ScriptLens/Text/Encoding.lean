import ScriptLens.Failure

/-!
# Encodings of texts

UTF-8, base 64, and the escapes in URIs.
-/

namespace ScriptLens.Utf8

def encodePoint (c : Nat) : List Nat :=
  if c < 0x80 then [c]
  else if c < 0x800 then [0xC0 + c / 0x40, 0x80 + c % 0x40]
  else if c < 0x10000 then [0xE0 + c / 0x1000, 0x80 + c / 0x40 % 0x40, 0x80 + c % 0x40]
  else [0xF0 + c / 0x40000, 0x80 + c / 0x1000 % 0x40, 0x80 + c / 0x40 % 0x40, 0x80 + c % 0x40]

def encode (l : List Nat) : List Nat := l.flatMap encodePoint

/-- What stands for bytes that encode nothing. -/
def replacement : Nat := 0xFFFD

/-- How many bytes follow a first byte, and the bits it gives to the code point. -/
def lead? (b : Nat) : Option (Nat × Nat) :=
  if b < 0x80 then some (0, b)
  else if b < 0xC2 then none
  else if b < 0xE0 then some (1, b - 0xC0)
  else if b < 0xF0 then some (2, b - 0xE0)
  else if b < 0xF5 then some (3, b - 0xF0)
  else none

/-- Whether `b` may follow the first byte `lead`. -/
def isSecond (lead b : Nat) : Bool :=
  let least := if lead == 0xE0 then 0xA0 else if lead == 0xF0 then 0x90 else 0x80
  let greatest := if lead == 0xED then 0x9F else if lead == 0xF4 then 0x8F else 0xBF
  least ≤ b && b ≤ greatest

def isContinuation (b : Nat) : Bool := 0x80 ≤ b && b ≤ 0xBF

/-- What a reader of bytes is in the middle of. -/
structure Partial where
  bits : Nat
  missing : Nat
  lead : Option Nat

/-- Whether a byte continues what the reader is in the middle of. -/
def Partial.accepts (p : Partial) (b : Nat) : Bool :=
  match p.lead with
  | some lead => isSecond lead b
  | none => isContinuation b

/-- The code points of bytes; `p` is what has been begun. -/
def decodeLenient (p : Option Partial) : List Nat → List Nat
  | [] => if p.isSome then [replacement] else []
  | b :: l =>
    let start (before : List Nat) : List Nat :=
      match lead? b with
      | none => before ++ replacement :: decodeLenient none l
      | some (0, c) => before ++ c :: decodeLenient none l
      | some (n, bits) => before ++ decodeLenient (some ⟨bits, n, some b⟩) l
    match p with
    | none => start []
    | some q =>
      if q.accepts b then
        let bits := q.bits * 0x40 + (b - 0x80)
        if q.missing ≤ 1 then bits :: decodeLenient none l
        else decodeLenient (some ⟨bits, q.missing - 1, none⟩) l
      else start [replacement]

end ScriptLens.Utf8

namespace ScriptLens.Base64

def letter (n : Nat) : Nat :=
  if n < 26 then 65 + n
  else if n < 52 then 71 + n
  else if n < 62 then n - 4
  else if n == 62 then 43
  else 47

def number? (c : Nat) : Option Nat :=
  if 65 ≤ c && c ≤ 90 then some (c - 65)
  else if 97 ≤ c && c ≤ 122 then some (c - 71)
  else if 48 ≤ c && c ≤ 57 then some (c + 4)
  else if c == 43 then some 62
  else if c == 47 then some 63
  else none

def encode : List Nat → List Nat
  | [] => []
  | [a] => [letter (a / 4), letter (a % 4 * 16), 61, 61]
  | [a, b] => [letter (a / 4), letter (a % 4 * 16 + b / 16), letter (b % 16 * 4), 61]
  | a :: b :: c :: l =>
    letter (a / 4) :: letter (a % 4 * 16 + b / 16) :: letter (b % 16 * 4 + c / 64)
      :: letter (c % 64) :: encode l

/-- Reads base 64: `place` letters of a group have been read, `rest` is what they leave over, and
`pads` padding marks came last. -/
def decodeFrom (place rest pads : Nat) : List Nat → Option (List Nat)
  | [] => if place == 0 then some [] else none
  | c :: l =>
    if c == 61 then
      if 2 ≤ place then
        if 4 ≤ place + (pads + 1) then some [] else decodeFrom place rest (pads + 1) l
      else decodeFrom place rest pads l
    else
      match number? c with
      | none => decodeFrom place rest pads l
      | some n =>
        match place with
        | 0 => decodeFrom 1 n 0 l
        | 1 => (decodeFrom 2 (n % 16) 0 l).map fun r => (rest * 4 + n / 16) :: r
        | 2 => (decodeFrom 3 (n % 4) 0 l).map fun r => (rest * 16 + n / 4) :: r
        | _ => (decodeFrom 0 0 0 l).map fun r => (rest * 64 + n) :: r

def decode (t : Text) : Except Failure Text :=
  if t.points.any (128 ≤ ·) then throw (.badValue "")
  else
    match decodeFrom 0 0 0 t.toList with
    | some l => return Text.ofList l
    | none => throw .badBase64

end ScriptLens.Base64

namespace ScriptLens.Percent

def byte? (a b : Nat) : Option Nat := do
  let x ← Text.hexValue? a
  let y ← Text.hexValue? b
  return 16 * x + y

/-- The bytes of an ASCII text in which escapes stand for bytes. -/
def unescape : List Nat → List Nat
  | [] => []
  | 37 :: a :: b :: l =>
    match byte? a b with
    | some n => n :: unescape l
    | none => 37 :: unescape (a :: b :: l)
  | c :: l => c :: unescape l
termination_by l => l.length

/-- Reads the escapes in a list of code points; `run` holds, in reverse, the ASCII code points
read last. -/
def unquoteFrom (run : List Nat) : List Nat → List Nat
  | [] => Utf8.decodeLenient none (unescape run.reverse)
  | c :: l =>
    if c < 128 then unquoteFrom (c :: run) l
    else Utf8.decodeLenient none (unescape run.reverse) ++ c :: unquoteFrom [] l

def unquote (t : Text) : Text := Text.ofList (unquoteFrom [] t.toList)

/-- The characters whose escapes a resource name keeps. -/
def isReserved (c : Nat) : Bool := (Text.ofString ";/?:@&=+$,#").contains c

/-- Reads `n` further bytes of a code point, each behind one character and as two digits. -/
def continuation? : Nat → Nat → List Nat → Option (Nat × List Nat)
  | 0, bits, l => some (bits, l)
  | n + 1, bits, _ :: a :: b :: l =>
    match byte? a b with
    | some x => if Utf8.isContinuation x then continuation? n (bits * 64 + (x - 128)) l else none
    | none => none
  | _ + 1, _, _ => none

/-- How many bytes follow the first byte of an escaped code point, its bits, and the least code
point that needs so many. -/
def escapedLead? (b : Nat) : Option (Nat × Nat × Nat) :=
  if b < 0xC0 then none
  else if b < 0xE0 then some (1, b % 0x20, 0x80)
  else if b < 0xF0 then some (2, b % 0x10, 0x800)
  else if b < 0xF8 then some (3, b % 8, 0x10000)
  else none

/-- Reads the escapes of a resource name; `n` bounds the number of steps. -/
def decodeUriFrom : Nat → List Nat → Except Failure (List Nat)
  | 0, _ => return []
  | _ + 1, [] => return []
  | n + 1, 37 :: a :: b :: l =>
    match byte? a b with
    | none => throw (.badValue "")
    | some x =>
      if x < 128 then do
        let rest ← decodeUriFrom n l
        return if isReserved x then 37 :: a :: b :: rest else x :: rest
      else
        match escapedLead? x with
        | none => throw (.badValue "")
        | some (count, bits, least) =>
          match continuation? count bits l with
          | none => throw (.badValue "")
          | some (c, l) =>
            if c < least || 0x10FFFF < c || Text.isSurrogate c then throw (.badValue "")
            else if 0x10000 ≤ c then do
              let _ ← decodeUriFrom n l
              throw .notDecodable
            else do
              let rest ← decodeUriFrom n l
              return c :: rest
  | n + 1, c :: l =>
    if c == 37 then throw (.badValue "")
    else do
      let rest ← decodeUriFrom n l
      return c :: rest

def decodeUri (t : Text) : Except Failure Text := do
  let l ← decodeUriFrom (t.length + 1) t.toList
  return Text.ofList l

end ScriptLens.Percent
