import ScriptLens.Grammar.Binding

/-!
# Markup

Markup elements are expressions.  Inside them text is cut into tokens in another way: names may
hold hyphens, strings hold named characters and no escapes, and between tags there is plain text.
-/

namespace ScriptLens

/-- The names of runs of characters, each with the first character of its run. -/
def nameRuns : List (Nat × List String) := [
    (0x22, ["quot"]), (0x26, ["amp", "apos"]), (0x3E, ["gt"]),
    (0xA0, ["nbsp", "iexcl", "cent", "pound", "curren", "yen", "brvbar", "sect", "uml", "copy",
      "ordf", "laquo", "not", "shy", "reg", "macr", "deg", "plusmn", "sup2", "sup3", "acute",
      "micro", "para", "middot", "cedil", "sup1", "ordm", "raquo", "frac14", "frac12", "frac34",
      "iquest", "Agrave", "Aacute", "Acirc", "Atilde", "Auml", "Aring", "AElig", "Ccedil",
      "Egrave", "Eacute", "Ecirc", "Euml", "Igrave", "Iacute", "Icirc", "Iuml", "ETH", "Ntilde",
      "Ograve", "Oacute", "Ocirc", "Otilde", "Ouml", "times", "Oslash", "Ugrave", "Uacute",
      "Ucirc", "Uuml", "Yacute", "THORN", "szlig", "agrave", "aacute", "acirc", "atilde", "auml",
      "aring", "aelig", "ccedil", "egrave", "eacute", "ecirc", "euml", "igrave", "iacute", "icirc",
      "iuml", "eth", "ntilde", "ograve", "oacute", "ocirc", "otilde", "ouml", "divide", "oslash",
      "ugrave", "uacute", "ucirc", "uuml", "yacute", "thorn", "yuml"]),
    (0x152, ["OElig", "oelig"]), (0x160, ["Scaron", "scaron"]), (0x178, ["Yuml"]),
    (0x192, ["fnof"]), (0x2C6, ["circ"]), (0x2DC, ["tilde"]),
    (0x391, ["Alpha", "Beta", "Gamma", "Delta", "Epsilon", "Zeta", "Eta", "Theta", "Iota", "Kappa",
      "Lambda", "Mu", "Nu", "Xi", "Omicron", "Pi", "Rho"]),
    (0x3A3, ["Sigma", "Tau", "Upsilon", "Phi", "Chi", "Psi", "Omega"]),
    (0x3B1, ["alpha", "beta", "gamma", "delta", "epsilon", "zeta", "eta", "theta", "iota", "kappa",
      "lambda", "mu", "nu", "xi", "omicron", "pi", "rho", "sigmaf", "sigma", "tau", "upsilon",
      "phi", "chi", "psi", "omega"]), (0x3D1, ["thetasym", "upsih"]), (0x3D6, ["piv"]),
    (0x2002, ["ensp", "emsp"]), (0x2009, ["thinsp"]), (0x200C, ["zwnj", "zwj", "lrm", "rlm"]),
    (0x2013, ["ndash", "mdash"]), (0x2018, ["lsquo", "rsquo", "sbquo"]),
    (0x201C, ["ldquo", "rdquo", "bdquo"]), (0x2020, ["dagger", "Dagger", "bull"]),
    (0x2026, ["hellip"]), (0x2030, ["permil"]), (0x2032, ["prime", "Prime"]),
    (0x2039, ["lsaquo", "rsaquo"]), (0x203E, ["oline"]), (0x2044, ["frasl"]), (0x20AC, ["euro"]),
    (0x2111, ["image"]), (0x2118, ["weierp"]), (0x211C, ["real"]), (0x2122, ["trade"]),
    (0x2135, ["alefsym"]), (0x2190, ["larr", "uarr", "rarr", "darr", "harr"]), (0x21B5, ["crarr"]),
    (0x21D0, ["lArr", "uArr", "rArr", "dArr", "hArr"]), (0x2200, ["forall"]),
    (0x2202, ["part", "exist"]), (0x2205, ["empty"]), (0x2207, ["nabla", "isin", "notin"]),
    (0x220B, ["ni"]), (0x220F, ["prod"]), (0x2211, ["sum", "minus"]), (0x2217, ["lowast"]),
    (0x221A, ["radic"]), (0x221D, ["prop", "infin"]), (0x2220, ["ang"]),
    (0x2227, ["and", "or", "cap", "cup", "int"]), (0x2234, ["there4"]), (0x223C, ["sim"]),
    (0x2245, ["cong"]), (0x2248, ["asymp"]), (0x2260, ["ne", "equiv"]), (0x2264, ["le", "ge"]),
    (0x2282, ["sub", "sup", "nsub"]), (0x2286, ["sube", "supe"]), (0x2295, ["oplus"]),
    (0x2297, ["otimes"]), (0x22A5, ["perp"]), (0x22C5, ["sdot"]),
    (0x2308, ["lceil", "rceil", "lfloor", "rfloor"]), (0x25CA, ["loz"]), (0x2660, ["spades"]),
    (0x2663, ["clubs"]), (0x2665, ["hearts", "diams"]), (0x27E8, ["lang", "rang"])]

def namedCharacters : List (String × Nat) := nameRuns.flatMap fun (first, names) => names.zipIdx first

def namedCharacter? (name : Text) : Option Nat := namedCharacters.lookup name.toString

namespace Scan

structure Reference where
  text : Text := "&"
  valid : Bool := true
  terminated : Bool := false
  decimal : Bool := false
  hex : Bool := false

def Reference.push (r : Reference) (c : Nat) : Reference :=
  let text := r.text.push c
  if c == ';'.toNat then { r with text, terminated := true }
  else if text.length == 2 then { r with text, decimal := c == '#'.toNat }
  else if text.length == 3 then
    if r.decimal then
      let hex := c == 'x'.toNat
      { r with text, hex, valid := hex || Text.isDecimalDigit c, decimal := !hex }
    else { r with text }
  else
    { r with
      text
      valid := r.valid && !(r.decimal && !Text.isDecimalDigit c) && !(r.hex && !Text.isHexDigit c) }

def referenceRest (quote : Nat) (r : Reference) : Nat → Scan Reference
  | 0 => return r
  | n + 1 => do
    if (← atEnd) || !r.valid || r.terminated then return r
    let c ← here
    if c == quote then return r
    skip 1
    referenceRest quote (r.push c) n

def characterOf (code : Nat) : Except Failure Text :=
  if code ≤ 0x10FFFF then .ok (.singleton code)
  else if code < Nat.pow 2 31 then .error (.badValue "")
  else .error .tooLarge

/-- What a reference stands for; one that means nothing stands for itself. -/
def Reference.value (r : Reference) : Except Failure Text :=
  if r.valid && r.terminated && 2 < r.text.length then
    let name := r.text.extract 1 (r.text.length - 1)
    let digits (base k : Nat) : Nat :=
      (name.drop k).toList.foldl (fun n c => n * base + (Text.hexValue? c).getD 0) 0
    if r.decimal && 1 < name.length then characterOf (digits 10 1)
    else if r.hex && 2 < name.length then characterOf (digits 16 2)
    else if !r.decimal && !r.hex then .ok ((namedCharacter? name).elim r.text Text.singleton)
    else .ok r.text
  else .ok r.text

def reference (quote : Nat) : Scan Text := do
  match (← referenceRest quote {} ((← size) + 1)).value with
  | .ok t => return t
  | .error f => throw f

def markupStringRest (quote : Nat) (acc : Text) : Nat → Scan Text
  | 0 => return acc
  | n + 1 => do
    if ← atEnd then return acc
    let c ← take
    if c == quote then return acc
    else if c == '&'.toNat then markupStringRest quote (acc ++ (← reference quote)) n
    else markupStringRest quote (acc.push c) n

def markupToken : Scan Token := do
  let c ← here
  let start := (← get).index
  if [60, 62, 47, 58, 61, 123, 125].contains c then
    skip 1
    token .punctuator (.text (.singleton c)) start
  else if c == 39 || c == 34 then
    skip 1
    let t ← markupStringRest c "" ((← size) + 1)
    token .quoted (.text t) start
  else if c == '.'.toNat then
    let dots : Text := if ← looksAt 0 "..." then "..." else "."
    skip dots.length
    token .punctuator (.text dots) start
  else if c == '`'.toNat then token .template (.text "") start
  else if Text.isIdentifierStart c && c != 92 then
    skip 1
    let _ ← takeRun fun c => (Text.isIdentifierPart c && c != 92) || c == '-'.toNat
    let t := (← read).text.extract start (← get).index
    token .markupName (.text t) start
  else lex

/-- The text up to the next tag or substitution; a carriage return hides the line feed after it. -/
def markupTextRest (acc : Text) : Nat → Scan Text
  | 0 => return acc
  | n + 1 => do
    let c ← here
    if (← atEnd) || c == 123 || c == 60 then return acc
    if Text.isLineTerminator c then breakLine else skip 1
    markupTextRest (acc.push c) n

end Scan

namespace Parse

abbrev nextInTag : Parse Token := do
  skipComments
  setStart (← scanMark)
  let t ← scan Scan.markupToken
  setLast (← scanMark)
  keepToken t
  return t

abbrev nextText : Parse Token := do
  let m ← scanMark
  setStart m
  let text ← scan (do Scan.markupTextRest "" ((← Scan.size) + 1))
  setLast (← scanMark)
  let t ← scan (Scan.token .markupText (.text text) m.index)
  if !text.isEmpty then keepToken t
  return t

abbrev peekInTag : Parse Token := glance Scan.markupToken

abbrev expectInTag (v : Text) : Parse Unit := do
  let t ← nextInTag
  if !t.isPunctuator v then failAt t

abbrev seesInTag (v : Text) : Parse Bool := do return (← peekInTag).isPunctuator v

/-- Returns the scanner to the token ahead. -/
abbrev enterMarkup : Parse Unit := do
  let m ← mark
  modify fun p => { p with
    cursor := { p.cursor with index := m.index, line := m.line, lineStart := m.index - m.column } }

abbrev leaveMarkup : Parse Unit := do
  let _ ← advance

/-- Returns to markup after an expression between braces. -/
abbrev reenterMarkup : Parse Unit := do
  enterMarkup
  expectInTag "\x7d"
  dropToken

abbrev tagMark : Parse Mark := do
  skipComments
  scanMark

abbrev markupName : Parse Tree := do
  let m ← tagMark
  let t ← nextInTag
  if t.kind != .markupName then failAt t
  finish m .markupIdentifier [(.name, ofScalar t.value)]

def elementMembers (m : Mark) (t : Tree) : Nat → Parse Tree
  | 0 => throw .unfinished
  | n + 1 => do
    if ← seesInTag "." then
      expectInTag "."
      let property ← markupName
      elementMembers m
        (← finish m .markupMemberExpression [(.object, t), (.property, property)]) n
    else return t

abbrev namespacedName (m : Mark) (space : Tree) : Parse Tree := do
  expectInTag ":"
  let name ← markupName
  finish m .markupNamespacedName [(.space, space), (.name, name)]

abbrev elementName : Parse Tree := do
  let m ← tagMark
  let t ← markupName
  if ← seesInTag ":" then namespacedName m t
  else elementMembers m t (← size)

abbrev attributeName : Parse Tree := do
  let m ← tagMark
  let t ← markupName
  if ← seesInTag ":" then namespacedName m t else return t

abbrev attributeExpression (r : Productions) : Parse Tree := do
  let m ← tagMark
  expectInTag "\x7b"
  leaveMarkup
  if ← sees "\x7d" then tolerate .emptyAttribute
  let e ← r.assignment
  reenterMarkup
  finish m .markupExpressionContainer [(.expression, e)]

abbrev attributeString : Parse Tree := do
  let m ← tagMark
  let t ← nextInTag
  if t.kind != .quoted then failAt t
  literal m t

abbrev attributeValue (r : Productions) : Parse Tree := do
  if ← seesInTag "\x7b" then attributeExpression r
  else if ← seesInTag "<" then r.element
  else attributeString

def tagAttribute (r : Productions) : Parse Tree := do
  if ← seesInTag "\x7b" then
    let m ← tagMark
    expectInTag "\x7b"
    expectInTag "..."
    leaveMarkup
    let e ← r.assignment
    reenterMarkup
    finish m .markupSpreadAttribute [(.argument, e)]
  else
    let m ← tagMark
    let name ← attributeName
    let value ← if ← seesInTag "=" then (do
        expectInTag "="
        attributeValue r)
      else pure .null
    finish m .markupAttribute [(.name, name), (.value, value)]

abbrev openingRest (r : Productions) (m : Mark) : Parse Tree := do
  let name ← elementName
  let more : Parse Bool := do return !(← peekInTag).isOneOf .punctuator ["/", ">"]
  let attributes ← collectWhile more (tagAttribute r) #[] (← size)
  let selfClosing ← seesInTag "/"
  if selfClosing then expectInTag "/"
  expectInTag ">"
  finish m .markupOpeningElement
    [(.name, name), (.selfClosing, selfClosing), (.attributes, .ofArray attributes)]

abbrev openingTag (r : Productions) : Parse Tree := do
  let m ← tagMark
  expectInTag "<"
  openingRest r m

abbrev tag (r : Productions) : Parse Tree := do
  let m ← tagMark
  expectInTag "<"
  if ← seesInTag "/" then
    expectInTag "/"
    let name ← elementName
    expectInTag ">"
    finish m .markupClosingElement [(.name, name)]
  else openingRest r m

/-- An expression between braces, among the children of an element. -/
abbrev container (r : Productions) : Parse Tree := do
  let m ← tagMark
  expectInTag "\x7b"
  if ← seesInTag "\x7d" then
    let inner ← scanMark
    skipComments
    setLast (← scanMark)
    let e ← finish inner .markupEmptyExpression []
    expectInTag "\x7d"
    finish m .markupExpressionContainer [(.expression, e)]
  else
    leaveMarkup
    let e ← r.assignment
    reenterMarkup
    finish m .markupExpressionContainer [(.expression, e)]

def childrenRest (r : Productions) (acc : Array Tree) : Nat → Parse (Array Tree)
  | 0 => throw .unfinished
  | n + 1 => do
    if ← scan Scan.atEnd then return acc
    let m ← scanMark
    let t ← nextText
    let mut acc := acc
    if t.start < t.stop then
      acc := acc.push (← finish m .markupText [(.value, ofScalar t.value), (.raw, ← raw t)])
    if (← scan Scan.here) == 123 then childrenRest r (acc.push (← container r)) n
    else return acc

mutual

def fullName : Tree → Text
  | .text t => t
  | .node _ _ as => fullNameOf as
  | _ => ""

def fullNameOf : List (Attr × Tree) → Text
  | [] => ""
  | (a, t) :: r =>
    match a with
    | .space => fullName t ++ (":" : Text) ++ fullNameOf r
    | .object => fullName t ++ ("." : Text) ++ fullNameOf r
    | .name | .property => fullName t
    | _ => fullNameOf r

end

structure OpenElement where
  mark : Mark
  opening : Tree
  closing : Tree := .null
  children : Array Tree := #[]

def OpenElement.complete (e : OpenElement) : Parse Tree :=
  finish e.mark .markupElement
    [(.openingElement, e.opening), (.children, .ofArray e.children), (.closingElement, e.closing)]

def elementRest (r : Productions) (e : OpenElement) (outer : List OpenElement) :
    Nat → Parse OpenElement
  | 0 => throw .unfinished
  | n + 1 => do
    if ← scan Scan.atEnd then return e
    let e := { e with children := e.children ++ (← childrenRest r #[] (← size)) }
    let m ← scanMark
    let t ← tag r
    if t.kind == .markupOpeningElement then
      if (t.get .selfClosing).isTrue then
        let child ← OpenElement.complete { mark := m, opening := t }
        elementRest r { e with children := e.children.push child } outer n
      else elementRest r { mark := m, opening := t } (e :: outer) n
    else
      let e := { e with closing := t }
      let name := fullName (e.opening.get .name)
      if name != fullName (t.get .name) then tolerate (.closingTag name)
      match outer with
      | [] => return e
      | o :: outer =>
        let child ← e.complete
        elementRest r { o with children := o.children.push child } outer n

def element (r : Productions) : Parse Tree := do
  let m ← tagMark
  let opening ← openingTag r
  if (opening.get .selfClosing).isTrue then OpenElement.complete { mark := m, opening }
  else
    let e ← elementRest r { mark := m, opening } [] (← size)
    OpenElement.complete { e with mark := m, opening }

abbrev rootElement (r : Productions) : Parse Tree := do
  dropToken
  enterMarkup
  let t ← element r
  leaveMarkup
  return t

end Parse

end ScriptLens
