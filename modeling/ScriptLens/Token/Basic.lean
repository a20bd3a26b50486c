import ScriptLens.Number.Decimal
import ScriptLens.Pattern.Basic

/-!
# Tokens

The lexical elements of a source text, and the words that are reserved in it.
-/

namespace ScriptLens

inductive TokenKind where
  | boolean
  | finish
  | identifier
  | keyword
  | null
  | numeric
  | punctuator
  | quoted
  | regexp
  | template
  | markupName
  | markupText
deriving DecidableEq

def TokenKind.name : TokenKind → String
  | .boolean => "Boolean"
  | .finish => "<end>"
  | .identifier => "Identifier"
  | .keyword => "Keyword"
  | .null => "Null"
  | .numeric => "Numeric"
  | .punctuator => "Punctuator"
  | .quoted => "String"
  | .regexp => "RegularExpression"
  | .template => "Template"
  | .markupName => "JSXIdentifier"
  | .markupText => "JSXText"

/-- The value of a token: a text, or a number for numeric literals. -/
inductive Scalar where
  | text (t : Text)
  | int (n : Int)
  | real (x : Double)
deriving DecidableEq

namespace Scalar

def isText : Scalar → Text → Bool
  | text t, s => t == s
  | _, _ => false

def shown : Scalar → Text
  | text t => t
  | int n => Decimal.intText n
  | real x => x.toReport

def isPresent : Scalar → Bool
  | text t => !t.isEmpty
  | int n => n != 0
  | real x => !x.isZero

end Scalar

structure Token where
  kind : TokenKind
  value : Scalar
  /-- Whether a number or string is written with a legacy octal escape. -/
  octal : Bool := false
  cooked : Text := ""
  head : Bool := false
  tail : Bool := false
  pattern : Text := ""
  flags : Text := ""
  regexp : Option Regexp := none
  line : Nat
  lineStart : Int
  start : Nat
  stop : Nat
deriving DecidableEq

namespace Token

def isOneOf (t : Token) (k : TokenKind) (values : List Text) : Bool :=
  t.kind == k && values.any t.value.isText

def isPunctuator (t : Token) (v : Text) : Bool := t.kind == .punctuator && t.value.isText v

def isKeyword (t : Token) (v : Text) : Bool := t.kind == .keyword && t.value.isText v

def isWord (t : Token) (v : Text) : Bool := t.kind == .identifier && t.value.isText v

end Token

def futureReservedWords : List Text := ["enum", "export", "import", "super"]

def strictReservedWords : List Text :=
  ["implements", "interface", "package", "private", "protected", "public", "static", "yield", "let"]

def restrictedWords : List Text := ["eval", "arguments"]

def keywords : List Text := List.map Text.ofString
  ["if", "in", "do", "var", "for", "new", "try", "let", "this", "else", "case", "void", "with",
    "enum", "while", "break", "catch", "throw", "const", "yield", "class", "super", "return",
    "typeof", "delete", "switch", "export", "import", "default", "finally", "extends", "function",
    "continue", "debugger", "instanceof"]

end ScriptLens
