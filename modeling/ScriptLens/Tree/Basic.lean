import ScriptLens.Number.Double
import ScriptLens.Pattern.Basic
import ScriptLens.Tree.Kind

/-!
# Syntax trees

A syntax tree is a value: nothing, a truth value, a number, a text, a regular expression, a list of
trees, or a node.
-/

namespace ScriptLens

inductive Attr where
  | elements
  | generator
  | isAsync
  | params
  | body
  | expression
  | operator
  | left
  | right
  | id
  | argument
  | label
  | callee
  | arguments
  | param
  | superClass
  | computed
  | object
  | property
  | test
  | consequent
  | alternate
  | directive
  | source
  | declaration
  | specifiers
  | exported
  | localName
  | isEach
  | initial
  | update
  | name
  | imported
  | value
  | raw
  | metaName
  | key
  | kind
  | isStatic
  | sourceType
  | properties
  | method
  | shorthand
  | regex
  | expressions
  | discriminant
  | cases
  | tag
  | quasi
  | tail
  | quasis
  | block
  | handler
  | finalizer
  | isBefore
  | declarations
  | delegate
  | openingElement
  | children
  | closingElement
  | space
  | selfClosing
  | attributes
  | span
  | location
  | start
  | finish
  | line
  | column
  | offset
  | pattern
  | flags
  | cooked
  | innerComments
  | leadingComments
  | trailingComments
  | comments
  | tokens
  | errors
  | message
  | index
  | lineNumber
  | typeName
  | serial
  | isLive
  | isUsed
  | isPure
  | closure
  | isSeen
  | site
deriving DecidableEq, Hashable

namespace Attr

def shownName : Attr → String
  | .elements => "elements"
  | .generator => "generator"
  | .isAsync => "isAsync"
  | .params => "params"
  | .body => "body"
  | .expression => "expression"
  | .operator => "operator"
  | .left => "left"
  | .right => "right"
  | .id => "id"
  | .argument => "argument"
  | .label => "label"
  | .callee => "callee"
  | .arguments => "arguments"
  | .param => "param"
  | .superClass => "superClass"
  | .computed => "computed"
  | .object => "object"
  | .property => "property"
  | .test => "test"
  | .consequent => "consequent"
  | .alternate => "alternate"
  | .directive => "directive"
  | .source => "source"
  | .declaration => "declaration"
  | .specifiers => "specifiers"
  | .exported => "exported"
  | .localName => "local"
  | .isEach => "each"
  | .initial => "init"
  | .update => "update"
  | .name => "name"
  | .imported => "imported"
  | .value => "value"
  | .raw => "raw"
  | .metaName => "meta"
  | .key => "key"
  | .kind => "kind"
  | .isStatic => "static"
  | .sourceType => "sourceType"
  | .properties => "properties"
  | .method => "method"
  | .shorthand => "shorthand"
  | .regex => "regex"
  | .expressions => "expressions"
  | .discriminant => "discriminant"
  | .cases => "cases"
  | .tag => "tag"
  | .quasi => "quasi"
  | .tail => "tail"
  | .quasis => "quasis"
  | .block => "block"
  | .handler => "handler"
  | .finalizer => "finalizer"
  | .isBefore => "prefix"
  | .declarations => "declarations"
  | .delegate => "delegate"
  | .openingElement => "openingElement"
  | .children => "children"
  | .closingElement => "closingElement"
  | .space => "namespace"
  | .selfClosing => "selfClosing"
  | .attributes => "attributes"
  | .span => "range"
  | .location => "loc"
  | .start => "start"
  | .finish => "end"
  | .line => "line"
  | .column => "column"
  | .offset => "offset"
  | .pattern => "pattern"
  | .flags => "flags"
  | .cooked => "cooked"
  | .innerComments => "innerComments"
  | .leadingComments => "leadingComments"
  | .trailingComments => "trailingComments"
  | .comments => "comments"
  | .tokens => "tokens"
  | .errors => "errors"
  | .message => "message"
  | .index => "index"
  | .lineNumber => "lineNumber"
  | .typeName => "type"
  | .serial => "node_id"
  | .isLive => "live"
  | .isUsed => "used"
  | .isPure => "pure"
  | .closure => "closure"
  | .isSeen => "seen"
  | .site => "site"

def all : List Attr := [
    .elements, .generator, .isAsync, .params, .body, .expression, .operator, .left, .right, .id,
    .argument, .label, .callee, .arguments, .param, .superClass, .computed, .object, .property,
    .test, .consequent, .alternate, .directive, .source, .declaration, .specifiers, .exported,
    .localName, .isEach, .initial, .update, .name, .imported, .value, .raw, .metaName, .key,
    .kind, .isStatic, .sourceType, .properties, .method, .shorthand, .regex, .expressions,
    .discriminant, .cases, .tag, .quasi, .tail, .quasis, .block, .handler, .finalizer,
    .isBefore, .declarations, .delegate, .openingElement, .children, .closingElement, .space,
    .selfClosing, .attributes, .span, .location, .start, .finish, .line, .column, .offset,
    .pattern, .flags, .cooked, .innerComments, .leadingComments, .trailingComments, .comments,
    .tokens, .errors, .message, .index, .lineNumber, .typeName, .serial, .isLive, .isUsed,
    .isPure, .closure, .isSeen, .site]

def ofName? (s : String) : Option Attr := all.find? fun a => a.shownName == s

end Attr

inductive Tree where
  | null
  | flag (b : Bool)
  | int (n : Int)
  | real (x : Double)
  | text (t : Text)
  | regexp (r : Regexp)
  | list (items : List Tree)
  | node (ref : Nat) (kind : Kind) (attrs : List (Attr × Tree))

namespace Tree

instance : Coe Bool Tree := ⟨flag⟩
instance : Coe Text Tree := ⟨text⟩
instance : Coe String Tree := ⟨fun s => text s⟩

def ref : Tree → Nat
  | node r _ _ => r
  | _ => 0

def kind : Tree → Kind
  | node _ k _ => k
  | _ => .record

def attrs : Tree → List (Attr × Tree)
  | node _ _ as => as
  | _ => []

def get (t : Tree) (a : Attr) : Tree := (t.attrs.lookup a).getD null

def has (t : Tree) (a : Attr) : Bool := (t.attrs.lookup a).isSome

def isNull : Tree → Bool
  | null => true
  | _ => false

def isNode : Tree → Bool
  | node _ k _ => k.isNode
  | _ => false

def items : Tree → List Tree
  | list l => l
  | _ => []

def isTrue : Tree → Bool
  | flag b => b
  | _ => false

def text? : Tree → Option Text
  | text t => some t
  | _ => none

def isText (t : Tree) (s : Text) : Bool := t.text? == some s

def replaceAttr (a : Attr) (v : Tree) : List (Attr × Tree) → List (Attr × Tree)
  | [] => []
  | (b, w) :: r => if a == b then (a, v) :: r else (b, w) :: replaceAttr a v r

def putAttr (a : Attr) (v : Tree) (as : List (Attr × Tree)) : List (Attr × Tree) :=
  if (as.lookup a).isSome then replaceAttr a v as else as ++ [(a, v)]

def put (t : Tree) (a : Attr) (v : Tree) : Tree :=
  match t with
  | node r k as => node r k (putAttr a v as)
  | t => t

def erase (t : Tree) (a : Attr) : Tree :=
  match t with
  | node r k as => node r k (as.filter fun p => p.1 != a)
  | t => t

def withKind (t : Tree) (k : Kind) : Tree :=
  match t with
  | node r _ as => node r k as
  | t => t

def ofArray (xs : Array Tree) : Tree := list xs.toList

end Tree

end ScriptLens
