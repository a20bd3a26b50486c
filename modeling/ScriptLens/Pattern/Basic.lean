import ScriptLens.Text.Basic

/-!
# Regular expressions

A `Regexp` is a regular expression as written, with its flag; an `Expr` is what it means.
-/

namespace ScriptLens

/-- The flag of a regular expression: at most one of "ignore case" and "many lines" is in force. -/
inductive RegexpFlag where
  | plain
  | ignoreCase
  | multiline
deriving DecidableEq, Hashable

/-- A regular expression as written. -/
structure Regexp where
  pattern : Text
  flag : RegexpFlag
deriving DecidableEq

namespace Pattern

inductive Fault where
  | malformed
  | countTooLarge
deriving DecidableEq

inductive Member where
  | one (c : Nat)
  | range (low high : Nat)
  | digit (positive : Bool)
  | space (positive : Bool)
  | word (positive : Bool)
deriving DecidableEq

structure Mode where
  ignoreCase : Bool := false
  multiline : Bool := false
  dotAll : Bool := false
  ascii : Bool := false
  verbose : Bool := false
deriving DecidableEq

inductive Greed where
  | greedy
  | lazy
  | possessive
deriving DecidableEq

inductive Expr where
  | char (mode : Mode) (c : Nat)
  | any (mode : Mode)
  | set (mode : Mode) (positive : Bool) (members : List Member)
  | lineStart (mode : Mode)
  | lineEnd (mode : Mode)
  | textStart
  | textEnd
  | boundary (mode : Mode) (positive : Bool)
  | seq (items : List Expr)
  | alt (branches : List Expr)
  | repeated (min : Nat) (max : Option Nat) (greed : Greed) (item : Expr) (last : Option Nat)
  | group (index : Nat) (item : Expr)
  | plain (item : Expr)
  | atomic (item : Expr)
  | look (back : Option Nat) (positive : Bool) (item : Expr)
  | same (mode : Mode) (index : Nat)
  | ifGroup (index : Nat) (yes no : Expr)

/-- A pattern that has been read: its meaning, the number of its groups and their names. -/
structure Compiled where
  expr : Expr
  groups : Nat
  names : List (Text × Nat)

end Pattern

end ScriptLens
