import ScriptLens.CommandLine.Words
import ScriptLens.Grammar.Program
import ScriptLens.Tree.Data

/-!
# The command that parses programs

Its switches say what is kept of the source; it takes one file.  `ParseCommand.document` is what it
writes: the syntax tree or the tokens of the source, or what is wrong with it.
-/

namespace ScriptLens

def Place.toData (p : Place) : Data :=
  .object [("line", .int p.line), ("column", .int p.column)]

/-- A token as plain data, with its range and its location if they are asked for. -/
def StreamEntry.toData (range loc : Bool) (e : StreamEntry) : Data :=
  let regexp := match e.regexp with
    | some (p, f) => [("regex", Data.object [("pattern", .text p), ("flags", .text f)])]
    | none => []
  let range := if range then [("range", Data.list [.int e.start, .int e.stop])] else []
  let loc :=
    if loc then [("loc", Data.object [("start", e.first.toData), ("end", e.last.toData)])] else []
  .object ([("type", .text e.typeName), ("value", .text e.value)] ++ regexp ++ range ++ loc)

def Diagnostic.toData (d : Diagnostic) : Data :=
  .object [("message", .text (Text.ofString "Error: " ++ d.message)), ("index", .int d.index),
    ("lineNumber", .int d.line), ("column", .int d.column)]

namespace Data

mutual

def hasRegexp : Data → Bool
  | regexp _ => true
  | list l => anyRegexp l
  | object l => anyField l
  | _ => false

def anyRegexp : List Data → Bool
  | [] => false
  | d :: l => hasRegexp d || anyRegexp l

def anyField : List (String × Data) → Bool
  | [] => false
  | (_, d) :: l => hasRegexp d || anyField l

end

end Data

namespace CommandLine

def parseSwitches : List Switch :=
  [help, ⟨"--version", false, true⟩, ⟨"--comment", false, false⟩, ⟨"--attachComment", false, false⟩,
   ⟨"--loc", false, false⟩, ⟨"--range", false, false⟩, ⟨"--raw", false, false⟩,
   ⟨"--tokens", false, false⟩, ⟨"--tolerant", false, false⟩, ⟨"--tokenize", false, false⟩,
   ⟨"--module", false, false⟩]

structure ParseCommand where
  requests : List Request
  file : Text

def readParse (words : List Text) : Except Failure ParseCommand := do
  let l ← readStrictly parseSwitches words
  match plainWords l with
  | [file] => return ⟨l, file⟩
  | _ => throw .missingPart

namespace ParseCommand

def settings (c : ParseCommand) (source : Text) : Settings :=
  let asks (name : Text) : Bool := asksFor c.requests name
  { source :=
      { text := source, tolerant := asks "--tolerant"
        keepComments := asks "--comment" || (asks "--attachComment" && !asks "--tokenize") }
    range := asks "--range"
    loc := asks "--loc"
    tokens := asks "--tokens"
    comment := asks "--comment"
    attachComment := asks "--attachComment"
    markup := true
    classFields := true }

def contents (c : ParseCommand) (source : Text) : Except Failure Data := do
  let s := c.settings source
  if asksFor c.requests "--tokenize" then
    let r ← tokenize s.source
    return .list (r.entries.toList.map (StreamEntry.toData s.range s.loc))
  else
    let r ← parseProgram s (asksFor c.requests "--module") 1
    return r.tree.toData

/-- What the command writes for a source; regular expressions cannot be written. -/
def document (c : ParseCommand) (source : Text) : Except Failure Data :=
  match c.contents source with
  | .ok d => if d.hasRegexp then throw .wrongKind else return d
  | .error (.source d) => return d.toData
  | .error f => throw f

end ParseCommand

end CommandLine

end ScriptLens
