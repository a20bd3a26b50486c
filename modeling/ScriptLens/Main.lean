import ScriptLens.Cleanup
import ScriptLens.CommandLine.Clean
import ScriptLens.CommandLine.Parse
import ScriptLens.Json.Text

/-!
# The program

The first word of the command line is the command, `clean` or `parse`; the other words are its own.
-/

namespace ScriptLens

def Failure.message : Failure → Text
  | source d => d.message
  | missingPart => "a value has no such part"
  | missingEntry => "a table has no such entry"
  | missingItem => "a position lies outside a sequence"
  | missingName m => Text.ofString "a name stands for nothing " ++ m
  | wrongKind => "a value is of the wrong kind"
  | badValue m => Text.ofString "a value is outside the domain of an operation " ++ m
  | tooLarge => "a number is too large"
  | dividedByZero => "a number is divided by zero"
  | notConvertible => "a value cannot be handed to an operator"
  | notEncodable => "a text holds surrogates"
  | notDecodable => "bytes are not the encoding of a text"
  | badBase64 => "bytes are not written in base 64"
  | badPattern => "a regular expression is malformed"
  | broken m => Text.ofString "a condition does not hold " ++ m
  | exit code => Text.ofString "exit " ++ Decimal.natText code
  | unfinished => "the computation was cut off"

def Failure.exitCode : Failure → Nat
  | exit code => code
  | _ => 1

def Tally.report (title : Text) (t : Tally) : Text :=
  title ++ Decimal.natText t.done ++ Text.ofString " / " ++ Decimal.natText t.all

def Stats.report (s : Stats) : List Text :=
  ["Statistics:",
   s.expressions.report "Simplified expressions:  ",
   s.calls.report "Inlined function calls :  ",
   s.loops.report "Loops Unrolled:  ",
   s.statements.report "Effect-less statements removed:  ",
   s.definitions.report "Unused variables assignment or declaration removed:  ",
   s.blocks.report "Unreachable blocks removed:  ",
   s.evals.report "Eval or Function Constructor processed:  "]

def fail (f : Failure) : IO UInt32 := do
  (← IO.getStderr).putStrLn f.message.toString
  return f.exitCode.toUInt32

def runClean (words : List Text) : IO UInt32 := do
  match CommandLine.readClean words with
  | .error f => fail f
  | .ok (plan, input, output) =>
    let source ← IO.FS.readFile input.toString
    match cleanUp {} plan source with
    | .error (_, f) => fail f
    | .ok c =>
      IO.FS.writeFile output.toString c.data.json.toString
      for line in c.stats.report do
        IO.println line.toString
      return 0

def runParse (words : List Text) : IO UInt32 := do
  match CommandLine.readParse words with
  | .error f => fail f
  | .ok c =>
    let source ← IO.FS.readFile c.file.toString
    match c.document source with
    | .error f => fail f
    | .ok d =>
      IO.println d.prettyJson.toString
      return 0

end ScriptLens

def main (words : List String) : IO UInt32 :=
  match words with
  | "clean" :: rest => ScriptLens.runClean (rest.map ScriptLens.Text.ofString)
  | "parse" :: rest => ScriptLens.runParse (rest.map ScriptLens.Text.ofString)
  | _ => ScriptLens.fail (.exit 2)
