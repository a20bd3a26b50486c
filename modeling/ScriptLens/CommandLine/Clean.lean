import ScriptLens.CommandLine.Words
import ScriptLens.Pass.Plan

/-!
# The command that cleans programs up

Its switches turn the parts of a plan off, or say how they are done.  It takes two files.
-/

namespace ScriptLens.CommandLine

def cleanSwitches : List Switch :=
  [help, ⟨"--no-simplify-expr", false, false⟩, ⟨"--no-simplify-calls", false, false⟩,
   ⟨"--no-simplify-flow", false, false⟩, ⟨"--no-remove-dead-code", false, false⟩,
   ⟨"--no-eval-handling", false, false⟩, ⟨"--no-rename-variable", false, false⟩,
   ⟨"--no-constant-member-rewrite", false, false⟩, ⟨"--no-remove-dead-variables", false, false⟩,
   ⟨"--no-remove-useless-statements", false, false⟩, ⟨"--debug-dead-variables", false, false⟩,
   ⟨"--pure", true, false⟩, ⟨"--simplify-undef", false, false⟩,
   ⟨"--always-unroll", false, false⟩]

def planOf (l : List Request) : Plan :=
  { manner :=
      { pures := match valueOf? l "--pure" with
          | some names => names.splitOn ","
          | none => []
        ignoreUndefined := asksFor l "--simplify-undef"
        onlyComment := asksFor l "--debug-dead-variables"
        alwaysUnroll := asksFor l "--always-unroll" }
    handlesEvaluated := !asksFor l "--no-eval-handling"
    removesDeadBlocks := !asksFor l "--no-remove-dead-code"
    simplifies := !asksFor l "--no-simplify-expr"
    removesVariables := !asksFor l "--no-remove-dead-variables"
    removesStatements := !asksFor l "--no-remove-useless-statements"
    rewritesMembers := !asksFor l "--no-constant-member-rewrite"
    unrolls := !asksFor l "--no-simplify-flow"
    inlines := !asksFor l "--no-simplify-calls"
    renames := !asksFor l "--no-rename-variable" }

/-- The plan that a command line with two files asks for, and the files. -/
def readClean (words : List Text) : Except Failure (Plan × Text × Text) := do
  let l ← readPatiently cleanSwitches words
  match plainWords l with
  | [input, output] => return (planOf l, input, output)
  | _ => throw (.exit 2)

end ScriptLens.CommandLine
