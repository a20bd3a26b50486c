import ScriptLens.Draft.Path
import ScriptLens.Main
import ScriptLens.Proofs.Annotation.Covered
import ScriptLens.Proofs.Builtin.Split
import ScriptLens.Proofs.Continue.Loop
import ScriptLens.Proofs.Draft.Alike
import ScriptLens.Proofs.Draft.Copy
import ScriptLens.Proofs.Evaluation.Repeated
import ScriptLens.Proofs.Grammar.Peek
import ScriptLens.Proofs.Grammar.Precedence
import ScriptLens.Proofs.Object.Literal
import ScriptLens.Proofs.Operator.Convert
import ScriptLens.Proofs.Pass.Useless
import ScriptLens.Proofs.Purity.Call
import ScriptLens.Proofs.Recursion.Retry
import ScriptLens.Proofs.Rename.Consistent
import ScriptLens.Proofs.Scan.Numeral
import ScriptLens.Proofs.Scan.Stray
import ScriptLens.Proofs.Scope.Entry
import ScriptLens.Proofs.Scope.Restored
import ScriptLens.Proofs.SideEffects.Idle
import ScriptLens.Proofs.State.Laws
import ScriptLens.Proofs.State.Unlink
import ScriptLens.Proofs.Target.First
import ScriptLens.Proofs.Value.Describes
import ScriptLens.Proofs.Value.Settled
import ScriptLens.Proofs.While.Program
