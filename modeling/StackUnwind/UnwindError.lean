import StackUnwind.FunctionSet
import StackUnwind.Prolog.Instruction

/-!
Errors of reservation and commitment, which the caller is told about.
-/

namespace StackUnwind

/-- An error of reservation or commitment. -/
inductive UnwindError where
  /-- The host refused to reserve storage. -/
  | reserveRefused (reason : String)
  /-- The host refused to store a record. -/
  | commitRefused (reason : String)
  /-- A location was never placed. -/
  | unresolved (location : Location)
  /-- A prolog has no unwind record. -/
  | record (cause : RecordError)
  /-- The functions do not make up a unit. -/
  | functionSet (defect : SetDefect)
  deriving DecidableEq, Repr

namespace UnwindError

def message : UnwindError → String
  | reserveRefused reason => s!"Host failed to reserve unwind info: {reason}"
  | commitRefused reason => s!"Host failed to commit unwind info: {reason}"
  | unresolved location => s!"Code location CodeLocation({location.id}) has no final offset"
  | record cause => s!"Unwind encoding failed: {cause.message}"
  | functionSet defect => s!"Invalid function/funclet set: {defect.message}"

end UnwindError

end StackUnwind
