import StackUnwind.Trace

/-!
The command `unwind-trace`: prints what a host is asked for when the unit described by the
arguments is compiled.
-/

namespace StackUnwind

/-- The environment variable that asks for fake procedure splitting. -/
def settingsVariable : String := "TPDE_FAKE_PROCEDURE_SPLITTING"

end StackUnwind

open StackUnwind in
def main (arguments : List String) : IO UInt32 := do
  let outcome := RunOutcome.ofArguments arguments (← IO.getEnv settingsVariable)
  IO.print outcome.output
  IO.eprint outcome.complaint
  return outcome.exitCode.toUInt32
