/-!
Trace messages.
-/

namespace StackUnwind

/-- How much detail has to be wanted for a message to be shown. -/
inductive Level where
  | trace
  | debug
  deriving DecidableEq, Repr

namespace Level

def name : Level → String
  | trace => "TRACE"
  | debug => "DEBUG"

end Level

/-- A trace message. -/
structure Message where
  level : Level
  text : String
  deriving DecidableEq, Repr

namespace Message

/-- The line that shows a message. -/
def line (m : Message) : String := s!"{m.level.name} {m.text}"

end Message

end StackUnwind
