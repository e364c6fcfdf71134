import StackUnwind.Recorder

/-!
Order of brackets. A tracker passes events on to a recorder and enforces their grammar: one
prolog, then any number of epilogs, and operations only inside of either.
-/

namespace StackUnwind

namespace Phase

/-- The phase that an event leads to, if it may happen. -/
def advance : Phase → FrameEvent → Except Fault Phase
  | beforeProlog, .beginProlog => .ok inProlog
  | _, .beginProlog => .error .prologRepeated
  | inProlog, .endProlog => .ok body
  | _, .endProlog => .error .prologNotOpen
  | body, .beginEpilog => .ok inEpilog
  | _, .beginEpilog => .error .epilogOutsideBody
  | inEpilog, .endEpilog => .ok body
  | _, .endEpilog => .error .epilogNotOpen
  | phase, .op op =>
    if phase.isBracket then .ok phase else .error (.opOutsideBracket op phase)

end Phase

/-- A recorder with the phase its function is in. -/
structure Tracker where
  recorder : Recorder
  phase : Phase := .beforeProlog
  /-- The number of finished epilogs. -/
  epilogs : UInt32 := 0
  deriving DecidableEq, Repr

namespace Tracker

/-- A tracker at the start of a function. -/
def fresh (arch : Arch) : Tracker := { recorder := .fresh arch }

def inProlog (t : Tracker) : Bool := t.phase == .inProlog

def inEpilog (t : Tracker) : Bool := t.phase == .inEpilog

/-- The number of finished epilogs after an event. -/
def epilogsAfter (t : Tracker) : FrameEvent → Except Fault UInt32
  | .endEpilog => word32 .add (t.epilogs.toNat + 1)
  | .beginProlog | .endProlog | .beginEpilog | .op _ => .ok t.epilogs

instance : FrameRecorder Tracker where
  record event := do
    let phase ← (← get).phase.advance event
    modify fun t => { t with phase }
    let epilogs ← (← get).epilogsAfter event
    modify fun t => { t with epilogs }
    onPart recorder (fun t recorder => { t with recorder }) id (FrameRecorder.record event)
  messages t event :=
    match t.phase.advance event with
    | .ok _ => FrameRecorder.messages t.recorder event
    | .error _ => []

end Tracker

end StackUnwind
