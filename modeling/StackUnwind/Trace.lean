import StackUnwind.CommandLine
import StackUnwind.CommandLine.Help
import StackUnwind.Context.Commitment
import StackUnwind.Context.Reservation
import StackUnwind.Host.Ledger
import StackUnwind.Text.ControlSequence

/-!
Tracing a unit. The unit that a command line describes is taken through reservation and
commitment with a host that accepts everything, and the result is what the host has been asked
for. Each function has the prolog `push rbp; mov rbp, rsp`.
-/

namespace StackUnwind

/-- Locations handed out for typed offsets. -/
structure Markers where
  /-- The number of the next location. -/
  next : UInt32 := 0
  table : LocationTable := .empty

namespace Markers

/-- A new location for an offset, if there is an offset. -/
def mark (markers : Markers) (offset : Option UInt32) : Except Fault (Option Location × Markers) :=
  match offset with
  | none => .ok (none, markers)
  | some offset => do
    let location : Location := ⟨markers.next⟩
    let next ← word32 .add (markers.next.toNat + 1)
    return (some location, { next, table := markers.table.insert location offset })

/-- A span between new locations. -/
def span (markers : Markers) (typed : TypedSpan) : Except Fault (Span × Markers) := do
  let (start, markers) ← markers.mark typed.start
  let (stop, markers) ← markers.mark typed.stop
  return (⟨start, stop⟩, markers)

/-- The span of cold code, if there is any. -/
def coldSpan (markers : Markers) : Option TypedSpan → Except Fault (Option Span × Markers)
  | none => .ok (none, markers)
  | some typed => do
    let (span, markers) ← markers.span typed
    return (some span, markers)

/-- Funclets with new locations around their code. -/
def funclets (markers : Markers) : List TypedFunclet → Except Fault (List UnitFunction × Markers)
  | [] => .ok ([], markers)
  | typed :: rest => do
    let (span, markers) ← markers.span typed.span
    let funclet ← UnitFunction.funclet typed.kind span
    let (rest, markers) ← markers.funclets rest
    return (funclet :: rest, markers)

end Markers

/-- Why a unit cannot be traced. -/
inductive TraceError where
  | unwind (cause : UnwindError)
  /-- The hot code does not fit between its address and the end of memory. -/
  | addressSpace (hotBase : UInt64) (hotSize : UInt32)
  deriving DecidableEq, Repr

namespace TraceError

def message : TraceError → String
  | unwind cause => cause.message
  | addressSpace hotBase hotSize =>
    s!"hot code at {hexNumber hotBase.toNat} with {hotSize} bytes overflows the address space"

end TraceError

/-- The events of the prolog that each function has. -/
def frameEvents : List FrameEvent :=
  [.beginProlog, .op (.push .rbp), .op (.setFrame .rbp 0), .endProlog]

/-- The tracker of a function with that prolog. -/
def framedTracker (arch : Arch) : Except Fault Tracker :=
  outcome (frameEvents.forM FrameRecorder.record) (.fresh arch)

namespace CommandLine

/-- The functions of a unit, and where their markers are. -/
def functions (cl : CommandLine) : Except Fault (List UnitFunction × LocationTable) := do
  let (hot, markers) ← ({} : Markers).span cl.root
  let (cold, markers) ← markers.coldSpan cl.cold
  let (funclets, markers) ← markers.funclets cl.funclets
  return (.root hot cold :: funclets, markers.table)

/-- The layout of a unit. Cold code is placed directly after the hot code. -/
def layout (cl : CommandLine) : Except (Stop TraceError) UnitLayout :=
  match cl.cold with
  | none => return .hotOnly cl.hotBase cl.hotSize
  | some _ => do
    let coldBase := cl.hotBase.toNat + cl.hotSize.toNat
    if 0x10000000000000000 ≤ coldBase then
      throw (.error (.addressSpace cl.hotBase cl.hotSize))
    UnitLayout.split cl.hotBase (.ofNat coldBase) cl.hotSize (cl.totalSize.getD cl.hotSize)

/-- The settings of a unit: the command line can only add to what the environment asks for. -/
def settings (cl : CommandLine) (environment : Option String) : Settings :=
  let settings := Settings.ofEnvironment environment
  { settings with fakeSplitting := settings.fakeSplitting || cl.fakeSplit }

/-- Trace a unit, given the environment's value for the settings. -/
def trace (cl : CommandLine) (environment : Option String) :
    Except (Stop TraceError) (Exchange Ledger) := do
  let (functions, table) ← cl.functions
  let tracker ← framedTracker cl.arch
  let context ← (Context.ofTrackers functions (functions.map fun _ => tracker)
    (cl.settings environment)).mapError fun e => Stop.error (TraceError.unwind e)
  let session : Session := { name? := some "unit" }
  let reserved ← (outcome (context.reserve Ledger.host) { host := {}, session }).mapError
    (·.map .unwind)
  let layout ← cl.layout
  (outcome (context.commit Ledger.host table.offset? layout) reserved).mapError (·.map .unwind)

end CommandLine

/-- The outcome of a run. -/
structure RunOutcome where
  exitCode : UInt8
  output : String := ""
  /-- What is said about a failure. -/
  complaint : String := ""
  deriving DecidableEq, Repr

namespace RunOutcome

/-- What is said about a failure in one line. -/
def summary (outcome : RunOutcome) : String := .ofList (firstLine outcome.complaint.toList)

/-- The outcome of tracing a unit. -/
def ofCommandLine (cl : CommandLine) (environment : Option String) : RunOutcome :=
  match cl.trace environment with
  | .ok x => { exitCode := 0, output := x.host.text ++ x.session.stats.text }
  | .error (.error e) => { exitCode := 1, complaint := s!"Error: \"{e.message}\"\n" }
  | .error (.fault f) => { exitCode := 101, complaint := f.message ++ "\n" }

/-- Run with the given arguments and the environment's value for the settings. Complaints about
    the arguments are made without styles, and what the arguments say in control sequences is
    lost with them. -/
def ofArguments (arguments : List String) (environment : Option String) : RunOutcome :=
  match Request.ofArguments arguments with
  | .error e => { exitCode := 2, complaint := plainText e.complaint }
  | .ok .help => { exitCode := 0, output := helpText }
  | .ok (.trace cl) => ofCommandLine cl environment

end RunOutcome

end StackUnwind
