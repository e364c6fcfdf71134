import StackUnwind.Location
import StackUnwind.Message
import StackUnwind.UnwindRecord

/-!
Recorders. A recorder is told what a code generator does in prologs and epilogs, and later gives
the unwind record of the function. On x86 the unwinder follows frame pointers, so nothing is
remembered and a record holds the length of the code only. On x64 the operations of the prolog
become unwind codes.
-/

namespace StackUnwind

/-- Anything that can be told about prologs and epilogs. -/
class FrameRecorder (ρ : Type) where
  /-- Tell the recorder of an event, which may break a contract. -/
  record : FrameEvent → EStateM Fault ρ Unit
  /-- What is traced about an event, with the recorder before it. -/
  messages : ρ → FrameEvent → List Message

/-- A finished record. -/
structure UnwindInfo where
  /-- The length of the code that the record covers. -/
  codeLength : UInt32
  bytes : List UInt8
  deriving DecidableEq, Repr

/-- The architectures that records are made for. -/
inductive Arch where
  | x86
  | x64
  deriving DecidableEq, Repr

/-- What is remembered of the prolog and the epilogs of an x64 function. -/
structure PrologLog where
  /-- The operations of the prolog, in order. -/
  ops : List PrologOp := []
  /-- The number of finished epilogs. -/
  epilogs : UInt32 := 0
  inEpilog : Bool := false
  /-- The number of operations in epilogs, which need no unwind codes. -/
  epilogOps : UInt32 := 0
  deriving DecidableEq, Repr

namespace PrologLog

/-- Operations belong to the prolog unless an epilog is open. -/
def record : FrameEvent → EStateM Fault PrologLog Unit
  | .beginProlog => do
    let log ← get
    if !log.ops.isEmpty then
      throw .logNotEmpty
  | .endProlog => return
  | .beginEpilog => modify fun log => { log with inEpilog := true }
  | .endEpilog => do
    modify fun log => { log with inEpilog := false }
    let log ← get
    set { log with epilogs := ← word32 .add (log.epilogs.toNat + 1) }
  | .op op => do
    let log ← get
    if log.inEpilog then
      set { log with epilogOps := ← word32 .add (log.epilogOps.toNat + 1) }
    else
      set { log with ops := log.ops ++ [op] }

/-- What is traced about an event, with the log before it. -/
def messages (log : PrologLog) : FrameEvent → List Message
  | .endProlog => [⟨.trace, s!"prolog recorded with {log.ops.length} op(s)"⟩]
  | .op op =>
    if log.inEpilog then [⟨.trace, s!"epilog op {op.describe} (no unwind code)"⟩]
    else [⟨.trace, s!"unwind op #{log.ops.length}: {op.describe}"⟩]
  | .beginProlog | .beginEpilog | .endEpilog => []

end PrologLog

/-- The recorder of a function. -/
inductive Recorder where
  | x86
  | x64 (log : PrologLog)
  deriving DecidableEq, Repr

namespace Recorder

/-- A recorder that has been told nothing. -/
def fresh : Arch → Recorder
  | .x86 => .x86
  | .x64 => .x64 {}

instance : FrameRecorder Recorder where
  record event
    | x86 => .ok () x86
    | x64 log => mapState x64 (PrologLog.record event log)
  messages
    | x86, _ => []
    | x64 log, event => log.messages event

/-- The size of an x86 record. -/
def x86Size : Nat := 4

/-- The size of the record for a region, as far ahead as storage has to be reserved. -/
def infoSize : Recorder → Region → Nat
  | x86, _ => x86Size
  | x64 log, .hot => UnwindRecord.encodedSize log.ops
  | x64 _, .cold => UnwindRecord.headerSize

/-- The record for `codeLength` bytes of code in a region. -/
def info (r : Recorder) (region : Region) (codeLength : UInt32) :
    Except (Stop RecordError) UnwindInfo :=
  match r, region with
  | x86, _ => return ⟨codeLength, littleEndian x86Size codeLength.toNat⟩
  | x64 log, .hot => return ⟨codeLength, (← UnwindRecord.ofOps log.ops).bytes⟩
  | x64 _, .cold => return ⟨codeLength, UnwindRecord.ofCold.bytes⟩

end Recorder

end StackUnwind
