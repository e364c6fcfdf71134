import StackUnwind.Prolog.Instruction
import StackUnwind.UnwindCode
import StackUnwind.Word

/-!
Windows x64 unwind records. A record describes a prolog by its length, its frame register and
its unwind codes, last operation first, which is the order the unwinder undoes them in. The
record of cold code has no codes and refers to the record of the hot code.
-/

namespace StackUnwind

/-- An unwind record. -/
structure UnwindRecord where
  flags : Nibble := 0
  /-- The length of the prolog. -/
  prologSize : UInt8 := 0
  /-- The frame register, or zero for none. -/
  frameRegister : Nibble := 0
  /-- The frame register's distance from the stack pointer, in units of sixteen bytes. -/
  frameOffset : Nibble := 0
  /-- The unwind codes, last operation first. -/
  codes : List UnwindCode := []
  deriving DecidableEq, Repr

namespace UnwindRecord

/-- The version of the format. -/
def version : Nat := 1

/-- The flag of a record that refers to another one. -/
def chained : Nibble := 4

/-- The number of bytes before the slots. -/
def headerSize : Nat := 4

/-- The largest distance of the frame register from the stack pointer. -/
def maxFrameOffset : UInt32 := 240

/-- All slots of a record. -/
def slots (r : UnwindRecord) : List UInt16 := r.codes.flatMap UnwindCode.slots

/-- The bytes of a record: a header, the slots, and padding to an even number of slots. -/
def bytes (r : UnwindRecord) : List UInt8 :=
  [.ofNat (version + 8 * r.flags.val), r.prologSize, .ofNat r.slots.length,
   .ofNat (r.frameRegister.val + 16 * r.frameOffset.val)]
  ++ r.slots.flatMap (fun slot => littleEndian 2 slot.toNat)
  ++ if r.slots.length % 2 = 1 then [0, 0] else []

/-- The record of cold code. -/
def ofCold : UnwindRecord := { flags := chained }

/-- The number of slots that the unwind codes of a prolog take. -/
def slotCount (ops : List PrologOp) : Nat :=
  ops.foldr (fun op count => op.slotCount + count) 0

/-- The size of the record of a prolog, known before it is encoded. -/
def encodedSize (ops : List PrologOp) : Nat :=
  headerSize + 2 * (slotCount ops + slotCount ops % 2)

/-- A prolog up to some operation. -/
structure Scan where
  /-- The length of its instructions. -/
  size : UInt32 := 0
  /-- The frame register with its distance from the stack pointer, once established. -/
  frame : Option (Register × UInt32) := none
  /-- The unwind codes, last operation first. -/
  codes : List UnwindCode := []
  deriving DecidableEq, Repr

namespace Scan

/-- The frame register after an operation that has to be expressible as an unwind code. -/
def frameAfter (s : Scan) : PrologOp → Except RecordError (Option (Register × UInt32))
  | .alloc size =>
    if size = 0 ∨ size % 8 ≠ 0 then .error (.allocationSize size) else .ok s.frame
  | .setFrame reg offset =>
    if s.frame.isSome then .error .frameTwice
    else if offset % 16 ≠ 0 ∨ maxFrameOffset < offset then .error (.frameOffset offset)
    else .ok (some (reg, offset))
  | .push _ | .save _ _ => .ok s.frame

/-- A prolog continued by one operation. -/
def step (s : Scan) (op : PrologOp) : Except (Stop RecordError) Scan := do
  let length ← op.instructionLength
  let size ← word32 .add (s.size.toNat + length)
  if 255 < size then
    throw (.error (.prologTooLong size))
  let frame ← s.frameAfter op
  let code : UnwindCode := ⟨.ofNat size.toNat, op.form⟩
  if code.slots.length ≠ op.slotCount then
    throw (.fault .slotCountMismatch)
  return ⟨size, frame, code :: s.codes⟩

end Scan

/-- The record of a prolog with the given operations, of which the first that cannot be expressed
    is reported. -/
def ofOps (ops : List PrologOp) : Except (Stop RecordError) UnwindRecord := do
  let scan ← ops.foldlM Scan.step {}
  let (register, offset) := match scan.frame with
    | some (reg, offset) => (nibble reg.id.toNat, nibble (offset.toNat / 16))
    | none => (0, 0)
  let record : UnwindRecord :=
    { prologSize := .ofNat scan.size.toNat, frameRegister := register, frameOffset := offset,
      codes := scan.codes }
  if 255 < record.slots.length then
    throw (.error (.tooManySlots record.slots.length))
  return record

end UnwindRecord

end StackUnwind
