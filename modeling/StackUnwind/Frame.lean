import StackUnwind.UnwindRecord

/-!
Stack frames. Below the return address a frame holds the saved frame pointer, the pushed
registers, eight bytes of padding if their number is odd, and the fixed allocation with the
slots of vector registers above the locals. All sizes are words and computing them may
overflow.
-/

namespace StackUnwind

/-- The frame of a function. -/
structure FrameLayout where
  /-- General purpose registers to preserve, in the order they are pushed. -/
  savedRegisters : List Register := []
  /-- Vector registers to preserve, in the order of their slots. -/
  savedXmm : List Register := []
  /-- Bytes of locals. -/
  localSize : UInt32 := 0
  /-- The distance of the frame pointer from the stack pointer. -/
  framePointerOffset : UInt32 := 0
  /-- The size of the fixed allocation, once it has been calculated. -/
  frameSize : UInt32 := 0
  deriving DecidableEq, Repr

namespace FrameLayout

/-- A size rounded up to a multiple of `unit`. -/
def roundUp (unit : Nat) (size : UInt32) : Except Fault UInt32 :=
  word32 .multiply ((size.toNat + (unit - 1)) / unit * unit)

/-- The size of `count` slots of vector registers, counted in a word. -/
def xmmArea (count : Nat) : Except Fault UInt32 :=
  word32 .multiply (count % 0x100000000 * 16)

/-- Preserve a register, unless it is preserved already. -/
def addSavedRegister (frame : FrameLayout) (reg : Register) : FrameLayout :=
  if reg.isXmm then
    if reg ∈ frame.savedXmm then frame
    else { frame with savedXmm := frame.savedXmm ++ [reg] }
  else
    if reg ∈ frame.savedRegisters then frame
    else { frame with savedRegisters := frame.savedRegisters ++ [reg] }

/-- Add locals, rounded up to a multiple of eight bytes. -/
def allocateLocals (frame : FrameLayout) (size : UInt32) : Except Fault FrameLayout := do
  let added ← roundUp 8 size
  let localSize ← word32 .add (frame.localSize.toNat + added.toNat)
  return { frame with localSize }

def setFramePointerOffset (frame : FrameLayout) (offset : UInt32) : FrameLayout :=
  { frame with framePointerOffset := offset }

/-- The padding that keeps the stack pointer aligned to sixteen bytes. -/
def padding (frame : FrameLayout) : Nat :=
  if frame.savedRegisters.length % 2 = 1 then 8 else 0

/-- The frame with the size of its fixed allocation calculated. -/
def calculateFrameSize (frame : FrameLayout) : Except Fault FrameLayout := do
  let locals ← roundUp 16 frame.localSize
  let xmm ← xmmArea frame.savedXmm.length
  let content ← word32 .add (locals.toNat + xmm.toNat)
  let frameSize ← word32 .add (content.toNat + frame.padding)
  return { frame with frameSize }

/-- The slot of a saved vector register, as a distance from the stack pointer. -/
def xmmSlot (frame : FrameLayout) (index : Nat) : Except Fault UInt32 := do
  let locals ← roundUp 16 frame.localSize
  let below ← xmmArea index
  word32 .add (locals.toNat + below.toNat)

/-- Whether a frame of calculated size can be set up: its frame pointer lies within the fixed
    allocation at a distance that a record can hold, and every register and size has an
    instruction. The stack pointer and the frame pointer are preserved by other means. -/
def canBeSetUp (frame : FrameLayout) : Bool :=
  frame.framePointerOffset % 16 == 0
  && frame.framePointerOffset ≤ UnwindRecord.maxFrameOffset
  && frame.framePointerOffset ≤ frame.frameSize
  && frame.savedRegisters.all (fun reg =>
    reg != .rbp && reg != .rsp && reg.gpNumber?.isSome)
  && frame.savedXmm.all (·.xmmNumber?.isSome)
  && frame.frameSize.toNat < 0x80000000

end FrameLayout

end StackUnwind
