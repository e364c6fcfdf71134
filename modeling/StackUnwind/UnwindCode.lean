import StackUnwind.Bytes
import StackUnwind.Prolog

/-!
Windows x64 unwind codes. A code says how one frame operation is undone and at which offset in
the prolog the operation was complete. It takes one to three 16-bit slots: the first holds the
offset, the kind of operation and four bits of information, the others an operand.
-/

namespace StackUnwind

/-- Four bits of information. -/
abbrev Nibble := Fin 16

/-- The four low bits of a number. -/
def nibble (n : Nat) : Nibble := Fin.ofNat 16 n

/-- The operation of an unwind code, in one of the forms the format offers for it. -/
inductive CodeForm where
  /-- Push of a general purpose register. -/
  | pushNonvol (reg : Nibble)
  /-- Allocation of `8 * (units + 1)` bytes. -/
  | allocSmall (units : Nibble)
  /-- Allocation of `8 * units` bytes. -/
  | allocScaled (units : UInt16)
  /-- Allocation of `size` bytes. -/
  | allocWide (size : UInt32)
  /-- Establishment of the frame register, which the header of the record describes. -/
  | setFrame
  /-- Store of a general purpose register at offset `8 * units`. -/
  | saveScaled (reg : Nibble) (units : UInt16)
  /-- Store of a general purpose register at `offset`. -/
  | saveWide (reg : Nibble) (offset : UInt32)
  /-- Store of a vector register at offset `16 * units`. -/
  | saveXmmScaled (reg : Nibble) (units : UInt16)
  /-- Store of a vector register at `offset`. -/
  | saveXmmWide (reg : Nibble) (offset : UInt32)
  deriving DecidableEq, Repr

namespace CodeForm

/-- The number of the operation. -/
def opcode : CodeForm → Nibble
  | pushNonvol _ => 0
  | allocScaled _ | allocWide _ => 1
  | allocSmall _ => 2
  | setFrame => 3
  | saveScaled _ _ => 4
  | saveWide _ _ => 5
  | saveXmmScaled _ _ => 8
  | saveXmmWide _ _ => 9

/-- The information in the first slot. It tells the two large allocations apart. -/
def info : CodeForm → Nibble
  | pushNonvol reg | saveScaled reg _ | saveWide reg _ | saveXmmScaled reg _
  | saveXmmWide reg _ => reg
  | allocSmall units => units
  | allocScaled _ => 0
  | allocWide _ => 1
  | setFrame => 0

/-- A double word in two slots, low half first. -/
def halves (value : UInt32) : List UInt16 :=
  [.ofNat value.toNat, .ofNat (value.toNat / 0x10000)]

/-- The slots after the first. -/
def operand : CodeForm → List UInt16
  | pushNonvol _ | allocSmall _ | setFrame => []
  | allocScaled units | saveScaled _ units | saveXmmScaled _ units => [units]
  | allocWide value | saveWide _ value | saveXmmWide _ value => halves value

end CodeForm

/-- An unwind code: an operation and the offset in the prolog just after its instruction. -/
structure UnwindCode where
  offset : UInt8
  form : CodeForm
  deriving DecidableEq, Repr

namespace UnwindCode

/-- The slots of a code. The operation and its information share the high byte of the first. -/
def slots (code : UnwindCode) : List UInt16 :=
  .ofNat (code.offset.toNat + 256 * (code.form.opcode.val + 16 * code.form.info.val))
    :: code.form.operand

end UnwindCode

namespace PrologOp

/-- Whether an offset can be counted in units of `scale` bytes in one slot. -/
def fitsScaled (scale : Nat) (offset : UInt32) : Bool :=
  offset.toNat % scale == 0 && offset.toNat / scale ≤ 0xFFFF

/-- The largest allocation that one slot can count in units of eight bytes. -/
def largestScaledAlloc : UInt32 := 0x7FFF8

/-- The number of slots that the unwind code of an operation takes. -/
def slotCount : PrologOp → Nat
  | push _ | setFrame _ _ => 1
  | alloc size => if size ≤ 128 then 1 else if size ≤ largestScaledAlloc then 2 else 3
  | save reg offset => if fitsScaled (if reg.isXmm then 16 else 8) offset then 2 else 3

/-- The form of the unwind code of an operation. -/
def form : PrologOp → CodeForm
  | push reg => .pushNonvol (nibble reg.id.toNat)
  | alloc size =>
    if size ≤ 128 then .allocSmall (nibble (size.toNat / 8 - 1))
    else if size ≤ largestScaledAlloc then .allocScaled (.ofNat (size.toNat / 8))
    else .allocWide size
  | setFrame _ _ => .setFrame
  | save reg offset =>
    if reg.isXmm then
      if fitsScaled 16 offset then
        .saveXmmScaled (nibble reg.id.toNat) (.ofNat (offset.toNat / 16))
      else .saveXmmWide (nibble reg.id.toNat) offset
    else if fitsScaled 8 offset then
      .saveScaled (nibble reg.id.toNat) (.ofNat (offset.toNat / 8))
    else .saveWide (nibble reg.id.toNat) offset

end PrologOp

end StackUnwind
