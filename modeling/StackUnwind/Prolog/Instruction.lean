import StackUnwind.Instruction.Draft

/-!
The instruction that performs each frame operation. An operation is expressible when its
instruction exists, and its length places the operation in the prolog.
-/

namespace StackUnwind

/-- Why a prolog has no unwind record. -/
inductive RecordError where
  /-- The register of a push, a frame register or a stored register is not a general purpose
      one. -/
  | notGeneralPurpose (reg : Register)
  /-- The vector register that is stored does not exist. -/
  | notVector (reg : Register)
  /-- A size or an offset exceeds what an instruction can hold. -/
  | immediateTooLarge (value : UInt32)
  /-- The instructions of the prolog are too long together. -/
  | prologTooLong (size : UInt32)
  /-- No unwind code undoes an allocation of this size. -/
  | allocationSize (size : UInt32)
  /-- The frame register is established a second time. -/
  | frameTwice
  /-- A record cannot hold this offset of the frame register. -/
  | frameOffset (offset : UInt32)
  /-- The unwind codes take too many slots together. -/
  | tooManySlots (slots : Nat)
  deriving DecidableEq, Repr

namespace RecordError

def message : RecordError → String
  | notGeneralPurpose reg => s!"{reg.name} is not a general purpose register"
  | notVector reg => s!"{reg.name} is not an XMM register"
  | immediateTooLarge value => s!"immediate {value} does not fit in 32 bits"
  | prologTooLong size => s!"prolog is longer than 255 bytes ({size})"
  | allocationSize size => s!"stack allocation of {size} bytes is not a positive multiple of 8"
  | frameTwice => "frame register established twice"
  | frameOffset offset => s!"frame offset {offset} is not a multiple of 16 up to 240"
  | tooManySlots slots => s!"{slots} unwind code slots exceed the limit of 255"

end RecordError

namespace PrologOp

/-- The register of a bank that an operation has to name. -/
def registerIn (bank : UInt8) (error : Register → RecordError) (r : Register) :
    Except RecordError RegNumber :=
  match r.numberIn? bank with
  | some n => .ok n
  | none => .error (error r)

/-- The general purpose register an operation has to name. -/
abbrev gpRegister (r : Register) : Except RecordError RegNumber :=
  registerIn Register.gpBank .notGeneralPurpose r

/-- The vector register an operation has to name. -/
abbrev xmmRegister (r : Register) : Except RecordError RegNumber :=
  registerIn Register.xmmBank .notVector r

/-- The immediate of the given value, which has to be below `2 ^ 31`. -/
def immediate (value : UInt32) : Except RecordError Immediate :=
  if h : value.toNat < 0x80000000 then .ok ⟨value.toNat, h⟩ else .error (.immediateTooLarge value)

/-- The stack slot `offset` bytes above the stack pointer. -/
def slot (offset : UInt32) : Except RecordError Memory :=
  return ⟨4, ← immediate offset⟩

/-- The instruction that performs an operation. -/
def instruction : PrologOp → Except RecordError Instruction
  | push reg => return .push (← gpRegister reg)
  | alloc size => return .sub 4 (← immediate size)
  | setFrame reg offset =>
    if offset = 0 then return .mov (← gpRegister reg) 4
    else return .lea (← gpRegister reg) (← slot offset)
  | save reg offset => do
    let place ← slot offset
    if reg.isXmm then return .storeXmm place (← xmmRegister reg)
    else return .store place (← gpRegister reg)

/-- The length of the instruction that performs an operation. -/
def instructionLength (op : PrologOp) : Except RecordError Nat :=
  return (← op.instruction).bytes.length

end PrologOp

end StackUnwind
