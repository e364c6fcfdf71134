import StackUnwind.Instruction
import StackUnwind.Prolog

/-!
Instructions as they are asked for. The operands of a draft may be anything; checking it gives
the instruction it stands for or says what is wrong with it.
-/

namespace StackUnwind

/-- Why machine code could not be written. -/
inductive EncodeError where
  /-- An operand is not a register of the required kind. -/
  | invalidRegister
  /-- An immediate or displacement is too large. -/
  | immediateOutOfRange (value : UInt32)
  /-- No label has this number. -/
  | unknownLabel (label : Nat)
  /-- The label has been placed before. -/
  | labelPlacedTwice
  /-- The label's offset is no 32-bit word. -/
  | labelOutOfRange (offset : Nat)
  deriving DecidableEq, Repr

namespace EncodeError

def message : EncodeError → String
  | invalidRegister => "Invalid register for operation"
  | immediateOutOfRange value => s!"Immediate out of range: {value}"
  | unknownLabel label => s!"Assembly error: unknown label {label}"
  | labelPlacedTwice => "Assembly error: Labels can't be re-used and can only be set once."
  | labelOutOfRange offset => s!"Assembly error: label offset {hexNumber offset} out of range"

end EncodeError

/-- An instruction with unchecked operands. Stores and loads choose between the general purpose
    and the vector form by the bank of the register that is stored or loaded. -/
inductive Draft where
  | push (src : Register)
  | pop (dst : Register)
  | mov (dst src : Register)
  | sub (dst : Register) (imm : UInt32)
  | add (dst : Register) (imm : UInt32)
  | lea (dst base : Register) (disp : UInt32)
  | store (base : Register) (disp : UInt32) (src : Register)
  | load (dst base : Register) (disp : UInt32)
  | ret
  | nop
  | int3
  deriving DecidableEq, Repr

namespace Draft

/-- The register of a bank that a handle has to name. -/
def operandIn (bank : UInt8) (r : Register) : Except EncodeError RegNumber :=
  match r.numberIn? bank with
  | some n => .ok n
  | none => .error .invalidRegister

/-- The general purpose register that a handle has to name. -/
abbrev gpOperand (r : Register) : Except EncodeError RegNumber := operandIn Register.gpBank r

/-- The vector register that a handle has to name. -/
abbrev xmmOperand (r : Register) : Except EncodeError RegNumber := operandIn Register.xmmBank r

/-- The immediate of the given value, which has to be below `2 ^ 31`. -/
def immediate (value : UInt32) : Except EncodeError Immediate :=
  if h : value.toNat < 0x80000000 then .ok ⟨value.toNat, h⟩ else .error (.immediateOutOfRange value)

/-- The instruction a draft stands for. Of several faulty operands the destination is reported
    before the source and a memory operand before the register, base first. -/
def check : Draft → Except EncodeError Instruction
  | push src => return .push (← gpOperand src)
  | pop dst => return .pop (← gpOperand dst)
  | mov dst src => return .mov (← gpOperand dst) (← gpOperand src)
  | sub dst imm => return .sub (← gpOperand dst) (← immediate imm)
  | add dst imm => return .add (← gpOperand dst) (← immediate imm)
  | lea dst base disp => return .lea (← gpOperand dst) ⟨← gpOperand base, ← immediate disp⟩
  | store base disp src => do
    let slot := ⟨← gpOperand base, ← immediate disp⟩
    if src.isXmm then return .storeXmm slot (← xmmOperand src)
    else return .store slot (← gpOperand src)
  | load dst base disp => do
    let slot := ⟨← gpOperand base, ← immediate disp⟩
    if dst.isXmm then return .loadXmm (← xmmOperand dst) slot
    else return .load (← gpOperand dst) slot
  | ret => return .ret
  | nop => return .nop
  | int3 => return .int3

end Draft

end StackUnwind
