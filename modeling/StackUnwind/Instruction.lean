import StackUnwind.Bytes
import StackUnwind.Register

/-!
The x86-64 instructions of prologs and epilogs, and their machine code. Operands are in range by
type, so every instruction has bytes; each instruction has exactly one encoding, the shortest
one except that `rax` always takes its accumulator form with a full immediate.
-/

namespace StackUnwind

/-- An immediate or displacement. Negative ones have no use here. -/
abbrev Immediate := Fin 0x80000000

/-- A place in memory, `disp` bytes above the address in a general purpose register. -/
structure Memory where
  base : RegNumber
  disp : Immediate
  deriving DecidableEq, Repr

/-- An instruction. Registers are general purpose ones, but for the vector register of
    `storeXmm` and `loadXmm`. -/
inductive Instruction where
  | push (src : RegNumber)
  | pop (dst : RegNumber)
  | mov (dst src : RegNumber)
  | sub (dst : RegNumber) (imm : Immediate)
  | add (dst : RegNumber) (imm : Immediate)
  | lea (dst : RegNumber) (src : Memory)
  | store (dst : Memory) (src : RegNumber)
  | load (dst : RegNumber) (src : Memory)
  | storeXmm (dst : Memory) (src : RegNumber)
  | loadXmm (dst : RegNumber) (src : Memory)
  | ret
  | nop
  | int3
  deriving DecidableEq, Repr

namespace RegNumber

/-- The three bits of a register's number that fit an instruction field. -/
def low (r : RegNumber) : Nat := r.val % 8

/-- The fourth bit, which a REX byte holds. -/
def high (r : RegNumber) : Nat := r.val / 8

end RegNumber

namespace Instruction

/-- The REX byte for 64-bit operands, extending the register fields `reg` and `rm`. -/
def rexWide (reg rm : RegNumber) : UInt8 := .ofNat (0x48 + 4 * reg.high + rm.high)

/-- The REX byte for operands of the default size, which is left out when it extends nothing. -/
def rexNarrow (reg rm : RegNumber) : List UInt8 :=
  if reg.high = 0 ∧ rm.high = 0 then [] else [.ofNat (0x40 + 4 * reg.high + rm.high)]

/-- The ModRM byte: an addressing mode, a register or opcode extension, and an operand. -/
def modRM (mode reg rm : Nat) : UInt8 := .ofNat (64 * mode + 8 * reg + rm)

/-- The byte that follows ModRM when the base is `rsp` or `r12`: no index. -/
def sib (base : RegNumber) : List UInt8 := if base.low = 4 then [0x24] else []

/-- A memory operand beside the register field `reg`. The displacement takes no byte when it is
    zero, one when it is small and four otherwise; `rbp` and `r13` have no form without one. -/
def memory (reg : Nat) (m : Memory) : List UInt8 :=
  if m.disp.val = 0 ∧ m.base.low ≠ 5 then
    modRM 0 reg m.base.low :: sib m.base
  else if m.disp.val ≤ 127 then
    modRM 1 reg m.base.low :: (sib m.base ++ littleEndian 1 m.disp.val)
  else
    modRM 2 reg m.base.low :: (sib m.base ++ littleEndian 4 m.disp.val)

/-- A 64-bit instruction between a register and memory. -/
def wideMemory (opcode : UInt8) (reg : RegNumber) (m : Memory) : List UInt8 :=
  rexWide reg m.base :: opcode :: memory reg.low m

/-- A vector instruction between a register and memory. -/
def xmmMemory (opcode : UInt8) (reg : RegNumber) (m : Memory) : List UInt8 :=
  rexNarrow reg m.base ++ [0x0F, opcode] ++ memory reg.low m

/-- Addition or subtraction of an immediate. `accumulator` is the opcode for `rax` and
    `extension` tells the two operations apart elsewhere. -/
def arithmetic (accumulator : UInt8) (extension : Nat) (dst : RegNumber) (imm : Immediate) :
    List UInt8 :=
  if dst.val = 0 then
    rexWide 0 0 :: accumulator :: littleEndian 4 imm.val
  else if imm.val ≤ 127 then
    rexWide 0 dst :: 0x83 :: modRM 3 extension dst.low :: littleEndian 1 imm.val
  else
    rexWide 0 dst :: 0x81 :: modRM 3 extension dst.low :: littleEndian 4 imm.val

/-- The machine code of an instruction. -/
def bytes : Instruction → List UInt8
  | push src => rexNarrow 0 src ++ [.ofNat (0x50 + src.low)]
  | pop dst => rexNarrow 0 dst ++ [.ofNat (0x58 + dst.low)]
  | mov dst src => [rexWide src dst, 0x89, modRM 3 src.low dst.low]
  | sub dst imm => arithmetic 0x2D 5 dst imm
  | add dst imm => arithmetic 0x05 0 dst imm
  | lea dst src => wideMemory 0x8D dst src
  | store dst src => wideMemory 0x89 src dst
  | load dst src => wideMemory 0x8B dst src
  | storeXmm dst src => xmmMemory 0x29 src dst
  | loadXmm dst src => xmmMemory 0x28 dst src
  | ret => [0xC3]
  | nop => [0x90]
  | int3 => [0xCC]

end Instruction

end StackUnwind
