import StackUnwind.Proofs.Prolog.Instruction

namespace StackUnwind

namespace Instruction

private theorem length_rexNarrow_le (reg rm : RegNumber) : (rexNarrow reg rm).length ≤ 1 := by
  unfold rexNarrow
  split <;> simp

private theorem length_sib_le (base : RegNumber) : (sib base).length ≤ 1 := by
  unfold sib
  split <;> simp

private theorem length_memory_bounds (reg : Nat) (m : Memory) :
    1 ≤ (memory reg m).length ∧ (memory reg m).length ≤ 6 := by
  have hsib := length_sib_le m.base
  unfold memory
  split
  · simp only [List.length_cons]
    omega
  · split <;> simp only [List.length_cons, List.length_append, length_littleEndian] <;> omega

/-- A stack slot is addressed with one byte more, which names no index. -/
theorem two_le_length_memory_rsp (reg : Nat) (imm : Immediate) : 2 ≤ (memory reg ⟨4, imm⟩).length := by
  have hsib : (sib 4).length = 1 := by decide
  unfold memory
  split
  · simp only [List.length_cons]
    omega
  · split <;> simp only [List.length_cons, List.length_append, length_littleEndian] <;> omega

/-- An instruction that adds to or subtracts from a register has 4 to 7 bytes. -/
theorem length_arithmetic_bounds (accumulator : UInt8) (extension : Nat) (dst : RegNumber) (imm : Immediate) :
    4 ≤ (arithmetic accumulator extension dst imm).length ∧
      (arithmetic accumulator extension dst imm).length ≤ 7 := by
  unfold arithmetic
  split
  · simp
  · split <;> simp

/-- A push has one byte, or two with a prefix. -/
theorem length_push_le (src : RegNumber) : (push src).bytes.length ≤ 2 := by
  have hrex := length_rexNarrow_le 0 src
  simp only [bytes, List.length_append, List.length_singleton]
  omega

/-- Every instruction has 1 to 9 bytes. -/
theorem length_bytes_bounds (i : Instruction) : 1 ≤ i.bytes.length ∧ i.bytes.length ≤ 9 := by
  cases i with
  | push r | pop r =>
    have hrex := length_rexNarrow_le 0 r
    simp only [bytes, List.length_append, List.length_singleton]
    omega
  | mov dst src => simp [bytes]
  | sub dst imm | add dst imm =>
    have h := length_arithmetic_bounds 0x2D 5 dst imm
    have h' := length_arithmetic_bounds 0x05 0 dst imm
    simp only [bytes]
    omega
  | lea r m | store m r | load r m =>
    have hmemory := length_memory_bounds r.low m
    simp only [bytes, wideMemory, List.length_cons]
    omega
  | storeXmm m r | loadXmm r m =>
    have hmemory := length_memory_bounds r.low m
    have hrex := length_rexNarrow_le r m.base
    simp only [bytes, xmmMemory, List.length_append, List.length_cons, List.length_nil]
    omega
  | ret | nop | int3 => simp [bytes]

end Instruction

namespace PrologOp

/-- An operation takes at most three slots of a record. -/
theorem slotCount_le_three (op : PrologOp) : op.slotCount ≤ 3 := by
  cases op with
  | push reg | setFrame reg offset => simp [slotCount]
  | alloc size =>
    simp only [slotCount]
    split
    · omega
    · split <;> omega
  | save reg offset =>
    simp only [slotCount]
    generalize fitsScaled _ offset = fits
    cases fits <;> simp

/-- An instruction is at least as long as the unwind code of its operation has slots, so a prolog
    that is short enough for a record never has too many of them. -/
theorem PerformedBy.slotCount_le_length {op : PrologOp} {i : Instruction} (h : op.PerformedBy i) :
    op.slotCount ≤ i.bytes.length := by
  have hslots := slotCount_le_three op
  cases h with
  | push hreg | mov hreg | lea hreg hoffset hne => exact (Instruction.length_bytes_bounds _).1
  | @alloc size imm hsize =>
    have hlength := (Instruction.length_arithmetic_bounds 0x2D 5 4 imm).1
    simp only [Instruction.bytes]
    omega
  | @store reg n offset imm hreg hoffset =>
    have hlength := Instruction.two_le_length_memory_rsp n.low imm
    simp only [Instruction.bytes, Instruction.wideMemory, List.length_cons]
    omega
  | @storeXmm reg n offset imm hreg hoffset =>
    have hlength := Instruction.two_le_length_memory_rsp n.low imm
    simp only [Instruction.bytes, Instruction.xmmMemory, List.length_append, List.length_cons,
      List.length_nil]
    omega

end PrologOp

end StackUnwind
