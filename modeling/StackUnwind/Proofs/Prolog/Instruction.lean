import StackUnwind.Proofs.Outcome
import StackUnwind.UnwindRecord

namespace StackUnwind

namespace Register

/-- The number of a register is its handle, if that is below 16. -/
theorem number?_eq_some_iff {r : Register} {n : RegNumber} :
    r.number? = some n ↔ r.id.toNat = n.val := by
  unfold number?
  split
  next h => simp [Fin.ext_iff]
  next h =>
    simp only [reduceCtorEq, false_iff]
    intro heq
    omega

theorem toNat_ofNat_number (n : RegNumber) : (UInt8.ofNat n.val).toNat = n.val :=
  UInt8.toNat_ofNat_of_lt' (Nat.lt_trans n.isLt (by decide))

/-- The register of a number in a bank has one handle. -/
theorem numberIn?_eq_some_iff {r : Register} {bank : UInt8} {n : RegNumber} :
    r.numberIn? bank = some n ↔ r = ⟨bank, .ofNat n.val⟩ := by
  obtain ⟨bank', id⟩ := r
  have hn := toNat_ofNat_number n
  simp only [numberIn?, beq_iff_eq, ite_eq_iff, number?_eq_some_iff, mk.injEq, reduceCtorEq, and_false, or_false,
    ← UInt8.toNat_inj, hn]

/-- A register belongs to one bank. -/
private theorem isXmm_of_numberIn? {r : Register} {bank : UInt8} {n : RegNumber} (h : r.numberIn? bank = some n) :
    r.isXmm = (bank == xmmBank) := by
  rw [numberIn?_eq_some_iff] at h
  subst r
  rfl

theorem isXmm_of_gpNumber? {r : Register} {n : RegNumber} (h : r.gpNumber? = some n) : r.isXmm = false :=
  isXmm_of_numberIn? h

theorem isXmm_of_xmmNumber? {r : Register} {n : RegNumber} (h : r.xmmNumber? = some n) : r.isXmm = true :=
  isXmm_of_numberIn? h

end Register

namespace PrologOp

private theorem immediate_eq_ok_iff {value : UInt32} {imm : Immediate} :
    immediate value = .ok imm ↔ imm.val = value.toNat := by
  unfold immediate
  split
  next h => simp [Fin.ext_iff, eq_comm]
  next h =>
    simp only [reduceCtorEq, false_iff]
    intro heq
    exact h (heq ▸ imm.isLt)

/-- A register of a bank is accepted with its number there. -/
theorem registerIn_eq_ok_iff {bank : UInt8} {error : Register → RecordError} {r : Register} {n : RegNumber} :
    registerIn bank error r = .ok n ↔ r.numberIn? bank = some n := by
  unfold registerIn
  cases r.numberIn? bank <;> simp

/-- The instruction that performs an operation: the register is one of its bank, and the size or
    offset is the instruction's immediate. -/
inductive PerformedBy : PrologOp → Instruction → Prop where
  | push {reg : Register} {n : RegNumber} (hreg : reg.gpNumber? = some n) :
      PerformedBy (.push reg) (.push n)
  | alloc {size : UInt32} {imm : Immediate} (hsize : imm.val = size.toNat) :
      PerformedBy (.alloc size) (.sub 4 imm)
  | mov {reg : Register} {n : RegNumber} (hreg : reg.gpNumber? = some n) :
      PerformedBy (.setFrame reg 0) (.mov n 4)
  | lea {reg : Register} {n : RegNumber} {offset : UInt32} {imm : Immediate}
      (hreg : reg.gpNumber? = some n) (hoffset : imm.val = offset.toNat) (hne : offset ≠ 0) :
      PerformedBy (.setFrame reg offset) (.lea n ⟨4, imm⟩)
  | store {reg : Register} {n : RegNumber} {offset : UInt32} {imm : Immediate}
      (hreg : reg.gpNumber? = some n) (hoffset : imm.val = offset.toNat) :
      PerformedBy (.save reg offset) (.store ⟨4, imm⟩ n)
  | storeXmm {reg : Register} {n : RegNumber} {offset : UInt32} {imm : Immediate}
      (hreg : reg.xmmNumber? = some n) (hoffset : imm.val = offset.toNat) :
      PerformedBy (.save reg offset) (.storeXmm ⟨4, imm⟩ n)

/-- The instruction of an operation is the one that performs it. -/
theorem instruction_eq_ok_iff {op : PrologOp} {i : Instruction} :
    op.instruction = .ok i ↔ op.PerformedBy i := by
  constructor
  · intro h
    cases op with
    | push reg =>
      simp only [instruction, bind_eq_ok_iff, registerIn_eq_ok_iff, pure_eq_ok_iff] at h
      obtain ⟨n, hn, rfl⟩ := h
      exact .push hn
    | alloc size =>
      simp only [instruction, bind_eq_ok_iff, immediate_eq_ok_iff, pure_eq_ok_iff] at h
      obtain ⟨imm, himm, rfl⟩ := h
      exact .alloc himm
    | setFrame reg offset =>
      by_cases hzero : offset = 0
      · subst offset
        simp only [instruction, if_true, bind_eq_ok_iff, registerIn_eq_ok_iff, pure_eq_ok_iff] at h
        obtain ⟨n, hn, rfl⟩ := h
        exact .mov hn
      · simp only [instruction, if_neg hzero, slot, bind_eq_ok_iff, registerIn_eq_ok_iff,
          immediate_eq_ok_iff, pure_eq_ok_iff] at h
        obtain ⟨n, hn, _, ⟨imm, himm, rfl⟩, rfl⟩ := h
        exact .lea hn himm hzero
    | save reg offset =>
      simp only [instruction, slot, bind_eq_ok_iff, immediate_eq_ok_iff, pure_eq_ok_iff] at h
      obtain ⟨_, ⟨imm, himm, rfl⟩, h⟩ := h
      split at h
      · simp only [bind_eq_ok_iff, registerIn_eq_ok_iff, pure_eq_ok_iff] at h
        obtain ⟨n, hn, rfl⟩ := h
        exact .storeXmm hn himm
      · simp only [bind_eq_ok_iff, registerIn_eq_ok_iff, pure_eq_ok_iff] at h
        obtain ⟨n, hn, rfl⟩ := h
        exact .store hn himm
  · intro h
    cases h with
    | push hreg =>
      simp only [instruction, bind_eq_ok_iff, registerIn_eq_ok_iff, pure_eq_ok_iff]
      exact ⟨_, hreg, rfl⟩
    | alloc hsize =>
      simp only [instruction, bind_eq_ok_iff, immediate_eq_ok_iff, pure_eq_ok_iff]
      exact ⟨_, hsize, rfl⟩
    | mov hreg =>
      simp only [instruction, if_true, bind_eq_ok_iff, registerIn_eq_ok_iff, pure_eq_ok_iff]
      exact ⟨_, hreg, rfl⟩
    | lea hreg hoffset hne =>
      simp only [instruction, if_neg hne, slot, bind_eq_ok_iff, registerIn_eq_ok_iff,
        immediate_eq_ok_iff, pure_eq_ok_iff]
      exact ⟨_, hreg, _, ⟨_, hoffset, rfl⟩, rfl⟩
    | store hreg hoffset =>
      simp only [instruction, Register.isXmm_of_gpNumber? hreg, slot, bind_eq_ok_iff,
        immediate_eq_ok_iff, pure_eq_ok_iff]
      refine ⟨_, ⟨_, hoffset, rfl⟩, ?_⟩
      simp only [Bool.false_eq_true, if_false, bind_eq_ok_iff, registerIn_eq_ok_iff, pure_eq_ok_iff]
      exact ⟨_, hreg, rfl⟩
    | storeXmm hreg hoffset =>
      simp only [instruction, Register.isXmm_of_xmmNumber? hreg, slot, bind_eq_ok_iff,
        immediate_eq_ok_iff, pure_eq_ok_iff]
      refine ⟨_, ⟨_, hoffset, rfl⟩, ?_⟩
      simp only [if_true, bind_eq_ok_iff, registerIn_eq_ok_iff, pure_eq_ok_iff]
      exact ⟨_, hreg, rfl⟩

/-- The length of an operation is that of its instruction. -/
theorem instructionLength_eq_ok_iff {op : PrologOp} {length : Nat} :
    op.instructionLength = .ok length ↔ ∃ i, op.PerformedBy i ∧ length = i.bytes.length := by
  simp only [instructionLength, bind_eq_ok_iff, instruction_eq_ok_iff, pure_eq_ok_iff]

/-- An operation is performed by one instruction only. -/
theorem PerformedBy.unique : Relator.RightUnique PerformedBy := by
  intro op i j hi hj
  rw [← instruction_eq_ok_iff] at hi hj
  rw [hi, Except.ok.injEq] at hj
  exact hj

end PrologOp

namespace Draft

/-- An operand of a bank is accepted with its number there. -/
theorem operandIn_eq_ok_iff {bank : UInt8} {r : Register} {n : RegNumber} :
    operandIn bank r = .ok n ↔ r.numberIn? bank = some n := by
  unfold operandIn
  cases r.numberIn? bank <;> simp

/-- An immediate is the value it stands for. -/
theorem immediate_eq_ok_iff {value : UInt32} {imm : Immediate} :
    immediate value = .ok imm ↔ imm.val = value.toNat := by
  unfold immediate
  split
  next h => simp [Fin.ext_iff, eq_comm]
  next h =>
    simp only [reduceCtorEq, false_iff]
    intro heq
    exact h (heq ▸ imm.isLt)

theorem gpOperand_rsp : gpOperand .rsp = .ok 4 := rfl

end Draft

namespace PrologOp

/-- The instruction that performs an operation, as a code generator asks for it. -/
def draft : PrologOp → Draft
  | push reg => .push reg
  | alloc size => .sub .rsp size
  | setFrame reg offset => if offset = 0 then .mov reg .rsp else .lea reg .rsp offset
  | save reg offset => .store .rsp offset reg

/-- The call on the encoder and the instruction that lengths are computed from are the same, and
    one exists exactly when the other does. -/
theorem check_draft_eq_ok_iff {op : PrologOp} {i : Instruction} :
    op.draft.check = .ok i ↔ op.PerformedBy i := by
  constructor
  · intro h
    cases op with
    | push reg =>
      simp only [draft, Draft.check, bind_eq_ok_iff, Draft.operandIn_eq_ok_iff, pure_eq_ok_iff] at h
      obtain ⟨n, hn, rfl⟩ := h
      exact .push hn
    | alloc size =>
      simp only [draft, Draft.check, Draft.gpOperand_rsp, bind_eq_ok_iff, Except.ok.injEq, exists_eq_left',
        Draft.immediate_eq_ok_iff, pure_eq_ok_iff] at h
      obtain ⟨imm, himm, rfl⟩ := h
      exact .alloc himm
    | setFrame reg offset =>
      by_cases hzero : offset = 0
      · subst offset
        simp only [draft, if_true, Draft.check, Draft.gpOperand_rsp, bind_eq_ok_iff, Except.ok.injEq,
          exists_eq_left', Draft.operandIn_eq_ok_iff, pure_eq_ok_iff] at h
        obtain ⟨n, hn, rfl⟩ := h
        exact .mov hn
      · simp only [draft, if_neg hzero, Draft.check, Draft.gpOperand_rsp, bind_eq_ok_iff,
          Except.ok.injEq, exists_eq_left', Draft.operandIn_eq_ok_iff, Draft.immediate_eq_ok_iff,
          pure_eq_ok_iff] at h
        obtain ⟨n, hn, imm, himm, rfl⟩ := h
        exact .lea hn himm hzero
    | save reg offset =>
      simp only [draft, Draft.check, Draft.gpOperand_rsp, bind_eq_ok_iff, Except.ok.injEq,
        exists_eq_left', Draft.immediate_eq_ok_iff] at h
      obtain ⟨imm, himm, h⟩ := h
      split at h
      · simp only [bind_eq_ok_iff, Draft.operandIn_eq_ok_iff, pure_eq_ok_iff] at h
        obtain ⟨n, hn, rfl⟩ := h
        exact .storeXmm hn himm
      · simp only [bind_eq_ok_iff, Draft.operandIn_eq_ok_iff, pure_eq_ok_iff] at h
        obtain ⟨n, hn, rfl⟩ := h
        exact .store hn himm
  · intro h
    cases h with
    | push hreg =>
      simp only [draft, Draft.check, bind_eq_ok_iff, Draft.operandIn_eq_ok_iff, pure_eq_ok_iff]
      exact ⟨_, hreg, rfl⟩
    | alloc hsize =>
      simp only [draft, Draft.check, Draft.gpOperand_rsp, bind_eq_ok_iff, Except.ok.injEq, exists_eq_left',
        Draft.immediate_eq_ok_iff, pure_eq_ok_iff]
      exact ⟨_, hsize, rfl⟩
    | mov hreg =>
      simp only [draft, if_true, Draft.check, Draft.gpOperand_rsp, bind_eq_ok_iff, Except.ok.injEq,
        exists_eq_left', Draft.operandIn_eq_ok_iff, pure_eq_ok_iff]
      exact ⟨_, hreg, rfl⟩
    | lea hreg hoffset hne =>
      simp only [draft, if_neg hne, Draft.check, Draft.gpOperand_rsp, bind_eq_ok_iff, Except.ok.injEq,
        exists_eq_left', Draft.operandIn_eq_ok_iff, Draft.immediate_eq_ok_iff, pure_eq_ok_iff]
      exact ⟨_, hreg, _, hoffset, rfl⟩
    | store hreg hoffset =>
      simp only [draft, Draft.check, Register.isXmm_of_gpNumber? hreg, Draft.gpOperand_rsp, bind_eq_ok_iff,
        Except.ok.injEq, exists_eq_left', Draft.immediate_eq_ok_iff]
      refine ⟨_, hoffset, ?_⟩
      simp only [Bool.false_eq_true, if_false, bind_eq_ok_iff, Draft.operandIn_eq_ok_iff, pure_eq_ok_iff]
      exact ⟨_, hreg, rfl⟩
    | storeXmm hreg hoffset =>
      simp only [draft, Draft.check, Register.isXmm_of_xmmNumber? hreg, Draft.gpOperand_rsp, bind_eq_ok_iff,
        Except.ok.injEq, exists_eq_left', Draft.immediate_eq_ok_iff]
      refine ⟨_, hoffset, ?_⟩
      simp only [if_true, bind_eq_ok_iff, Draft.operandIn_eq_ok_iff, pure_eq_ok_iff]
      exact ⟨_, hreg, rfl⟩

end PrologOp

end StackUnwind
