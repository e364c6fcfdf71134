import StackUnwind.Proofs.UnwindRecord.Scan

namespace StackUnwind

namespace Register

/-- Whether a handle names one of the registers of a bank. -/
def NamesIn (r : Register) (bank : UInt8) : Prop := r.bank = bank ∧ r.id.toNat < 16

instance (r : Register) (bank : UInt8) : Decidable (r.NamesIn bank) := inferInstanceAs (Decidable (_ ∧ _))

/-- Whether a handle names one of the general purpose registers. -/
abbrev NamesGp (r : Register) : Prop := r.NamesIn gpBank

/-- Whether a handle names one of the vector registers. -/
abbrev NamesXmm (r : Register) : Prop := r.NamesIn xmmBank

private theorem exists_number?_iff {r : Register} : (∃ n, r.number? = some n) ↔ r.id.toNat < 16 := by
  simp only [number?_eq_some_iff]
  constructor
  · rintro ⟨n, hn⟩
    exact hn ▸ n.isLt
  · intro h
    exact ⟨⟨r.id.toNat, h⟩, rfl⟩

/-- A register has a number in a bank exactly if it names one of its registers. -/
theorem exists_numberIn?_iff {r : Register} {bank : UInt8} : (∃ n, r.numberIn? bank = some n) ↔ r.NamesIn bank := by
  unfold numberIn? NamesIn
  by_cases hbank : r.bank = bank <;> simp [hbank, exists_number?_iff]

private theorem numberIn?_eq_none_iff {r : Register} {bank : UInt8} : r.numberIn? bank = none ↔ ¬ r.NamesIn bank := by
  rw [← exists_numberIn?_iff, Option.eq_none_iff_forall_ne_some, not_exists]

/-- A register belongs to one bank. -/
theorem NamesGp.isXmm {r : Register} (h : r.NamesGp) : r.isXmm = false := by
  obtain ⟨n, hn⟩ := exists_numberIn?_iff.2 h
  exact isXmm_of_gpNumber? hn

end Register

/-- A condition that an operation of a prolog has to meet. -/
inductive Demand where
  /-- The register is a general purpose one. -/
  | gp (reg : Register)
  /-- The register is a vector register. -/
  | xmm (reg : Register)
  /-- The size or offset can be an immediate. -/
  | immediate (value : UInt32)
  /-- The prolog takes so many bytes up to the end of the operation, which is not too much. -/
  | short (size : Nat)
  /-- An unwind code undoes an allocation of this size. -/
  | allocation (size : UInt32)
  /-- So many frame registers have been established before, that is none. -/
  | firstFrame (established : Nat)
  /-- A record can hold this offset of the frame register. -/
  | frameOffset (offset : UInt32)
  deriving DecidableEq, Repr

namespace Demand

/-- What is reported when a demand is not met. -/
def error? : Demand → Option RecordError
  | gp reg => if reg.NamesGp then none else some (.notGeneralPurpose reg)
  | xmm reg => if reg.NamesXmm then none else some (.notVector reg)
  | immediate value => if value.toNat < 2 ^ 31 then none else some (.immediateTooLarge value)
  | short size => if size ≤ 255 then none else some (.prologTooLong (.ofNat size))
  | allocation size => if 0 < size.toNat ∧ 8 ∣ size.toNat then none else some (.allocationSize size)
  | firstFrame established => if established = 0 then none else some .frameTwice
  | frameOffset offset => if 16 ∣ offset.toNat ∧ offset.toNat ≤ 240 then none else some (.frameOffset offset)

/-- No demand is about the number of slots. -/
theorem error?_ne_tooManySlots (demand : Demand) (slots : Nat) : demand.error? ≠ some (.tooManySlots slots) := by
  cases demand <;> simp [error?]

end Demand

namespace PrologOp

/-- What the instruction of an operation demands of its operands, in the order in which they are checked. -/
def operandDemands : PrologOp → List Demand
  | push reg => [.gp reg]
  | alloc size => [.immediate size]
  | setFrame reg offset => [.gp reg, .immediate offset]
  | save reg offset => [.immediate offset, if reg.isXmm then .xmm reg else .gp reg]

/-- What the unwind code of an operation demands after the operations before it. -/
def codeDemands (before : List PrologOp) : PrologOp → List Demand
  | alloc size => [.allocation size]
  | setFrame _ offset => [.firstFrame (before.filterMap frame?).length, .frameOffset offset]
  | push _ | save _ _ => []

private theorem registerIn_eq_error_iff {bank : UInt8} {error : Register → RecordError} {r : Register}
    {e : RecordError} :
    registerIn bank error r = .error e ↔ (if r.NamesIn bank then none else some (error r)) = some e := by
  unfold registerIn
  by_cases h : r.NamesIn bank
  · obtain ⟨n, hn⟩ := Register.exists_numberIn?_iff.2 h
    simp [hn, h]
  · simp [Register.numberIn?_eq_none_iff.2 h, h]

private theorem gpRegister_eq_error_iff {r : Register} {e : RecordError} :
    gpRegister r = .error e ↔ (Demand.gp r).error? = some e := registerIn_eq_error_iff

private theorem xmmRegister_eq_error_iff {r : Register} {e : RecordError} :
    xmmRegister r = .error e ↔ (Demand.xmm r).error? = some e := registerIn_eq_error_iff

private theorem immediate_eq_error_iff {value : UInt32} {e : RecordError} :
    immediate value = .error e ↔ (Demand.immediate value).error? = some e := by
  unfold immediate Demand.error?
  by_cases h : value.toNat < 0x80000000 <;> simp [h]

private theorem exists_gpRegister_iff {r : Register} : (∃ n, gpRegister r = .ok n) ↔ (Demand.gp r).error? = none := by
  simp only [registerIn_eq_ok_iff, Register.exists_numberIn?_iff, Demand.error?, ite_eq_left_iff, reduceCtorEq, imp_false,
    not_not]

private theorem exists_immediate_iff {value : UInt32} :
    (∃ imm, immediate value = .ok imm) ↔ (Demand.immediate value).error? = none := by
  unfold immediate Demand.error?
  by_cases h : value.toNat < 0x80000000 <;> simp [h]

private theorem slot_eq_error_iff {offset : UInt32} {e : RecordError} :
    slot offset = .error e ↔ (Demand.immediate offset).error? = some e := by
  simp only [slot, bind_eq_error_iff, pure_eq_error_iff, immediate_eq_error_iff, and_false, exists_false, or_false]

private theorem exists_slot_iff {offset : UInt32} :
    (∃ place, slot offset = .ok place) ↔ (Demand.immediate offset).error? = none := by
  rw [← exists_immediate_iff]
  simp only [slot, bind_eq_ok_iff, pure_eq_ok_iff]
  constructor
  · rintro ⟨_, imm, himm, rfl⟩
    exact ⟨imm, himm⟩
  · rintro ⟨imm, himm⟩
    exact ⟨_, imm, himm, rfl⟩

/-- An operation has no instruction because of the first of its operands that does not meet its demand. -/
theorem instruction_eq_error_iff {op : PrologOp} {e : RecordError} :
    op.instruction = .error e ↔ op.operandDemands.findSome? Demand.error? = some e := by
  cases op with
  | push reg =>
    simp only [instruction, operandDemands, bind_eq_error_iff, pure_eq_error_iff, gpRegister_eq_error_iff,
      findSome?_cons_eq_some_iff, List.findSome?_nil, reduceCtorEq, and_false, exists_false, or_false]
  | alloc size =>
    simp only [instruction, operandDemands, bind_eq_error_iff, pure_eq_error_iff, immediate_eq_error_iff,
      findSome?_cons_eq_some_iff, List.findSome?_nil, reduceCtorEq, and_false, exists_false, or_false]
  | setFrame reg offset =>
    simp only [instruction, operandDemands, findSome?_cons_eq_some_iff, List.findSome?_nil, reduceCtorEq, and_false,
      or_false]
    -- At offset zero the instruction has no immediate, but zero would meet the demand anyway.
    by_cases hzero : offset = 0
    · have hnone : (Demand.immediate offset).error? = none := by simp [Demand.error?, hzero]
      rw [if_pos hzero, hnone]
      simp only [bind_eq_error_iff, pure_eq_error_iff, gpRegister_eq_error_iff, reduceCtorEq, and_false, exists_false,
        or_false]
    · simp only [if_neg hzero, bind_eq_error_iff, pure_eq_error_iff, gpRegister_eq_error_iff, slot_eq_error_iff,
        and_false, exists_false, or_false, ← exists_gpRegister_iff, exists_and_right]
  | save reg offset =>
    simp only [instruction, operandDemands, bind_eq_error_iff, slot_eq_error_iff, findSome?_cons_eq_some_iff,
      List.findSome?_nil, reduceCtorEq, and_false, or_false, ← exists_slot_iff]
    by_cases hxmm : reg.isXmm = true
    · simp only [if_pos hxmm, bind_eq_error_iff, pure_eq_error_iff, xmmRegister_eq_error_iff, and_false, exists_false,
        or_false, exists_and_right]
    · simp only [if_neg hxmm, bind_eq_error_iff, pure_eq_error_iff, gpRegister_eq_error_iff, and_false, exists_false,
        or_false, exists_and_right]

/-- The length of an operation is unknown because of the first demand that is not met. -/
theorem instructionLength_eq_error_iff {op : PrologOp} {e : RecordError} :
    op.instructionLength = .error e ↔ op.operandDemands.findSome? Demand.error? = some e := by
  simp only [instructionLength, bind_eq_error_iff, instruction_eq_error_iff, pure_eq_error_iff, and_false, exists_false,
    or_false]

/-- Whether the operands of an operation are such that an instruction performs it. -/
def Encodable : PrologOp → Prop
  | push reg => reg.NamesGp
  | alloc size => size.toNat < 2 ^ 31
  | setFrame reg offset => reg.NamesGp ∧ offset.toNat < 2 ^ 31
  | save reg offset => (reg.NamesGp ∨ reg.NamesXmm) ∧ offset.toNat < 2 ^ 31

/-- An operation can be encoded exactly if there is an instruction for it. -/
theorem encodable_iff_exists_performedBy {op : PrologOp} : op.Encodable ↔ ∃ i, op.PerformedBy i := by
  constructor
  · intro h
    cases op with
    | push reg =>
      obtain ⟨n, hn⟩ := Register.exists_numberIn?_iff.2 h
      exact ⟨_, .push hn⟩
    | alloc size => exact ⟨_, @PerformedBy.alloc _ ⟨size.toNat, h⟩ rfl⟩
    | setFrame reg offset =>
      obtain ⟨hreg, hoffset⟩ := h
      obtain ⟨n, hn⟩ := Register.exists_numberIn?_iff.2 hreg
      by_cases hzero : offset = 0
      · subst offset
        exact ⟨_, .mov hn⟩
      · exact ⟨_, @PerformedBy.lea _ _ _ ⟨offset.toNat, hoffset⟩ hn rfl hzero⟩
    | save reg offset =>
      obtain ⟨hreg | hreg, hoffset⟩ := h
      · obtain ⟨n, hn⟩ := Register.exists_numberIn?_iff.2 hreg
        exact ⟨_, @PerformedBy.store _ _ _ ⟨offset.toNat, hoffset⟩ hn rfl⟩
      · obtain ⟨n, hn⟩ := Register.exists_numberIn?_iff.2 hreg
        exact ⟨_, @PerformedBy.storeXmm _ _ _ ⟨offset.toNat, hoffset⟩ hn rfl⟩
  · rintro ⟨i, hi⟩
    cases hi with
    | push hreg => exact Register.exists_numberIn?_iff.1 ⟨_, hreg⟩
    | @alloc size imm hsize => exact hsize.symm.trans_lt imm.isLt
    | mov hreg => exact ⟨Register.exists_numberIn?_iff.1 ⟨_, hreg⟩, by decide⟩
    | @lea reg n offset imm hreg hoffset =>
      exact ⟨Register.exists_numberIn?_iff.1 ⟨_, hreg⟩, hoffset.symm.trans_lt imm.isLt⟩
    | @store reg n offset imm hreg hoffset =>
      exact ⟨.inl (Register.exists_numberIn?_iff.1 ⟨_, hreg⟩), hoffset.symm.trans_lt imm.isLt⟩
    | @storeXmm reg n offset imm hreg hoffset =>
      exact ⟨.inr (Register.exists_numberIn?_iff.1 ⟨_, hreg⟩), hoffset.symm.trans_lt imm.isLt⟩

/-- The length of an operation is known exactly if it can be encoded. -/
theorem exists_instructionLength_iff {op : PrologOp} :
    (∃ length, op.instructionLength = .ok length) ↔ op.Encodable := by
  simp only [instructionLength_eq_ok_iff, encodable_iff_exists_performedBy]
  rw [exists_comm]
  simp only [exists_eq_right]

/-- Operations have instructions exactly if each of them has one. -/
theorem exists_performed_iff {ops : List PrologOp} :
    (∃ is, List.Forall₂ PerformedBy ops is) ↔ ∀ op ∈ ops, op.Encodable := by
  induction ops with
  | nil => simp
  | cons op ops ih =>
    rw [List.forall_mem_cons, ← ih, encodable_iff_exists_performedBy]
    constructor
    · rintro ⟨_, h⟩
      obtain ⟨i, is, hi, his, -⟩ := List.forall₂_cons_left_iff.1 h
      exact ⟨⟨i, hi⟩, is, his⟩
    · rintro ⟨⟨i, hi⟩, is, his⟩
      exact ⟨i :: is, .cons hi his⟩

end PrologOp

end StackUnwind
