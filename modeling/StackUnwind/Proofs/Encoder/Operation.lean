import StackUnwind.Proofs.Encoder.Append
import StackUnwind.Proofs.Encoder.Labels
import StackUnwind.Proofs.Instruction.Operands
import StackUnwind.Proofs.Prolog.Demands

namespace StackUnwind

/-- What an encoder reports of the operand that keeps an operation from having an instruction. -/
def RecordError.encodeError? : RecordError → Option EncodeError
  | notGeneralPurpose _ | notVector _ => some .invalidRegister
  | immediateTooLarge value => some (.immediateOutOfRange value)
  | prologTooLong _ | allocationSize _ | frameTwice | frameOffset _ | tooManySlots _ => none

namespace Demand

/-- What an encoder reports of an operand that does not meet a demand. It knows nothing of records, so it makes no other
    demands. -/
def encodeError? : Demand → Option EncodeError
  | gp reg => if reg.NamesGp then none else some .invalidRegister
  | xmm reg => if reg.NamesXmm then none else some .invalidRegister
  | immediate value => if value.toNat < 2 ^ 31 then none else some (.immediateOutOfRange value)
  | short _ | allocation _ | firstFrame _ | frameOffset _ => none

private theorem encodeError?_eq_bind (d : Demand) : d.encodeError? = d.error?.bind RecordError.encodeError? := by
  cases d <;> simp only [encodeError?, error?] <;> split <;> rfl

/-- What is wrong with an operand of an operation is always something that an encoder reports as well. -/
theorem error?_eq_none_of_mem {op : PrologOp} {d : Demand} (hd : d ∈ op.operandDemands) (h : d.encodeError? = none) :
    d.error? = none := by
  cases d with
  | gp reg | xmm reg | immediate value =>
    simp only [encodeError?, ite_eq_left_iff, reduceCtorEq, imp_false, not_not] at h
    exact if_pos h
  | short | allocation | firstFrame | frameOffset =>
    cases op with
    | push | alloc | setFrame => simp [PrologOp.operandDemands] at hd
    | save reg offset =>
      simp only [PrologOp.operandDemands, List.mem_cons, reduceCtorEq, List.not_mem_nil, or_false, false_or] at hd
      split at hd <;> cases hd

/-- Where an encoder has a word for every demand, it speaks of the first one that is not met, too. -/
theorem findSome?_encodeError? {demands : List Demand} (h : ∀ d ∈ demands, d.encodeError? = none → d.error? = none) :
    demands.findSome? encodeError? = (demands.findSome? error?).bind RecordError.encodeError? := by
  induction demands with
  | nil => rfl
  | cons d demands ih =>
    have htail := ih fun d' hd' => h d' (List.mem_cons_of_mem d hd')
    rw [List.findSome?_cons, List.findSome?_cons]
    cases herror : d.error? with
    | none =>
      have hnone : d.encodeError? = none := by rw [encodeError?_eq_bind, herror, Option.bind_none]
      rw [hnone]
      exact htail
    | some cause =>
      have heq : d.encodeError? = cause.encodeError? := by rw [encodeError?_eq_bind, herror, Option.bind_some]
      cases hencode : d.encodeError? with
      | none => cases herror.symm.trans (h d List.mem_cons_self hencode)
      | some err => exact hencode.symm.trans heq

end Demand

namespace Draft

private theorem fault?_gp (r : Register) : (Operand.gp r).fault? = (Demand.gp r).encodeError? := by
  have hnames : r.gpNumber?.isSome = true ↔ r.NamesGp := by
    rw [Option.isSome_iff_exists, Register.exists_numberIn?_iff]
  simp only [Operand.fault?, hnames, Demand.encodeError?]

private theorem fault?_immediate (value : UInt32) :
    (Operand.immediate value).fault? = (Demand.immediate value).encodeError? := rfl

/-- A register that is stored has to be one of its own bank. -/
theorem fault?_either (r : Register) :
    (Operand.either r).fault? = (if r.isXmm then Demand.xmm r else Demand.gp r).encodeError? := by
  have hnames : r.gpNumber?.isSome = true ∨ r.xmmNumber?.isSome = true ↔ r.NamesGp ∨ r.NamesXmm := by
    rw [Option.isSome_iff_exists, Option.isSome_iff_exists, Register.exists_numberIn?_iff,
      Register.exists_numberIn?_iff]
  by_cases hxmm : r.isXmm = true
  · have hgp : ¬ r.NamesGp := fun h => Bool.false_ne_true (h.isXmm.symm.trans hxmm)
    simp only [Operand.fault?, hnames, hgp, false_or, if_pos hxmm, Demand.encodeError?]
  · have hnot : ¬ r.NamesXmm := fun h => hxmm (beq_iff_eq.2 h.1)
    simp only [Operand.fault?, hnames, hnot, or_false, if_neg hxmm, Demand.encodeError?]

end Draft

namespace PrologOp

private theorem encodeError?_rsp : (Demand.gp .rsp).encodeError? = none := rfl

private theorem encodeError?_zero : (Demand.immediate 0).encodeError? = none := rfl

/-- The call for an operation makes the same demands on the operands, in the same order, as the instruction that the
    length is taken from. The stack pointer, which only the call names, meets them, and so does an offset of zero,
    which neither looks at. -/
theorem fault?_draft (op : PrologOp) :
    op.draft.fault? = (op.operandDemands.findSome? Demand.error?).bind RecordError.encodeError? := by
  rw [← Demand.findSome?_encodeError? fun d => Demand.error?_eq_none_of_mem]
  cases op with
  | push reg | alloc size | save reg offset =>
    simp only [draft, Draft.fault?, Draft.operands, operandDemands, List.findSome?_cons, List.findSome?_nil,
      Draft.fault?_gp, Draft.fault?_immediate, Draft.fault?_either, encodeError?_rsp]
  | setFrame reg offset =>
    by_cases hzero : offset = 0
    · subst offset
      simp only [draft, if_true, Draft.fault?, Draft.operands, operandDemands, List.findSome?_cons,
        List.findSome?_nil, Draft.fault?_gp, encodeError?_rsp, encodeError?_zero]
    · simp only [draft, if_neg hzero, Draft.fault?, Draft.operands, operandDemands, List.findSome?_cons,
        List.findSome?_nil, Draft.fault?_gp, Draft.fault?_immediate, encodeError?_rsp]

end PrologOp

namespace Encoder

variable {e e' : Encoder} {op : PrologOp}

private theorem emit_draft_eq_ok_iff : emit op.draft e = .ok () e' ↔ ∃ i, op.PerformedBy i ∧ e' = e.append i := by
  simp only [emit_eq_ok_iff, PrologOp.check_draft_eq_ok_iff]

private theorem exists_emit_draft_iff : (∃ e', emit op.draft e = .ok () e') ↔ op.Encodable := by
  simp only [emit_draft_eq_ok_iff, PrologOp.encodable_iff_exists_performedBy]
  rw [exists_comm]
  simp only [exists_eq_right]

/-- An encoder with more code than before: the bytes follow those that were there, no label has moved, and code that is
    assembled then shows no other difference. -/
structure Appended (before after : Encoder) (bytes : List UInt8) : Prop where
  code : after.code.toList = before.code.toList ++ bytes
  labels : after.labels = before.labels
  assemble : verdict (Encoder.assemble after) =
    (fun a => { a with code := a.code ++ bytes.toArray }) <$> verdict (Encoder.assemble before)

private theorem appended_append (e : Encoder) (i : Instruction) : e.Appended (e.append i) i.bytes where
  code := by simp [append]
  labels := rfl
  assemble := by
    have hoffsets : (e.append i).labelOffsets = e.labelOffsets := rfl
    simp only [verdict, assemble_eq, hoffsets]
    cases e.labelOffsets <;> rfl

end Encoder

namespace PrologOp

/-- The length of an operation is known exactly when an encoder accepts the call for it, whatever the encoder holds,
    and then it is the number of bytes that the call appends. Otherwise the encoder reports what keeps the length from
    being known, and is left as it was. -/
theorem emitted_as_measured (op : PrologOp) (e : Encoder) :
    ((∃ length, op.instructionLength = .ok length) ↔ ∃ e', Encoder.emit op.draft e = .ok () e') ∧
    ((∃ e', Encoder.emit op.draft e = .ok () e') ↔ op.Encodable) ∧
    (∀ length e', op.instructionLength = .ok length → Encoder.emit op.draft e = .ok () e' →
      ∃ i, op.PerformedBy i ∧ e.Appended e' i.bytes ∧ i.bytes.length = length ∧
        1 ≤ length ∧ length ≤ 9 ∧ op.slotCount ≤ length) ∧
    ∀ cause err e', op.instructionLength = .error cause → Encoder.emit op.draft e = .error err e' →
      cause.encodeError? = some err ∧ e' = e := by
  refine ⟨exists_instructionLength_iff.trans Encoder.exists_emit_draft_iff.symm, Encoder.exists_emit_draft_iff, ?_, ?_⟩
  · intro length e' hlength hemit
    obtain ⟨i, hi, rfl⟩ := instructionLength_eq_ok_iff.1 hlength
    obtain ⟨j, hj, rfl⟩ := Encoder.emit_draft_eq_ok_iff.1 hemit
    obtain rfl : j = i := PerformedBy.unique hj hi
    obtain ⟨hpos, hle⟩ := Instruction.length_bytes_bounds j
    exact ⟨j, hj, e.appended_append j, rfl, hpos, hle, hj.slotCount_le_length⟩
  · intro cause err e' hlength hemit
    rw [instructionLength_eq_error_iff] at hlength
    rw [Encoder.emit_eq_error_iff, fault?_draft, hlength, Option.bind_some] at hemit
    exact hemit

/-- An encoder with code, a label that has been placed and one that has not. -/
def busyEncoder : Encoder := ⟨#[0x90], #[some 1, none]⟩

/-- A store that takes the longest instruction, and one with two faulty operands. -/
theorem emitted_as_measured_saves :
    ((save (.xmm 15) 128).instructionLength = .ok 9 ∧
      ∃ e', Encoder.emit (save (.xmm 15) 128).draft busyEncoder = .ok () e' ∧
      e'.code = #[0x90, 0x44, 0x0F, 0x29, 0xBC, 0x24, 0x80, 0x00, 0x00, 0x00] ∧
      ∃ i, (save (.xmm 15) 128).PerformedBy i ∧ busyEncoder.Appended e' i.bytes ∧ i.bytes.length = 9) ∧
    ∃ cause err, (save (.gp 16) 0x80000000).instructionLength = .error cause ∧
      Encoder.emit (save (.gp 16) 0x80000000).draft busyEncoder = .error err busyEncoder ∧
        cause.encodeError? = some err := by
  have hlength : (save (.xmm 15) 128).instructionLength = .ok 9 := by rfl
  have hemit : Encoder.emit (save (.xmm 15) 128).draft busyEncoder =
      .ok () ⟨#[0x90, 0x44, 0x0F, 0x29, 0xBC, 0x24, 0x80, 0x00, 0x00, 0x00], #[some 1, none]⟩ := by rfl
  obtain ⟨-, -, hmeasured, -⟩ := emitted_as_measured (save (.xmm 15) 128) busyEncoder
  obtain ⟨i, hi, happended, hbytes, -⟩ := hmeasured 9 _ hlength hemit
  have hlength' : (save (.gp 16) 0x80000000).instructionLength = .error (.immediateTooLarge 0x80000000) := by rfl
  have hemit' : Encoder.emit (save (.gp 16) 0x80000000).draft busyEncoder =
      .error (.immediateOutOfRange 0x80000000) busyEncoder := by rfl
  obtain ⟨-, -, -, hrefused⟩ := emitted_as_measured (save (.gp 16) 0x80000000) busyEncoder
  refine ⟨⟨hlength, _, hemit, rfl, i, hi, happended, hbytes⟩, _, _, hlength', hemit', ?_⟩
  exact (hrefused _ _ _ hlength' hemit').1

end PrologOp

end StackUnwind
