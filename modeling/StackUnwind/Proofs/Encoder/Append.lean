import StackUnwind.Encoder
import StackUnwind.Proofs.Instruction.Operands
import StackUnwind.Proofs.UnwindRecord.Scan

namespace StackUnwind

namespace Encoder

/-- Append instructions one after another. -/
def appendAll (e : Encoder) (is : List Instruction) : Encoder := is.foldl append e

/-- Append the instructions that drafts stand for, as a code generator asks for them. -/
def emitAll (drafts : List Draft) : EncoderM Unit := drafts.forM emit

section Emit

variable {e e' : Encoder} {draft : Draft} {u : Unit} {err : EncodeError}

/-- An instruction is appended, or everything stays as it is. -/
theorem emit_eq (draft : Draft) (e : Encoder) :
    emit draft e = match draft.check with
      | .ok i => .ok () (e.append i)
      | .error err => .error err e := by
  simp only [emit, bind, EStateM.bind]
  cases draft.check <;> rfl

/-- An instruction is appended exactly if its operands pass the check. -/
theorem emit_eq_ok_iff : emit draft e = .ok u e' ↔ ∃ i, draft.check = .ok i ∧ e' = e.append i := by
  rw [emit_eq]
  cases draft.check <;> simp [eq_comm]

/-- Otherwise the fault is returned, together with the encoder as it was. -/
theorem emit_eq_error_iff : emit draft e = .error err e' ↔ draft.fault? = some err ∧ e' = e := by
  rw [emit_eq, ← Draft.check_eq_error_iff]
  cases draft.check <;> simp [eq_comm]

/-- Instructions are appended one by one, each of which has to pass the check. -/
theorem emitAll_eq_ok_iff {drafts : List Draft} :
    emitAll drafts e = .ok u e' ↔
      ∃ is, List.Forall₂ (fun draft i => draft.check = .ok i) drafts is ∧ e' = e.appendAll is := by
  induction drafts generalizing e with
  | nil => simp [emitAll, appendAll, run_pure_eq_ok_iff]
  | cons draft drafts ih =>
    have hcons : emitAll (draft :: drafts) = emit draft >>= fun _ => emitAll drafts := rfl
    simp only [hcons, run_bind_eq_ok_iff, emit_eq_ok_iff, ih, List.forall₂_cons_left_iff]
    constructor
    · rintro ⟨_, _, ⟨i, hi, rfl⟩, is, his, rfl⟩
      exact ⟨i :: is, ⟨i, is, hi, his, rfl⟩, rfl⟩
    · rintro ⟨_, ⟨i, is, hi, his, rfl⟩, rfl⟩
      exact ⟨(), _, ⟨i, hi, rfl⟩, is, his, rfl⟩

end Emit

@[simp] theorem labels_appendAll (e : Encoder) (is : List Instruction) : (e.appendAll is).labels = e.labels := by
  induction is generalizing e with
  | nil => rfl
  | cons i is ih => exact ih (e.append i)

/-- Instructions are appended in order. -/
theorem code_appendAll (e : Encoder) (is : List Instruction) :
    (e.appendAll is).code = e.code ++ (is.flatMap Instruction.bytes).toArray := by
  induction is generalizing e with
  | nil => simp [appendAll]
  | cons i is ih =>
    change ((e.append i).appendAll is).code = _
    simp [ih, append]

theorem size_code_appendAll (e : Encoder) (is : List Instruction) :
    (e.appendAll is).code.size = e.code.size + Instruction.totalLength is := by
  simp [code_appendAll, Instruction.totalLength, List.length_flatMap]

end Encoder

end StackUnwind
