import StackUnwind.Recorder
import StackUnwind.Proofs.UnwindRecord.Reading

namespace StackUnwind

/-- A record has at most 516 bytes, for 255 slots. -/
theorem UnwindRecord.Expressible.length_bytes_le {ops : List PrologOp} {is : List Instruction}
    (h : Expressible ops is) : (recordOf ops is).bytes.length ≤ 516 := by
  have hslots := slotCount_le_totalLength h.performed
  have hshort := h.short
  rw [h.length_bytes, encodedSize, headerSize]
  omega

private theorem PrologOp.slotCount_le (op : PrologOp) : op.slotCount ≤ 3 := by
  cases op with
  | push | setFrame => exact Nat.le_add_left 1 2
  | alloc | save =>
    rw [slotCount]
    repeat' split
    all_goals omega

/-- There are at most three slots for each operation. -/
theorem UnwindRecord.slotCount_le (ops : List PrologOp) : slotCount ops ≤ 3 * ops.length := by
  induction ops with
  | nil => simp [slotCount]
  | cons op ops ih =>
    have hop := op.slotCount_le
    simp only [slotCount_eq_sum, List.map_cons, List.sum_cons, List.length_cons] at ih ⊢
    omega

namespace Recorder

/-- The hot record of x64 is made from the log. -/
theorem info_hot_eq_ok_iff {log : PrologLog} {codeLength : UInt32} {info : UnwindInfo} :
    (x64 log).info .hot codeLength = .ok info ↔
      ∃ record, UnwindRecord.ofOps log.ops = .ok record ∧ info = ⟨codeLength, record.bytes⟩ := by
  simp only [Recorder.info, bind_eq_ok_iff, pure_eq_ok_iff]

/-- A record for some code has as many bytes as were announced before the length of the code was known. -/
theorem of_info_eq_ok {r : Recorder} {region : Region} {codeLength : UInt32} {info : UnwindInfo}
    (h : r.info region codeLength = .ok info) :
    info.codeLength = codeLength ∧ info.bytes.length = r.infoSize region ∧ info.bytes.length ≤ 516 := by
  cases r with
  | x86 =>
    cases h
    exact ⟨rfl, length_littleEndian .., by simp [x86Size]⟩
  | x64 log =>
    cases region with
    | hot =>
      obtain ⟨record, hrecord, rfl⟩ := info_hot_eq_ok_iff.1 h
      obtain ⟨is, hexpressible, rfl⟩ := UnwindRecord.ofOps_eq_ok_iff.1 hrecord
      exact ⟨rfl, hexpressible.length_bytes, hexpressible.length_bytes_le⟩
    | cold =>
      cases h
      exact ⟨rfl, rfl, show UnwindRecord.ofCold.bytes.length ≤ 516 by decide⟩

/-- Whether there is a record does not depend on how much code it is for. -/
theorem info_ne_error {r : Recorder} {region : Region} {codeLength codeLength' : UInt32} {info : UnwindInfo}
    {stop : Stop RecordError} (h : r.info region codeLength = .ok info) : r.info region codeLength' ≠ .error stop := by
  intro hfails
  cases r with
  | x86 => cases hfails
  | x64 log =>
    cases region with
    | hot =>
      obtain ⟨record, hrecord, -⟩ := info_hot_eq_ok_iff.1 h
      rw [Recorder.info, hrecord] at hfails
      cases hfails
    | cold => cases hfails

/-- A prolog without a record is not a broken contract. -/
theorem info_ne_fault (r : Recorder) (region : Region) (codeLength : UInt32) (fault : Fault) :
    r.info region codeLength ≠ .error (.fault fault) := by
  intro hfault
  cases r with
  | x86 => cases hfault
  | x64 log =>
    cases region with
    | hot =>
      simp only [Recorder.info, bind_eq_error_iff, pure_eq_error_iff, and_false, exists_false, or_false] at hfault
      exact UnwindRecord.ofOps_ne_fault log.ops fault hfault
    | cold => cases hfault

/-- No record is shorter than one that holds the length only. -/
theorem four_le_infoSize (r : Recorder) (region : Region) : 4 ≤ r.infoSize region := by
  cases r with
  | x86 => exact Nat.le_refl 4
  | x64 log =>
    cases region with
    | hot => exact Nat.le_add_right 4 _
    | cold => exact Nat.le_refl 4

end Recorder

end StackUnwind
