import StackUnwind.Proofs.Emission.Mirror
import StackUnwind.Proofs.Frame.Built

namespace StackUnwind

/-- Each register is saved once, and among the registers of its bank. -/
structure FrameLayout.SavesOnce (frame : FrameLayout) : Prop where
  nodup_registers : frame.savedRegisters.Nodup
  nodup_xmm : frame.savedXmm.Nodup
  registers_bank : ∀ reg ∈ frame.savedRegisters, reg.isXmm = false
  xmm_bank : ∀ reg ∈ frame.savedXmm, reg.isGp = false

private theorem FrameLayout.Built.savesOnce {frame : FrameLayout} (h : frame.Built) : frame.SavesOnce := by
  obtain ⟨hregisters, hxmm⟩ := h.nodup
  obtain ⟨hregistersBank, hxmmBank⟩ := h.banks
  refine ⟨hregisters, hxmm, hregistersBank, fun reg hreg => ?_⟩
  have hbank : reg.bank = Register.xmmBank := beq_iff_eq.1 (hxmmBank reg hreg)
  rw [Register.isGp, hbank]
  rfl

/-- A recorder has an encodable record of the prolog of a frame that was appended to the code from `start` to
    `stop`. -/
structure Recorder.Encodes (r : Recorder) (frame : FrameLayout) (start stop : Encoder) : Prop where
  info : ∀ codeLength, ∃ info, r.info .hot codeLength = .ok info
  short : ∃ lengths, r.ops.mapM PrologOp.instructionLength = .ok lengths ∧
    stop.code.size = start.code.size + lengths.sum ∧ lengths.sum ≤ 255
  alloc_size : ∀ size, .alloc size ∈ r.ops → 0 < size.toNat ∧ 8 ∣ size.toNat
  frame_once : r.ops.filterMap PrologOp.frame? = [(.rbp, frame.framePointerOffset)]
  frame_offset : 16 ∣ frame.framePointerOffset.toNat ∧ frame.framePointerOffset.toNat ≤ 240

private theorem PrologRun.encodes {start stop : UnitCode} {declared frame : FrameLayout} {log : PrologLog}
    {is : List Instruction} (h : PrologRun start stop declared frame log.ops is) (hbuilt : declared.Built) :
    (Recorder.x64 log).Encodes declared start.encoder stop.encoder := by
  have hexpressible := h.expressible hbuilt
  have hvalid := FrameLayout.canBeSetUp_iff.1 h.canBeSetUp
  have hpointer : frame.framePointerOffset = declared.framePointerOffset := by
    obtain ⟨size, -, rfl⟩ := FrameLayout.calculateFrameSize_eq_ok_iff.1 h.calculated
    rfl
  have hrecord : UnwindRecord.ofOps log.ops = .ok (UnwindRecord.recordOf log.ops is) :=
    UnwindRecord.ofOps_eq_ok_iff.2 ⟨is, hexpressible, rfl⟩
  rw [h.unit]
  refine ⟨fun codeLength => ?_, ?_, hexpressible.alloc_size, ?_, ?_⟩
  · exact ⟨_, Recorder.info_hot_eq_ok_iff.2 ⟨_, hrecord, rfl⟩⟩
  · refine ⟨_, UnwindRecord.Expressible.mapM_instructionLength h.performed, ?_, hexpressible.short⟩
    exact Encoder.size_code_appendAll ..
  · rw [← hpointer]
    exact h.filterMap_frame?
  · rw [← hpointer]
    exact ⟨hvalid.pointer_dvd, hvalid.pointer_le⟩

namespace Emission

/-- If the prolog of a frame that was made by calls is accepted, then so is its record, for any length of the code. -/
theorem record_of_built :
    (∀ x y : Emission Recorder, x.frame.Built → x.recorder = .fresh .x64 → prolog x = .ok () y →
      x.frame.SavesOnce ∧ y.recorder.Encodes x.frame x.unit.encoder y.unit.encoder) ∧
    ∀ x y : Emission Tracker, x.frame.Built → x.recorder = .fresh .x64 → prolog x = .ok () y →
      x.frame.SavesOnce ∧ y.recorder.recorder.Encodes x.frame x.unit.encoder y.unit.encoder := by
  constructor
  · intro x y hbuilt hfresh hprolog
    obtain ⟨log, is, hlog, hrun⟩ := prologRun_of_recorder hfresh hprolog
    rw [hlog]
    exact ⟨hbuilt.savesOnce, hrun.encodes hbuilt⟩
  · intro x y hbuilt hfresh hprolog
    obtain ⟨log, is, hlog, hrun⟩ := prologRun_of_tracker hfresh hprolog
    rw [hlog]
    exact ⟨hbuilt.savesOnce, hrun.encodes hbuilt⟩

theorem record_of_built_sample :
    ∃ y, prolog sample = .ok () y ∧ ∃ info, y.recorder.recorder.info .hot 100 = .ok info := by
  obtain ⟨y, hprolog, -, -⟩ := exists_prolog_sample
  obtain ⟨-, hencodes⟩ := record_of_built.2 sample y FrameLayout.built_sample rfl hprolog
  exact ⟨y, hprolog, hencodes.info 100⟩

end Emission

end StackUnwind
