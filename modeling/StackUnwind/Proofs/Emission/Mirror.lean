import StackUnwind.Proofs.Emission.Prolog
import StackUnwind.Proofs.Recorder.Record

namespace StackUnwind

namespace Recorder

/-- The operations that are remembered of a prolog. -/
def ops : Recorder → List PrologOp
  | x86 => []
  | x64 log => log.ops

@[simp] private theorem ops_x64 (log : PrologLog) : (x64 log).ops = log.ops := rfl

/-- What a recorder remembers of a prolog is what was appended to the code from `start` to `stop`. The
    operations are the calls on the encoder in order, and their lengths, computed from the log alone,
    give the end of each instruction. The record agrees in the length of the prolog and in the offsets
    of its codes. -/
structure Mirrors (r : Recorder) (start stop : Encoder) : Prop where
  calls : Encoder.emitAll (r.ops.map PrologOp.draft) start = .ok () stop
  ends : ∃ lengths, r.ops.mapM PrologOp.instructionLength = .ok lengths ∧
    ∀ count ≤ r.ops.length, ∃ e, Encoder.emitAll ((r.ops.take count).map PrologOp.draft) start = .ok () e ∧
      e.code.size = start.code.size + (lengths.take count).sum
  record : ∀ codeLength info, r.info .hot codeLength = .ok info → ∃ size image,
    info.bytes[1]? = some size ∧ stop.code.size = start.code.size + size.toNat ∧
    RecordImage.read info.bytes = some image ∧
    ∀ offset, offset ∈ image.codes.map (·.offset.toNat) ↔ ∃ count < r.ops.length, ∃ e,
      Encoder.emitAll ((r.ops.take (count + 1)).map PrologOp.draft) start = .ok () e ∧
        e.code.size = start.code.size + offset

end Recorder

namespace Encoder

/-- The calls for some operations succeed with the instructions that perform them. -/
theorem emitAll_of_performed {ops : List PrologOp} {is : List Instruction} (e : Encoder)
    (h : List.Forall₂ PrologOp.PerformedBy ops is) :
    emitAll (ops.map PrologOp.draft) e = .ok () (e.appendAll is) := by
  rw [emitAll_eq_ok_iff]
  refine ⟨is, ?_, rfl⟩
  rw [List.forall₂_map_left_iff]
  exact h.imp fun op i hop => PrologOp.check_draft_eq_ok_iff.2 hop

end Encoder

namespace Recorder

variable {log : PrologLog} {is : List Instruction}

private theorem mirrors_of_performed (start : Encoder) (h : List.Forall₂ PrologOp.PerformedBy log.ops is) :
    (x64 log).Mirrors start (start.appendAll is) := by
  have hprefix (count : Nat) : Encoder.emitAll ((log.ops.take count).map PrologOp.draft) start =
      .ok () (start.appendAll (is.take count)) :=
    start.emitAll_of_performed (List.forall₂_take count h)
  refine ⟨start.emitAll_of_performed h, ⟨_, UnwindRecord.Expressible.mapM_instructionLength h, ?_⟩, ?_⟩
  · intro count hcount
    refine ⟨_, hprefix count, ?_⟩
    rw [Encoder.size_code_appendAll, Instruction.totalLength, List.map_take]
  · intro codeLength info hinfo
    obtain ⟨record, hrecord, rfl⟩ := info_hot_eq_ok_iff.1 hinfo
    obtain ⟨is', his', rfl⟩ := UnwindRecord.ofOps_eq_ok_iff.1 hrecord
    obtain rfl : is' = is := List.right_unique_forall₂' PrologOp.PerformedBy.unique his'.performed h
    refine ⟨_, _, rfl, ?_, his'.read_bytes, ?_⟩
    · rw [Encoder.size_code_appendAll]
      exact congrArg _ his'.image_recordOf_prologSize.symm
    · intro offset
      rw [his'.offsets_codes, List.mem_reverse, Instruction.mem_ends_iff]
      simp only [ops_x64, his'.length_eq, hprefix, EStateM.Result.ok.injEq, true_and, exists_eq_left',
        Encoder.size_code_appendAll, Nat.zero_add, Nat.add_left_cancel_iff]
      exact exists_congr fun count => and_congr_right fun _ => eq_comm

end Recorder

namespace Emission

/-- The log of a recorder mirrors the code of the prolog, wherever in the unit the prolog is written. -/
theorem prolog_mirrored :
    (∀ x y : Emission Recorder, x.recorder = .fresh .x64 → prolog x = .ok () y →
      y.frame.prologOps = .ok y.recorder.ops ∧ y.recorder.Mirrors x.unit.encoder y.unit.encoder) ∧
    ∀ x y : Emission Tracker, x.recorder = .fresh .x64 → prolog x = .ok () y →
      y.frame.prologOps = .ok y.recorder.recorder.ops ∧
        y.recorder.recorder.Mirrors x.unit.encoder y.unit.encoder := by
  constructor
  · intro x y hfresh hprolog
    obtain ⟨log, is, hlog, hrun⟩ := prologRun_of_recorder hfresh hprolog
    rw [hlog, hrun.unit]
    exact ⟨hrun.prologOps, Recorder.mirrors_of_performed _ hrun.performed⟩
  · intro x y hfresh hprolog
    obtain ⟨log, is, hlog, hrun⟩ := prologRun_of_tracker hfresh hprolog
    rw [hlog, hrun.unit]
    exact ⟨hrun.prologOps, Recorder.mirrors_of_performed _ hrun.performed⟩

/-- The prolog of the sample frame, written after two bytes of other code. -/
theorem prolog_mirrored_sample :
    ∃ y, prolog sample = .ok () y ∧
      y.recorder.recorder.ops = [.push .rbp, .push (.gp 12), .alloc 56, .save (.xmm 7) 32, .setFrame .rbp 16] ∧
      y.recorder.recorder.Mirrors sample.unit.encoder y.unit.encoder := by
  obtain ⟨y, hprolog, -, hrecorder⟩ := exists_prolog_sample
  obtain ⟨-, hmirrors⟩ := prolog_mirrored.2 sample y rfl hprolog
  refine ⟨y, hprolog, ?_, hmirrors⟩
  rw [hrecorder]
  rfl

end Emission

end StackUnwind
