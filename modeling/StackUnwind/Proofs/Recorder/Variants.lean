import StackUnwind.Proofs.Recorder.Brackets
import StackUnwind.Proofs.Recorder.Record

namespace StackUnwind

/-- Whether an event is an operation, which is recorded in the prolog or in an epilog. -/
def FrameEvent.isOp : FrameEvent → Bool
  | .op _ => true
  | .beginProlog | .endProlog | .beginEpilog | .endEpilog => false

namespace Tracker

/-- The tracker of an x86 function that has been told the same. -/
def onX86 (t : Tracker) : Tracker := { t with recorder := .x86 }

/-- On x86 nothing is traced. -/
theorem messages_onX86 (t : Tracker) (event : FrameEvent) : FrameRecorder.messages t.onX86 event = [] := by
  simp only [FrameRecorder.messages, onX86]
  cases t.phase.advance event <;> rfl

/-- Whether an x64 tracker and its log agree about the open bracket and the finished epilogs. The log holds at most so
    many operations of the prolog, and has counted at most so many in epilogs. -/
inductive InStep (ops epilogOps : Nat) : Tracker → Prop where
  | x64 {log : PrologLog} {phase : Phase} (hopen : log.inEpilog = true ↔ phase = .inEpilog)
      (hempty : phase = .beforeProlog → log.ops = []) (hops : log.ops.length ≤ ops)
      (hepilogOps : log.epilogOps.toNat ≤ epilogOps) :
      InStep ops epilogOps { recorder := .x64 log, phase, epilogs := log.epilogs }

variable {t t' : Tracker} {event : FrameEvent} {ops ops' epilogOps epilogOps' : Nat}

/-- A fresh tracker is in step. -/
theorem inStep_fresh : (fresh .x64).InStep 0 0 := .x64 (by simp) (fun _ => rfl) (Nat.le_refl 0) (Nat.le_refl 0)

/-- Bounds may be estimated higher. -/
theorem InStep.mono (h : t.InStep ops epilogOps) (hops : ops ≤ ops') (hepilogOps : epilogOps ≤ epilogOps') :
    t.InStep ops' epilogOps' := by
  cases h with
  | x64 hopen hempty hlogOps hlogEpilogOps =>
    exact .x64 hopen hempty (Nat.le_trans hlogOps hops) (Nat.le_trans hlogEpilogOps hepilogOps)

/-- A log refuses nothing that its tracker takes, as long as the operations in epilogs can be counted. -/
theorem InStep.exists_recorder {phase : Phase} {epilogs : UInt32} (h : t.InStep ops epilogOps)
    (hfew : event.isOp = true → t.phase = .inEpilog → epilogOps + 1 < 2 ^ 32)
    (hphase : t.phase.advance event = .ok phase) (hepilogs : t.epilogsAfter event = .ok epilogs) :
    ∃ recorder, FrameRecorder.record event t.recorder = .ok () recorder := by
  cases h with
  | @x64 log current hopen hempty hops hepilogOps =>
    have hlog (log' : PrologLog) (hrecord : PrologLog.record event log = .ok () log') :
        FrameRecorder.record event (Recorder.x64 log) = .ok () (.x64 log') :=
      Recorder.record_x64_eq_ok_iff.2 ⟨log', hrecord, rfl⟩
    cases event with
    | beginProlog =>
      -- The log's own check never fails, since nothing is logged before the prolog.
      cases current with
      | beforeProlog => exact ⟨_, hlog log (PrologLog.record_beginProlog_eq_ok_iff.2 ⟨hempty rfl, rfl⟩)⟩
      | inProlog | body | inEpilog => cases hphase
    | endProlog | beginEpilog => exact ⟨_, hlog _ rfl⟩
    | endEpilog =>
      have hcount : word32 .add (log.epilogs.toNat + 1) = .ok epilogs := hepilogs
      exact ⟨_, hlog _ (PrologLog.record_endEpilog_eq_ok_iff.2 ⟨epilogs, hcount, rfl⟩)⟩
    | op op =>
      by_cases hepilog : current = .inEpilog
      · have hcount : log.epilogOps.toNat + 1 < 2 ^ 32 :=
          Nat.lt_of_le_of_lt (Nat.succ_le_succ hepilogOps) (hfew rfl hepilog)
        exact ⟨_, hlog _ ((PrologLog.record_op_eq_ok_iff (hopen.2 hepilog)).2 ⟨_, word32_of_lt hcount, rfl⟩)⟩
      · have hnot : log.inEpilog = false := by rw [← Bool.not_eq_true, hopen]; exact hepilog
        exact ⟨_, hlog _ (PrologLog.record_op_of_not_inEpilog hnot op)⟩

/-- Whatever a tracker on x64 is told, one on x86 takes or refuses it in the same way. -/
theorem InStep.record_onX86 (h : t.InStep ops epilogOps)
    (hfew : event.isOp = true → t.phase = .inEpilog → epilogOps + 1 < 2 ^ 32) :
    FrameRecorder.record event t.onX86 = mapState onX86 (FrameRecorder.record event t) := by
  have hepilogs : t.onX86.epilogsAfter event = t.epilogsAfter event := by cases event <;> rfl
  rw [record_eq, record_eq, hepilogs, show t.onX86.phase = t.phase from rfl]
  cases hphase : t.phase.advance event with
  | error fault => rfl
  | ok phase =>
    cases hcount : t.epilogsAfter event with
    | error fault => rfl
    | ok epilogs =>
      obtain ⟨recorder, hrecorder⟩ := h.exists_recorder hfew hphase hcount
      rw [hrecorder]
      rfl

private theorem record_x64_eq_ok_iff {log : PrologLog} {phase : Phase} {epilogs : UInt32} :
    FrameRecorder.record event { recorder := .x64 log, phase, epilogs : Tracker } = .ok () t' ↔
      ∃ log' phase' epilogs', phase.advance event = .ok phase' ∧
        { recorder := .x64 log, phase, epilogs : Tracker }.epilogsAfter event = .ok epilogs' ∧
        PrologLog.record event log = .ok () log' ∧
        t' = { recorder := .x64 log', phase := phase', epilogs := epilogs' } := by
  rw [record_eq_ok_iff]
  constructor
  · rintro ⟨hphase, hepilogs, hrecorder⟩
    obtain ⟨log', hlog, hrecorder⟩ := Recorder.record_x64_eq_ok_iff.1 hrecorder
    refine ⟨log', _, _, hphase, hepilogs, hlog, ?_⟩
    rw [← hrecorder]
  · rintro ⟨log', phase', epilogs', hphase, hepilogs, hlog, rfl⟩
    exact ⟨hphase, hepilogs, Recorder.record_x64_eq_ok_iff.2 ⟨log', hlog, rfl⟩⟩

/-- A prolog begins with an empty log. -/
theorem InStep.beginProlog (h : t.InStep ops epilogOps) (hrecord : FrameRecorder.record .beginProlog t = .ok () t') :
    t'.phase = .inProlog ∧ t'.InStep 0 epilogOps := by
  cases h with
  | @x64 log phase hopen hempty hops hepilogOps =>
    obtain ⟨log', phase', epilogs', hphase, ⟨⟩, hlog, rfl⟩ := record_x64_eq_ok_iff.1 hrecord
    cases phase with
    | beforeProlog =>
      cases hphase
      obtain ⟨-, rfl⟩ := PrologLog.record_beginProlog_eq_ok_iff.1 hlog
      refine ⟨rfl, .x64 (by simp [hopen]) (by simp) ?_ hepilogOps⟩
      rw [hempty rfl]
      exact Nat.le_refl 0
    | inProlog | body | inEpilog => cases hphase

/-- An operation in a prolog is logged and not counted in an epilog. -/
theorem InStep.op_prolog {op : PrologOp} (h : t.InStep ops epilogOps) (hprolog : t.phase = .inProlog)
    (hrecord : FrameRecorder.record (.op op) t = .ok () t') : t'.phase = .inProlog ∧ t'.InStep (ops + 1) epilogOps := by
  cases h with
  | @x64 log phase hopen hempty hops hepilogOps =>
    obtain rfl : phase = .inProlog := hprolog
    obtain ⟨log', phase', epilogs', ⟨⟩, ⟨⟩, hlog, rfl⟩ := record_x64_eq_ok_iff.1 hrecord
    rw [PrologLog.record_op_of_not_inEpilog (by simpa using hopen)] at hlog
    cases hlog
    refine ⟨rfl, .x64 hopen (by simp) ?_ hepilogOps⟩
    rw [List.length_append]
    exact Nat.succ_le_succ hops

private theorem InStep.op_epilog {op : PrologOp} (h : t.InStep ops epilogOps) (hepilog : t.phase = .inEpilog)
    (hrecord : FrameRecorder.record (.op op) t = .ok () t') : t'.InStep ops (epilogOps + 1) := by
  cases h with
  | @x64 log phase hopen hempty hops hepilogOps =>
    obtain rfl : phase = .inEpilog := hepilog
    obtain ⟨log', phase', epilogs', ⟨⟩, ⟨⟩, hlog, rfl⟩ := record_x64_eq_ok_iff.1 hrecord
    obtain ⟨count, hword, rfl⟩ := (PrologLog.record_op_eq_ok_iff (hopen.2 rfl)).1 hlog
    have hcount := word32_eq_ok_iff.1 hword
    exact .x64 hopen (by simp) hops (by dsimp only; omega)

/-- Brackets leave the operations alone. -/
theorem InStep.bracket (h : t.InStep ops epilogOps) (hbracket : event.isOp = false)
    (hrecord : FrameRecorder.record event t = .ok () t') : t'.InStep ops epilogOps := by
  cases event with
  | beginProlog => exact (h.beginProlog hrecord).2.mono (Nat.zero_le ops) (Nat.le_refl epilogOps)
  | endProlog =>
    cases h with
    | @x64 log phase hopen hempty hops hepilogOps =>
      obtain ⟨log', phase', epilogs', hphase, ⟨⟩, ⟨⟩, rfl⟩ := record_x64_eq_ok_iff.1 hrecord
      cases phase with
      | inProlog =>
        cases hphase
        exact .x64 (by simp [hopen]) (by simp) hops hepilogOps
      | beforeProlog | body | inEpilog => cases hphase
  | beginEpilog =>
    cases h with
    | @x64 log phase hopen hempty hops hepilogOps =>
      obtain ⟨log', phase', epilogs', hphase, ⟨⟩, ⟨⟩, rfl⟩ := record_x64_eq_ok_iff.1 hrecord
      cases phase with
      | body =>
        cases hphase
        exact .x64 (by simp) (by simp) hops hepilogOps
      | beforeProlog | inProlog | inEpilog => cases hphase
  | endEpilog =>
    cases h with
    | @x64 log phase hopen hempty hops hepilogOps =>
      obtain ⟨log', phase', epilogs', hphase, hcount, hlog, rfl⟩ := record_x64_eq_ok_iff.1 hrecord
      have hcount : word32 .add (log.epilogs.toNat + 1) = .ok epilogs' := hcount
      obtain ⟨_, hword, rfl⟩ := PrologLog.record_endEpilog_eq_ok_iff.1 hlog
      cases hcount.symm.trans hword
      cases phase with
      | inEpilog =>
        cases hphase
        exact .x64 (by simp) (by simp) hops hepilogOps
      | beforeProlog | inProlog | body => cases hphase
  | op op => cases hbracket

/-- Any event adds at most one operation. -/
theorem InStep.record (h : t.InStep ops epilogOps) (hrecord : FrameRecorder.record event t = .ok () t') :
    t'.InStep (ops + event.isOp.toNat) (epilogOps + event.isOp.toNat) := by
  cases event with
  | op op =>
    obtain ⟨hphase, -, -⟩ := record_eq_ok_iff.1 hrecord
    cases hopen : t.phase with
    | inProlog => exact (h.op_prolog hopen hrecord).2.mono (Nat.le_refl _) (Nat.le_succ _)
    | inEpilog => exact (h.op_epilog hopen hrecord).mono (Nat.le_succ _) (Nat.le_refl _)
    | beforeProlog | body =>
      rw [hopen] at hphase
      cases hphase
  | beginProlog | endProlog | beginEpilog | endEpilog => exact h.bracket rfl hrecord

/-- The size of a record is a word. -/
theorem InStep.infoSize_lt (h : t.InStep ops epilogOps) (hops : ops < 2 ^ 33) (region : Region) :
    t.recorder.infoSize region < 2 ^ 64 := by
  cases h with
  | @x64 log phase hopen hempty hlog hepilogOps =>
    cases region with
    | hot =>
      have hslots := UnwindRecord.slotCount_le log.ops
      change 4 + 2 * (UnwindRecord.slotCount log.ops + UnwindRecord.slotCount log.ops % 2) < 2 ^ 64
      omega
    | cold =>
      change 4 < 2 ^ 64
      omega

end Tracker

end StackUnwind
