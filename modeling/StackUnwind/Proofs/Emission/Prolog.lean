import StackUnwind.Proofs.Encoder.Append
import StackUnwind.Proofs.Frame.Geometry
import StackUnwind.Proofs.Recorder.Brackets
import StackUnwind.UnitCode

namespace StackUnwind

namespace FrameLayout

variable {frame : FrameLayout}

/-- The stores of the saved vector registers, of which `index` have been counted before. A slot is computed when its
    turn comes. -/
def xmmSteps (frame : FrameLayout) (index : Nat) : List Register → List (Except Fault PrologOp)
  | [] => []
  | reg :: regs => (.save reg <$> frame.xmmSlot index) :: frame.xmmSteps (index + 1) regs

/-- The operations that set up a frame in order, each as far as it can be made up. -/
def prologSteps (frame : FrameLayout) : List (Except Fault PrologOp) :=
  ((Register.rbp :: frame.savedRegisters).map PrologOp.push ++ frame.allocOps).map .ok ++
    frame.xmmSteps 0 frame.savedXmm ++
    [.ok (.setFrame .rbp frame.framePointerOffset)]

private theorem xmmSteps_eq_map_ok_iff {index : Nat} {regs : List Register} {saves : List PrologOp} :
    frame.xmmSteps index regs = saves.map .ok ↔ frame.xmmSaves index regs = .ok saves := by
  induction regs generalizing index saves with
  | nil =>
    rw [xmmSteps, xmmSaves, pure_eq_ok_iff, eq_comm, List.map_eq_nil_iff]
  | cons reg regs ih =>
    simp only [xmmSteps, xmmSaves, bind_eq_ok_iff, pure_eq_ok_iff, ← ih]
    constructor
    · intro h
      obtain ⟨op, rest, rfl, hop, hrest⟩ := List.map_eq_cons_iff.1 h.symm
      obtain ⟨offset, hoffset, rfl⟩ := map_eq_ok_iff.1 hop.symm
      exact ⟨offset, hoffset, rest, hrest.symm, rfl⟩
    · rintro ⟨offset, hoffset, rest, hrest, rfl⟩
      rw [hoffset, hrest]
      rfl

/-- The steps of a prolog can all be made up exactly if its operations are known, and then they are these. -/
theorem prologSteps_eq_map_ok_iff {ops : List PrologOp} :
    frame.prologSteps = ops.map .ok ↔ frame.prologOps = .ok ops := by
  have hok : Function.Injective (Except.ok : PrologOp → Except Fault PrologOp) := fun _ _ => Except.ok.inj
  rw [prologOps_eq_ok_iff, prologSteps]
  constructor
  · intro h
    obtain ⟨front, last, rfl, hfront, hlast⟩ := List.append_eq_map_iff.1 h
    obtain ⟨first, saves, rfl, hfirst, hsaves⟩ := List.append_eq_map_iff.1 hfront.symm
    refine ⟨saves, xmmSteps_eq_map_ok_iff.1 hsaves.symm, ?_⟩
    have hlast : last.map Except.ok = [PrologOp.setFrame .rbp frame.framePointerOffset].map .ok := hlast
    rw [List.map_injective_iff.2 hok hfirst, List.map_injective_iff.2 hok hlast]
    rfl
  · rintro ⟨saves, hsaves, rfl⟩
    rw [xmmSteps_eq_map_ok_iff.2 hsaves, bodyOps]
    simp only [List.map_append]
    rfl

end FrameLayout

namespace Emission

variable {ρ : Type} {x y : Emission ρ} {u : Unit}

/-- An instruction is appended, or everything stays as it is. -/
theorem emit_eq (draft : Draft) (x : Emission ρ) :
    emit draft x = match draft.check with
      | .ok i => .ok () { x with unit := { x.unit with encoder := x.unit.encoder.append i } }
      | .error cause => .error (.error (.encode cause)) x := by
  simp only [emit, UnitCode.onEncoder, onPart, Encoder.emit_eq]
  cases draft.check <;> rfl

/-- An instruction is appended to the code and nothing else changes. -/
theorem emit_eq_ok_iff {draft : Draft} :
    emit draft x = .ok u y ↔ ∃ i, draft.check = .ok i ∧
      y = { x with unit := { x.unit with encoder := x.unit.encoder.append i } } := by
  rw [emit_eq]
  cases draft.check <;> simp [eq_comm]

/-- A frame is refused once cold code has begun, and after that only for its size or its registers. -/
theorem prepareFrame_eq (x : Emission ρ) :
    prepareFrame x =
      if x.unit.inColdSection then .error (.error .coldSectionStarted) x
      else match x.frame.calculateFrameSize with
        | .error fault => .error (.fault fault) x
        | .ok frame =>
          if frame.canBeSetUp then .ok frame { x with frame } else .error (.error .invalidFrame) { x with frame } := by
  rw [prepareFrame, run_get_bind]
  split
  · rfl
  · cases x.frame.calculateFrameSize with
    | error fault => rfl
    | ok frame =>
      change (if !frame.canBeSetUp then EStateM.bind (throw (.error .invalidFrame)) fun _ => pure frame
        else pure frame : EmissionM ρ FrameLayout) { x with frame } =
          if frame.canBeSetUp then .ok frame { x with frame } else .error (.error .invalidFrame) { x with frame }
      cases frame.canBeSetUp <;> rfl

/-- Preparing a frame touches neither the code nor the recorder, however it ends. -/
theorem prepareFrame_keeps (x : Emission ρ) :
    (endState (prepareFrame x)).unit = x.unit ∧ (endState (prepareFrame x)).recorder = x.recorder := by
  rw [prepareFrame_eq]
  split
  · exact ⟨rfl, rfl⟩
  · cases x.frame.calculateFrameSize with
    | error fault => exact ⟨rfl, rfl⟩
    | ok frame =>
      dsimp only
      split <;> exact ⟨rfl, rfl⟩

/-- A frame that is accepted is remembered with its size. -/
theorem prepareFrame_eq_ok_iff {frame : FrameLayout} :
    prepareFrame x = .ok frame y ↔ x.unit.coldStart = none ∧ x.frame.calculateFrameSize = .ok frame ∧
      frame.canBeSetUp = true ∧ y = { x with frame } := by
  simp only [prepareFrame, run_bind_eq_ok_iff, run_get_eq_ok_iff, run_check_eq_ok_iff,
    run_liftM_fault_eq_ok_iff, run_set_eq_ok_iff, run_pure_eq_ok_iff, UnitCode.inColdSection]
  constructor
  · rintro ⟨_, _, ⟨rfl, rfl⟩, hcold, _, _, ⟨hsize, rfl⟩, _, _, rfl, hvalid, rfl, rfl⟩
    exact ⟨by simpa using hcold, hsize, by simpa using hvalid, rfl⟩
  · rintro ⟨hcold, hsize, hvalid, rfl⟩
    exact ⟨_, _, ⟨rfl, rfl⟩, by simp [hcold], _, _, ⟨hsize, rfl⟩, ⟨⟩, _, rfl, by simp [hvalid], rfl, rfl⟩

variable [FrameRecorder ρ]

/-- A report is traced before the recorder takes or refuses it. -/
theorem report_eq (event : FrameEvent) (x : Emission ρ) :
    report event x =
      let log := x.log ++ FrameRecorder.messages x.recorder event
      match FrameRecorder.record event x.recorder with
      | .ok _ recorder => .ok () { x with recorder, log }
      | .error fault recorder => .error (.fault fault) { x with recorder, log } := by
  rw [report, run_modify_bind, onPart]
  cases FrameRecorder.record event x.recorder <;> rfl

/-- A report succeeds exactly if the recorder takes it. -/
theorem report_eq_ok_iff {event : FrameEvent} :
    report event x = .ok u y ↔ ∃ recorder, FrameRecorder.record event x.recorder = .ok () recorder ∧
      y = { x with recorder, log := x.log ++ FrameRecorder.messages x.recorder event } := by
  rw [report_eq]
  cases FrameRecorder.record event x.recorder <;> simp [eq_comm]

/-- Perform an operation of the prolog and report it. -/
def perform (op : PrologOp) : EmissionM ρ Unit := do
  emit op.draft
  report (.op op)

/-- Perform an operation, if it could be made up. -/
def performStep (step : Except Fault PrologOp) : EmissionM ρ Unit := do
  perform (← step)

private theorem storeXmm_eq (frame : FrameLayout) (index : Nat) (regs : List Register) :
    (storeXmm frame index regs : EmissionM ρ Unit) = (frame.xmmSteps index regs).forM performStep := by
  induction regs generalizing index with
  | nil => rfl
  | cons reg regs ih =>
    rw [storeXmm, FrameLayout.xmmSteps, List.forM_eq_forM, List.forM_cons]
    simp only [ih]
    cases frame.xmmSlot index with
    | error fault => rfl
    | ok offset => exact (bind_assoc (m := EmissionM ρ) _ _ _).symm

/-- What a prolog does to the code and what it reports are the same operations, one by one. -/
theorem prolog_eq : (prolog : EmissionM ρ Unit) = (do
    let frame ← prepareFrame
    report .beginProlog
    frame.prologSteps.forM performStep
    report .endProlog) := by
  have hok (op : PrologOp) : (performStep (.ok op) : EmissionM ρ Unit) = perform op := rfl
  rw [prolog]
  refine bind_congr fun frame => bind_congr fun _ => ?_
  simp only [FrameLayout.prologSteps, FrameLayout.allocOps, storeXmm_eq, List.forM_eq_forM, List.forM_append,
    List.forM_map, List.forM_cons, List.forM_nil, List.map_cons, hok, perform, PrologOp.draft, bind_assoc, pure_bind]
  by_cases hsize : frame.frameSize = 0 <;> by_cases hoffset : frame.framePointerOffset = 0 <;>
    simp [hsize, hoffset, bind_assoc]

/-- Steps of a prolog succeed exactly if they are all made up and their operations succeed. -/
theorem forM_performStep_eq_ok_iff {steps : List (Except Fault PrologOp)} :
    steps.forM performStep x = .ok u y ↔ ∃ ops : List PrologOp, steps = ops.map .ok ∧ ops.forM perform x = .ok u y := by
  induction steps generalizing x with
  | nil =>
    constructor
    · intro h
      exact ⟨[], rfl, h⟩
    · rintro ⟨ops, hops, h⟩
      obtain rfl := List.map_eq_nil_iff.1 hops.symm
      exact h
  | cons step steps ih =>
    simp only [List.forM_eq_forM, List.forM_cons, performStep, run_bind_eq_ok_iff, run_liftM_fault_eq_ok_iff] at ih ⊢
    constructor
    · rintro ⟨_, z, ⟨op, _, ⟨rfl, rfl⟩, hop⟩, hrest⟩
      obtain ⟨ops, rfl, hops⟩ := ih.1 hrest
      refine ⟨op :: ops, rfl, ?_⟩
      rw [List.forM_cons]
      exact run_bind_eq_ok_iff.2 ⟨_, z, hop, hops⟩
    · rintro ⟨ops, hsteps, h⟩
      obtain ⟨op, ops, rfl, rfl, rfl⟩ := List.map_eq_cons_iff.1 hsteps.symm
      rw [List.forM_cons, run_bind_eq_ok_iff] at h
      obtain ⟨_, z, hop, hrest⟩ := h
      exact ⟨_, z, ⟨op, x, ⟨rfl, rfl⟩, hop⟩, ih.2 ⟨ops, rfl, hrest⟩⟩

/-- An operation succeeds exactly if it has an instruction and the recorder takes it. -/
theorem perform_eq_ok_iff {op : PrologOp} :
    perform op x = .ok u y ↔ ∃ i recorder, op.PerformedBy i ∧
      FrameRecorder.record (.op op) x.recorder = .ok () recorder ∧
      y = { x with
        unit := { x.unit with encoder := x.unit.encoder.append i }, recorder
        log := x.log ++ FrameRecorder.messages x.recorder (.op op) } := by
  simp only [perform, run_bind_eq_ok_iff, emit_eq_ok_iff, report_eq_ok_iff, PrologOp.check_draft_eq_ok_iff]
  constructor
  · rintro ⟨_, _, ⟨i, hi, rfl⟩, recorder, hrecord, rfl⟩
    exact ⟨i, recorder, hi, hrecord, rfl⟩
  · rintro ⟨i, recorder, hi, hrecord, rfl⟩
    exact ⟨(), _, ⟨i, hi, rfl⟩, recorder, hrecord, rfl⟩

/-- Each operation of a prolog is performed by its instruction and reported right after it. -/
theorem forM_perform {ops : List PrologOp} (h : ops.forM perform x = .ok () y) :
    ∃ is, List.Forall₂ PrologOp.PerformedBy ops is ∧
      FrameRecorder.recordAll (ops.map .op) x.recorder = .ok () y.recorder ∧
      y.unit = { x.unit with encoder := x.unit.encoder.appendAll is } ∧ y.frame = x.frame := by
  induction ops generalizing x with
  | nil =>
    simp only [List.forM_eq_forM, List.forM_nil, run_pure_eq_ok_iff] at h
    rw [h.2]
    exact ⟨[], .nil, rfl, rfl, rfl⟩
  | cons op ops ih =>
    simp only [List.forM_eq_forM, List.forM_cons, run_bind_eq_ok_iff] at h
    obtain ⟨_, z, hop, hrest⟩ := h
    obtain ⟨i, recorder, hi, hrecord, rfl⟩ := perform_eq_ok_iff.1 hop
    obtain ⟨is, his, hrecords, hunit, hframe⟩ := ih hrest
    refine ⟨i :: is, .cons hi his, ?_, hunit, hframe⟩
    exact FrameRecorder.recordAll_cons_eq_ok_iff.2 ⟨recorder, hrecord, hrecords⟩

end Emission

/-- How a prolog came about: the frame could be set up, and each of its operations was performed by the
    instruction that was appended for it. -/
structure PrologRun (start stop : UnitCode) (declared frame : FrameLayout) (ops : List PrologOp)
    (is : List Instruction) : Prop where
  hot : start.coldStart = none
  calculated : declared.calculateFrameSize = .ok frame
  canBeSetUp : frame.canBeSetUp = true
  prologOps : frame.prologOps = .ok ops
  performed : List.Forall₂ PrologOp.PerformedBy ops is
  unit : stop = { start with encoder := start.encoder.appendAll is }

/-- The operations of a prolog are those its frame asks for. -/
theorem PrologRun.fits {start stop : UnitCode} {declared frame : FrameLayout} {ops : List PrologOp}
    {is : List Instruction} (h : PrologRun start stop declared frame ops is) :
    ∃ saves, frame.Fits saves ∧ ops = frame.bodyOps saves ++ [.setFrame .rbp frame.framePointerOffset] := by
  obtain ⟨saves, hsaves, hops⟩ := FrameLayout.prologOps_eq_ok_iff.1 h.prologOps
  exact ⟨saves, FrameLayout.fits_of_calculated h.calculated hsaves (FrameLayout.canBeSetUp_iff.1 h.canBeSetUp), hops⟩

namespace Emission

variable {ρ : Type} [FrameRecorder ρ] {x y : Emission ρ}

/-- A prolog that succeeds has appended its instructions and reported its operations, one for each. -/
theorem prolog_run (h : prolog x = .ok () y) :
    ∃ ops is, PrologRun x.unit y.unit x.frame y.frame ops is ∧
      FrameRecorder.recordAll (FrameEvent.ofProlog ops) x.recorder = .ok () y.recorder := by
  simp only [prolog_eq, run_bind_eq_ok_iff, prepareFrame_eq_ok_iff, report_eq_ok_iff, forM_performStep_eq_ok_iff,
    FrameLayout.prologSteps_eq_map_ok_iff] at h
  obtain ⟨frame, _, ⟨hhot, hsize, hvalid, rfl⟩, _, _, ⟨first, hfirst, rfl⟩, _, z, ⟨ops, hops, hperform⟩, last, hlast,
    rfl⟩ := h
  obtain ⟨is, his, hrecords, hunit, hframe⟩ := forM_perform hperform
  refine ⟨ops, is, ⟨hhot, ?_, ?_, ?_, his, hunit⟩, ?_⟩
  · rw [hframe]
    exact hsize
  · rw [hframe]
    exact hvalid
  · rw [hframe]
    exact hops
  · refine FrameRecorder.recordAll_cons_eq_ok_iff.2 ⟨first, hfirst, ?_⟩
    refine FrameRecorder.recordAll_append_eq_ok_iff.2 ⟨z.recorder, hrecords, ?_⟩
    exact FrameRecorder.recordAll_cons_eq_ok_iff.2 ⟨last, hlast, rfl⟩

/-- A fresh recorder remembers the operations of the prolog. -/
theorem prologRun_of_recorder {x y : Emission Recorder} (hfresh : x.recorder = .fresh .x64)
    (h : prolog x = .ok () y) :
    ∃ log is, y.recorder = .x64 log ∧ PrologRun x.unit y.unit x.frame y.frame log.ops is := by
  obtain ⟨ops, is, hrun, hrecord⟩ := prolog_run h
  rw [hfresh, Recorder.recordAll_ofProlog] at hrecord
  obtain ⟨-, hrecorder⟩ := EStateM.Result.ok.inj hrecord
  exact ⟨{ ops }, is, hrecorder.symm, hrun⟩

/-- With a fresh tracker the log then holds just these operations. -/
theorem prologRun_of_tracker {x y : Emission Tracker} (hfresh : x.recorder = .fresh .x64)
    (h : prolog x = .ok () y) :
    ∃ log is, y.recorder = { recorder := .x64 log, phase := .body } ∧
      PrologRun x.unit y.unit x.frame y.frame log.ops is := by
  obtain ⟨ops, is, hrun, hrecord⟩ := prolog_run h
  rw [hfresh, Tracker.recordAll_ofProlog] at hrecord
  obtain ⟨-, hrecorder⟩ := EStateM.Result.ok.inj hrecord
  exact ⟨{ ops }, is, hrecorder.symm, hrun⟩

end Emission

namespace FrameLayout

/-- A frame that preserves a register of each bank and keeps its frame pointer above the stack pointer. -/
def sample : FrameLayout where
  savedRegisters := [.gp 12]
  savedXmm := [.xmm 7]
  localSize := 24
  framePointerOffset := 16

theorem calculateFrameSize_sample : sample.calculateFrameSize = .ok { sample with frameSize := 56 } := by
  rfl

theorem prologOps_sample : { sample with frameSize := 56 }.prologOps =
    .ok [.push .rbp, .push (.gp 12), .alloc 56, .save (.xmm 7) 32, .setFrame .rbp 16] := by
  rfl

end FrameLayout

namespace Emission

/-- The sample frame, about to be set up after two bytes of other code. -/
def sample : Emission Tracker where
  unit := { encoder := { code := #[0x90, 0x90] } }
  recorder := .fresh .x64
  frame := .sample

/-- The sample frame has a prolog. -/
theorem exists_prolog_sample :
    ∃ y, prolog sample = .ok () y ∧ y.frame = { FrameLayout.sample with frameSize := 56 } ∧
      y.recorder = {
        recorder := .x64 { ops := [.push .rbp, .push (.gp 12), .alloc 56, .save (.xmm 7) 32, .setFrame .rbp 16] }
        phase := .body } := by
  obtain ⟨_, y, hprolog⟩ := exists_of_succeeds (r := prolog sample) (by decide +kernel)
  obtain ⟨ops, is, hrun, hrecord⟩ := prolog_run hprolog
  have hframe : FrameLayout.sample.calculateFrameSize = .ok y.frame := hrun.calculated
  rw [FrameLayout.calculateFrameSize_sample, Except.ok.injEq] at hframe
  have hops := hrun.prologOps
  rw [← hframe, FrameLayout.prologOps_sample, Except.ok.injEq] at hops
  have hrecord : FrameRecorder.recordAll (FrameEvent.ofProlog ops) (Tracker.fresh .x64) = .ok () y.recorder :=
    hrecord
  rw [Tracker.recordAll_ofProlog, ← hops] at hrecord
  obtain ⟨-, hrecorder⟩ := EStateM.Result.ok.inj hrecord
  exact ⟨y, hprolog, hframe.symm, hrecorder.symm⟩

end Emission

end StackUnwind
