import StackUnwind.Proofs.Emission.Epilog
import StackUnwind.Proofs.Exchange.Errand
import StackUnwind.Proofs.Recorder.Variants

namespace StackUnwind

namespace FrameLayout

/-- How many registers a prolog of a frame preserves. A frame that cannot be set up has no prolog. -/
def preserved (frame : FrameLayout) : Nat :=
  match frame.calculateFrameSize with
  | .ok frame => if frame.canBeSetUp then frame.savedRegisters.length + frame.savedXmm.length else 0
  | .error _ => 0

private theorem length_xmmSteps (frame : FrameLayout) (index : Nat) (regs : List Register) :
    (frame.xmmSteps index regs).length = regs.length := by
  induction regs generalizing index with
  | nil => rfl
  | cons reg regs ih => rw [xmmSteps, List.length_cons, ih, List.length_cons]

/-- Besides preserving registers a prolog has at most three operations, for the frame pointer and the allocation. -/
theorem length_prologSteps_le {declared frame : FrameLayout} (hcalculated : declared.calculateFrameSize = .ok frame)
    (hvalid : frame.canBeSetUp = true) : frame.prologSteps.length ≤ declared.preserved + 3 := by
  have halloc := frame.length_allocOps
  simp only [preserved, hcalculated, if_pos hvalid, prologSteps, List.length_append, List.length_map, length_xmmSteps,
    List.length_cons, List.length_nil]
  omega

end FrameLayout

namespace Emission

variable {α β : Type} {x : Emission Tracker} {stopped done done' : Tracker → Prop}

/-- The same with a tracker on x86, which traces nothing. -/
def onX86 (x : Emission Tracker) : Emission Tracker := { x with recorder := x.recorder.onX86, log := [] }

/-- Whether work with a tracker on x64 is the same with one on x86, with what is known of the tracker where an error
    stops the work and where the work is done. -/
inductive Agrees (x : Emission Tracker) (work : EmissionM Tracker α) (stopped done : Tracker → Prop) : Prop where
  | error {stop : Stop CodegenError} {y : Emission Tracker} (hwork : work x = .error stop y)
      (honX86 : work x.onX86 = .error stop y.onX86) (hstopped : ∀ e, stop = .error e → stopped y.recorder)
  | ok {a : α} {y : Emission Tracker} (hwork : work x = .ok a y) (honX86 : work x.onX86 = .ok a y.onX86)
      (hdone : done y.recorder)

private theorem Agrees.bind {work : EmissionM Tracker α} {rest : α → EmissionM Tracker β}
    (hfirst : Agrees x work stopped done)
    (hrest : ∀ a y, work x = .ok a y → done y.recorder → Agrees y (rest a) stopped done') :
    Agrees x (work >>= rest) stopped done' := by
  cases hfirst with
  | @error stop y hwork honX86 hstopped =>
    exact .error (run_bind_of_eq_error hwork) (run_bind_of_eq_error honX86) hstopped
  | @ok a y hwork honX86 hdone =>
    have hgoes : (work >>= rest) x = rest a y := run_bind_of_eq_ok hwork
    have hgoes' : (work >>= rest) x.onX86 = rest a y.onX86 := run_bind_of_eq_ok honX86
    cases hrest a y hwork hdone with
    | error hwork' honX86' hstopped => exact .error (hgoes.trans hwork') (hgoes'.trans honX86') hstopped
    | ok hwork' honX86' hdone' => exact .ok (hgoes.trans hwork') (hgoes'.trans honX86') hdone'

/-- A computation without state. -/
private theorem agrees_liftM {step : Except Fault α} (hdone : done x.recorder) :
    Agrees x (liftM step) stopped done := by
  cases step with
  | error fault => exact .error rfl rfl nofun
  | ok a => exact .ok rfl rfl hdone

private theorem agrees_emit {draft : Draft} (hstopped : stopped x.recorder) (hdone : done x.recorder) :
    Agrees x (emit draft) stopped done := by
  cases hcheck : draft.check with
  | error cause =>
    have hfails (y : Emission Tracker) : emit draft y = .error (.error (.encode cause)) y := by rw [emit_eq, hcheck]
    exact .error (hfails x) (hfails x.onX86) fun _ _ => hstopped
  | ok i =>
    have hgoes (y : Emission Tracker) : emit draft y =
        .ok () { y with unit := { y.unit with encoder := y.unit.encoder.append i } } := by rw [emit_eq, hcheck]
    exact .ok (hgoes x) (hgoes x.onX86) hdone

private theorem agrees_report {event : FrameEvent}
    (honX86 : FrameRecorder.record event x.recorder.onX86 =
      mapState Tracker.onX86 (FrameRecorder.record event x.recorder))
    (hdone : ∀ t, FrameRecorder.record event x.recorder = .ok () t → done t) :
    Agrees x (report event) stopped done := by
  have hrecorder : x.onX86.recorder = x.recorder.onX86 := rfl
  have hreport := report_eq event x
  have hreport' := report_eq event x.onX86
  rw [hrecorder, honX86, Tracker.messages_onX86] at hreport'
  cases hrecord : FrameRecorder.record event x.recorder with
  | error fault t =>
    rw [hrecord] at hreport hreport'
    exact .error hreport hreport' nofun
  | ok u t =>
    rw [hrecord] at hreport hreport'
    exact .ok hreport hreport' (hdone t hrecord)

private theorem agrees_forM {work : α → EmissionM Tracker Unit} {P : List α → Tracker → Prop}
    (hwork : ∀ a as y, P (a :: as) y.recorder → Agrees y (work a) stopped (P as)) (as : List α) (h : P as x.recorder) :
    Agrees x (as.forM work) stopped (P []) := by
  rw [List.forM_eq_forM]
  induction as generalizing x with
  | nil => exact .ok rfl rfl h
  | cons a as ih =>
    rw [List.forM_cons]
    exact (hwork a as x h).bind fun _ y _ hrest => ih hrest

variable {ops n : Nat} {frame : FrameLayout}

/-- The beginning or the end of a bracket. -/
private theorem agrees_bracket {event : FrameEvent} (hbracket : event.isOp = false) (h : x.recorder.InStep ops n) :
    Agrees x (report event) (·.InStep ops n) (·.InStep ops n) := by
  refine agrees_report (h.record_onX86 fun hop => ?_) fun t hrecord => h.bracket hbracket hrecord
  rw [hbracket] at hop
  cases hop

/-- Whether a tracker is in a prolog, with room for some more of its operations in a log of at most so many. -/
def Writes (ops n more : Nat) (t : Tracker) : Prop :=
  t.phase = .inProlog ∧ ∃ written, written + more ≤ ops ∧ t.InStep written n

private theorem Writes.inStep {t : Tracker} {more : Nat} (h : Writes ops n more t) : t.InStep ops n := by
  obtain ⟨-, written, hroom, h⟩ := h
  exact h.mono (by omega) (Nat.le_refl n)

private theorem agrees_perform {op : PrologOp} {more : Nat} (h : Writes ops n (more + 1) x.recorder) :
    Agrees x (perform op) (·.InStep ops n) (Writes ops n more) := by
  have hemit : Agrees x (emit op.draft) (·.InStep ops n) (Writes ops n (more + 1)) := agrees_emit h.inStep h
  refine hemit.bind fun _ y _ hwrites => ?_
  obtain ⟨hphase, written, hroom, h⟩ := id hwrites
  -- Inside a prolog no operation is counted as one in an epilog.
  refine agrees_report (h.record_onX86 fun _ hepilog => ?_) fun t hrecord => ?_
  · rw [hphase] at hepilog
    cases hepilog
  · obtain ⟨hphase', h'⟩ := h.op_prolog hphase hrecord
    exact ⟨hphase', written + 1, by omega, h'⟩

/-- The operations of a prolog are not among those in epilogs. -/
private theorem agrees_prologSteps {steps : List (Except Fault PrologOp)} (hsteps : steps.length ≤ ops)
    (h : x.recorder.InStep ops n) : Agrees x (do
      report .beginProlog
      steps.forM performStep
      report .endProlog) (·.InStep ops n) (·.InStep ops n) := by
  have hbegin : Agrees x (report .beginProlog) (·.InStep ops n) (Writes ops n steps.length) := by
    refine agrees_report (h.record_onX86 fun hop => nomatch hop) fun t hrecord => ?_
    obtain ⟨hphase, h'⟩ := h.beginProlog hrecord
    exact ⟨hphase, 0, by omega, h'⟩
  refine hbegin.bind fun _ y _ hwrites => ?_
  have hperform : Agrees y (steps.forM performStep) (·.InStep ops n) (Writes ops n 0) := by
    refine agrees_forM (P := fun rest => Writes ops n rest.length) (fun step rest z h => ?_) steps hwrites
    have hstep : Agrees z (liftM step) (·.InStep ops n) (Writes ops n (rest.length + 1)) := agrees_liftM h
    exact hstep.bind fun op z' _ h => agrees_perform h
  exact hperform.bind fun _ z _ hdone => agrees_bracket rfl hdone.inStep

private theorem agrees_reloadXmm (index : Nat) (regs : List Register) (h : x.recorder.InStep ops n) :
    Agrees x (reloadXmm frame index regs) (·.InStep ops n) (·.InStep ops n) := by
  induction regs generalizing index x with
  | nil => exact .ok rfl rfl h
  | cons reg regs ih =>
    have hslot : Agrees x (liftM (frame.xmmSlot index)) (·.InStep ops n) (·.InStep ops n) := agrees_liftM h
    refine hslot.bind fun offset y _ h => ?_
    exact (agrees_emit h h).bind fun _ z _ h => ih (index + 1) h

private theorem agrees_takeDown (h : x.recorder.InStep ops n) :
    Agrees x (takeDown frame) (·.InStep ops n) (·.InStep ops n) := by
  have hpops : Agrees x (frame.savedRegisters.reverse.forM fun reg => emit (.pop reg)) (·.InStep ops n)
      (·.InStep ops n) :=
    agrees_forM (P := fun _ t => t.InStep ops n) (fun reg rest y h => agrees_emit h h) _ h
  refine hpops.bind fun _ y _ h => ?_
  refine (agrees_emit h h).bind fun _ z _ h => ?_
  exact (agrees_emit h h).bind fun _ z _ h => agrees_bracket rfl h

/-- What holds of a prolog or an epilog of a function: it comes to the same on x86, and unless it breaks a contract, the
    tracker and its log agree afterwards. -/
structure Follows (ops n : Nat) (x : Emission Tracker) (work : EmissionM Tracker Unit) : Prop where
  onX86 : work x.onX86 = mapState Emission.onX86 (work x)
  inStep : (∀ fault y, work x ≠ .error (.fault fault) y) → (endState (work x)).recorder.InStep ops n

private theorem Agrees.follows {work : EmissionM Tracker Unit} (h : Agrees x work (·.InStep ops n) (·.InStep ops n)) :
    Follows ops n x work := by
  cases h with
  | @error stop y hwork honX86 hstopped =>
    refine ⟨by rw [honX86, hwork]; rfl, fun hnot => ?_⟩
    rw [hwork] at hnot ⊢
    cases stop with
    | error e => exact hstopped e rfl
    | fault fault => exact absurd rfl (hnot fault y)
  | ok hwork honX86 hdone =>
    refine ⟨by rw [honX86, hwork]; rfl, fun _ => ?_⟩
    rw [hwork]
    exact hdone

/-- Whatever frame an epilog takes down, it follows the one on x86. -/
theorem follows_epilog (h : x.recorder.InStep ops n) : Follows ops n x epilog := by
  have hprogram : Agrees x (epilogOf x.frame) (·.InStep ops n) (·.InStep ops n) := by
    refine (agrees_bracket rfl h).bind fun _ y _ h => ?_
    refine (agrees_reloadXmm 0 x.frame.savedXmm h).bind fun _ z _ h => ?_
    split
    · exact (agrees_emit h h).bind fun _ z _ h => agrees_takeDown h
    · exact agrees_takeDown h
  obtain ⟨honX86, hinStep⟩ := hprogram.follows
  rw [← epilog_eq x] at hinStep
  refine ⟨?_, hinStep⟩
  rw [epilog_eq, epilog_eq]
  exact honX86

private theorem agrees_prepareFrame (h : x.recorder.InStep ops n) :
    Agrees x prepareFrame (·.InStep ops n) (·.InStep ops n) := by
  have honX86 : prepareFrame x.onX86 = mapState Emission.onX86 (prepareFrame x) := by
    rw [prepareFrame_eq, prepareFrame_eq, show x.onX86.unit = x.unit from rfl, show x.onX86.frame = x.frame from rfl]
    split
    · rfl
    · cases x.frame.calculateFrameSize with
      | error fault => rfl
      | ok frame =>
        dsimp only
        split <;> rfl
  obtain ⟨-, hkept⟩ := prepareFrame_keeps x
  cases hprepare : prepareFrame x with
  | error stop y =>
    rw [hprepare] at honX86 hkept
    exact .error hprepare honX86 fun _ _ => (congrArg (Tracker.InStep ops n) hkept).mpr h
  | ok frame y =>
    rw [hprepare] at honX86
    obtain ⟨-, -, -, rfl⟩ := prepareFrame_eq_ok_iff.1 hprepare
    exact .ok hprepare honX86 h

/-- Whatever frame a prolog sets up, it follows the one on x86. -/
theorem follows_prolog (hroom : x.frame.preserved + 3 ≤ ops) (h : x.recorder.InStep ops n) :
    Follows ops n x prolog := by
  rw [prolog_eq]
  refine ((agrees_prepareFrame h).bind fun frame y hprepare h => ?_).follows
  obtain ⟨-, hcalculated, hvalid, rfl⟩ := prepareFrame_eq_ok_iff.1 hprepare
  exact agrees_prologSteps (Nat.le_trans (FrameLayout.length_prologSteps_le hcalculated hvalid) hroom) h

end Emission

end StackUnwind
