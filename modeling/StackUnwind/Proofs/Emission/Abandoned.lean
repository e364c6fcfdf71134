import StackUnwind.Proofs.Context.Contracts
import StackUnwind.Proofs.Emission.Epilog
import StackUnwind.Proofs.Emission.Mirror
import StackUnwind.Proofs.Instruction.Operands

namespace StackUnwind

/-- The instruction that is appended for a draft, or why there is none. -/
def Draft.instruction (draft : Draft) : Except (Stop CodegenError) Instruction :=
  draft.check.mapError fun cause => .error (.encode cause)

namespace FrameLayout

/-- The loads of vector registers, of which `index` have been reloaded before. A slot is computed when its turn
    comes. -/
def loadPlan (frame : FrameLayout) (index : Nat) : List Register → List (Except (Stop CodegenError) Instruction)
  | [] => []
  | reg :: regs =>
    (do (Draft.load reg .rsp (← frame.xmmSlot index)).instruction) :: frame.loadPlan (index + 1) regs

/-- The instructions of an epilog in order, each as far as it can be made up. -/
def epilogPlan (frame : FrameLayout) : List (Except (Stop CodegenError) Instruction) :=
  frame.loadPlan 0 frame.savedXmm ++ (frame.epilogDrafts []).map Draft.instruction

end FrameLayout

namespace Emission

section Plan

variable {ρ : Type} {x y : Emission ρ} {stop : Stop CodegenError}

/-- With more instructions at the end of the code. -/
def appendAll (x : Emission ρ) (is : List Instruction) : Emission ρ :=
  { x with unit := { x.unit with encoder := x.unit.encoder.appendAll is } }

/-- Append an instruction, if there is one. -/
def appendStep (step : Except (Stop CodegenError) Instruction) : EmissionM ρ Unit := do
  let i ← step
  modify (·.appendAll [i])

private theorem emit_eq_appendStep (draft : Draft) :
    (emit draft : EmissionM ρ Unit) = appendStep draft.instruction := by
  funext x
  rw [emit_eq, Draft.instruction]
  cases draft.check <;> rfl

private theorem reloadXmm_eq (frame : FrameLayout) (index : Nat) (regs : List Register) :
    (reloadXmm frame index regs : EmissionM ρ Unit) = (frame.loadPlan index regs).forM appendStep := by
  induction regs generalizing index with
  | nil => rfl
  | cons reg regs ih =>
    rw [reloadXmm, FrameLayout.loadPlan, List.forM_eq_forM, List.forM_cons]
    simp only [ih, emit_eq_appendStep]
    cases frame.xmmSlot index <;> rfl

/-- A plan breaks off at the first instruction that there is not, after those before it have been appended. -/
theorem forM_appendStep_eq_error_iff {plan : List (Except (Stop CodegenError) Instruction)} :
    (plan.forM appendStep : EmissionM ρ Unit) x = .error stop y ↔
      ∃ is rest, plan = is.map .ok ++ .error stop :: rest ∧ y = x.appendAll is := by
  induction plan generalizing x with
  | nil => simp [List.forM_eq_forM, pure, EStateM.pure]
  | cons step plan ih =>
    have hcons : ((step :: plan).forM appendStep : EmissionM ρ Unit) =
        appendStep step >>= fun _ => plan.forM appendStep :=
      rfl
    cases step with
    | error stop' =>
      have hstop : (appendStep (.error stop') : EmissionM ρ Unit) x = .error stop' x := rfl
      rw [hcons, run_bind_of_eq_error hstop, exists_error_cons_eq_iff, EStateM.Result.error.injEq]
      exact and_congr_right fun _ => eq_comm
    | ok i =>
      have happend : (appendStep (.ok i) : EmissionM ρ Unit) x = .ok () (x.appendAll [i]) := rfl
      rw [hcons, run_bind_of_eq_ok happend, ih, exists_ok_cons_eq_iff]
      rfl

end Plan

variable {ρ : Type} [FrameRecorder ρ] {x y : Emission ρ}

private theorem epilogOf_eq (frame : FrameLayout) :
    (epilogOf frame : EmissionM ρ Unit) =
      (report .beginEpilog >>= fun _ => frame.epilogPlan.forM appendStep >>= fun _ => report .endEpilog) := by
  rw [epilogOf, FrameLayout.epilogPlan, FrameLayout.epilogDrafts, reloadXmm_eq]
  simp only [takeDown, emit_eq_appendStep, List.forM_eq_forM, List.forM_append, List.forM_map, List.forM_cons,
    List.forM_nil, bind_assoc, pure_bind]
  split
  · simp only [List.forM_cons, List.forM_nil, bind_assoc, pure_bind]
  · simp only [List.forM_nil, pure_bind]

private theorem report_eq_error_iff {event : FrameEvent} {stop : Stop CodegenError} :
    report event x = .error stop y ↔ ∃ fault recorder, FrameRecorder.record event x.recorder = .error fault recorder ∧
      stop = .fault fault ∧ y = { x with recorder, log := x.log ++ FrameRecorder.messages x.recorder event } := by
  rw [report_eq]
  cases FrameRecorder.record event x.recorder <;> simp [eq_comm]

/-- An epilog returns an error exactly if its instructions break off with one. It has been opened by then. -/
theorem epilog_eq_error_iff {e : CodegenError} :
    epilog x = .error (.error e) y ↔ ∃ opened is rest, FrameRecorder.record .beginEpilog x.recorder = .ok () opened ∧
      x.frame.epilogPlan = is.map .ok ++ .error (.error e) :: rest ∧
      y = appendAll
        { x with recorder := opened, log := x.log ++ FrameRecorder.messages x.recorder .beginEpilog } is := by
  rw [epilog_eq, epilogOf_eq]
  simp only [run_bind_eq_error_iff, report_eq_error_iff, report_eq_ok_iff, forM_appendStep_eq_error_iff, reduceCtorEq,
    false_and, and_false, exists_false, false_or, or_false]
  constructor
  · rintro ⟨_, _, ⟨opened, hopened, rfl⟩, is, rest, hplan, rfl⟩
    exact ⟨opened, is, rest, hopened, hplan, rfl⟩
  · rintro ⟨opened, is, rest, hopened, hplan, rfl⟩
    exact ⟨(), _, ⟨opened, hopened, rfl⟩, is, rest, hplan, rfl⟩

end Emission

namespace Tracker

variable {t : Tracker}

private theorem record_beginEpilog_of_body (h : t.phase = .body) :
    ∃ r : Recorder, FrameRecorder.record .beginEpilog t = .ok () { t with recorder := r, phase := .inEpilog } ∧
      r.ops = t.recorder.ops := by
  obtain ⟨recorder, phase, epilogs⟩ := t
  subst h
  cases recorder with
  | x86 => exact ⟨.x86, rfl, rfl⟩
  | x64 log => exact ⟨.x64 { log with inEpilog := true }, rfl, rfl⟩

private theorem record_beginEpilog_of_inEpilog (h : t.phase = .inEpilog) :
    FrameRecorder.record .beginEpilog t = .error .epilogOutsideBody t ∧ FrameRecorder.messages t .beginEpilog = [] := by
  obtain ⟨recorder, phase, epilogs⟩ := t
  subst h
  exact ⟨rfl, rfl⟩

end Tracker

namespace Context

/-- No call is answered for a unit one of whose epilogs is open. -/
theorem perform_of_inEpilog {c : Context} {t : Tracker} (hmem : t ∈ c.trackers) (hphase : t.phase = .inEpilog)
    (call : HostCall) : ∃ fault ∈ [Fault.prologOpen, .epilogOpen], ∀ {σ : Type} (host : Host σ) (s : Exchange σ),
      c.perform host call s = .error (.fault fault) s := by
  by_cases hprolog : ∀ t ∈ c.trackers, t.phase ≠ .inProlog
  · refine ⟨.epilogOpen, by simp, fun host s => ?_⟩
    exact perform_of_schedule_eq_error (schedule_eq_error_iff.2 (.epilogOpen hprolog hmem hphase))
  · simp only [ne_eq, not_forall, not_not] at hprolog
    obtain ⟨t', hmem', hphase'⟩ := hprolog
    refine ⟨.prologOpen, by simp, fun host s => ?_⟩
    exact perform_of_schedule_eq_error (schedule_eq_error_iff.2 (.prologOpen hmem' hphase'))

private theorem funclets_hot_nil : ∀ f ∈ ([] : List UnitFunction), f.isFunclet = true ∧ f.cold = none := by
  simp

/-- A unit of one function. -/
def single (t : Tracker) : Context where
  functions := { root := .root .whole none, funclets := [], root_kind := rfl, funclets_hot := funclets_hot_nil }
  trackers := [t]
  settings := {}
  length_trackers := rfl

end Context

namespace Emission

/-- What an epilog leaves that was given up after some of its instructions: they stay in the code, and the epilog stays
    open. -/
structure Abandoned (x y : Emission Tracker) (is : List Instruction) : Prop where
  code : y.unit.encoder.code.toList = x.unit.encoder.code.toList ++ is.flatMap Instruction.bytes
  labels : y.unit.encoder.labels = x.unit.encoder.labels
  coldStart : y.unit.coldStart = x.unit.coldStart
  frame : y.frame = x.frame
  phase : y.recorder.phase = .inEpilog
  epilogs : y.recorder.epilogs = x.recorder.epilogs
  ops : y.recorder.recorder.ops = x.recorder.recorder.ops

variable {x y : Emission Tracker} {is : List Instruction}

private theorem Abandoned.code_eq_iff (h : Abandoned x y is) : y.unit.encoder.code = x.unit.encoder.code ↔ is = [] := by
  rw [← Array.toList_inj, h.code]
  constructor
  · intro heq
    have hbytes : is.flatMap Instruction.bytes = [] := by simpa using heq
    cases is with
    | nil => rfl
    | cons i is =>
      obtain ⟨hpos, -⟩ := i.length_bytes_bounds
      simp only [List.flatMap_cons, List.append_eq_nil_iff] at hbytes
      simp [hbytes.1] at hpos
  · rintro rfl
    simp

private theorem abandoned_of_epilog_eq_error {e : CodegenError} (hbody : x.recorder.phase = .body)
    (h : epilog x = .error (.error e) y) :
    ∃ is rest, x.frame.epilogPlan = is.map .ok ++ .error (.error e) :: rest ∧ Abandoned x y is := by
  obtain ⟨r, hopen, hops⟩ := Tracker.record_beginEpilog_of_body hbody
  obtain ⟨opened, is, rest, hopened, hplan, rfl⟩ := epilog_eq_error_iff.1 h
  cases hopen.symm.trans hopened
  refine ⟨is, rest, hplan, ?_, ?_, rfl, rfl, rfl, rfl, hops⟩
  · simp [appendAll, Encoder.code_appendAll]
  · simp [appendAll]

/-- An epilog returns an error exactly if one of its instructions cannot be encoded, and then nothing is undone: the
    instructions before that one stay in the code, and the epilog stays open. So nothing can be reserved or committed
    for the unit any more, and the function can have no further epilog. -/
theorem epilog_abandoned (hbody : x.recorder.phase = .body) :
    (∀ e, (∃ y, epilog x = .error (.error e) y) ↔
      ∃ (is : List Instruction) (rest : List (Except (Stop CodegenError) Instruction)),
        x.frame.epilogPlan = is.map .ok ++ .error (.error e) :: rest) ∧
    ∀ e y, epilog x = .error (.error e) y →
      (∃ is rest, x.frame.epilogPlan = is.map .ok ++ .error (.error e) :: rest ∧ Abandoned x y is ∧
        (y.unit.encoder.code = x.unit.encoder.code ↔ is = [])) ∧
      (∀ (c : Context) (call : HostCall), y.recorder ∈ c.trackers →
        ∃ fault ∈ [Fault.prologOpen, .epilogOpen], ∀ {σ : Type} (host : Host σ) (s : Exchange σ),
          c.perform host call s = .error (.fault fault) s) ∧
      ∀ z : Emission Tracker, z.recorder = y.recorder → epilog z = .error (.fault .epilogOutsideBody) z := by
  refine ⟨fun e => ⟨?_, ?_⟩, fun e y h => ?_⟩
  · rintro ⟨y, h⟩
    obtain ⟨is, rest, hplan, -⟩ := abandoned_of_epilog_eq_error hbody h
    exact ⟨is, rest, hplan⟩
  · rintro ⟨is, rest, hplan⟩
    obtain ⟨r, hopen, -⟩ := Tracker.record_beginEpilog_of_body hbody
    exact ⟨_, epilog_eq_error_iff.2 ⟨_, is, rest, hopen, hplan, rfl⟩⟩
  · obtain ⟨is, rest, hplan, habandoned⟩ := abandoned_of_epilog_eq_error hbody h
    refine ⟨⟨is, rest, hplan, habandoned, habandoned.code_eq_iff⟩, fun c call hmem => ?_, fun z hz => ?_⟩
    · exact Context.perform_of_inEpilog hmem habandoned.phase call
    · have hphase : z.recorder.phase = .inEpilog := by rw [hz, habandoned.phase]
      obtain ⟨hrecord, hmessages⟩ := Tracker.record_beginEpilog_of_inEpilog hphase
      have hreport : report .beginEpilog z = .error (.fault .epilogOutsideBody) z :=
        report_eq_error_iff.2 ⟨_, _, hrecord, rfl, by rw [hmessages, List.append_nil]⟩
      rw [epilog_eq, epilogOf_eq, run_bind_of_eq_error hreport]

/-- The body of a function whose frame is to be taken down by popping `rbx` and a register that does not exist. -/
def openSample : Emission Tracker where
  unit := { encoder := { code := #[0x55, 0x48, 0x89, 0xE5] } }
  recorder := { recorder := .x64 { ops := [.push .rbp, .setFrame .rbp 0] }, phase := .body }
  frame := { savedRegisters := [.gp 16, .gp 3] }

theorem epilog_abandoned_openSample :
    openSample.recorder.phase = .body ∧
      ∃ y, epilog openSample = .error (.error (.encode .invalidRegister)) y ∧
        (∃ is rest, openSample.frame.epilogPlan = is.map .ok ++ .error (.error (.encode .invalidRegister)) :: rest ∧
          Abandoned openSample y is) ∧ epilog y = .error (.fault .epilogOutsideBody) y := by
  obtain ⟨hends, hleft⟩ := @epilog_abandoned openSample rfl
  obtain ⟨y, hy⟩ := (hends (.encode .invalidRegister)).2 ⟨[.pop 3], [.ok (.pop 5), .ok .ret], by decide +kernel⟩
  obtain ⟨⟨is, rest, hplan, habandoned, -⟩, -, hlater⟩ := hleft _ y hy
  exact ⟨rfl, y, hy, ⟨is, rest, hplan, habandoned⟩, hlater y rfl⟩

/-- The pop of `rbx` stays in the code, storage can no longer be reserved, and the frame that was set up cannot be
    taken down any more, which could be done before. -/
theorem epilog_left_open_openSample :
    let y := endState (epilog openSample)
    verdict (epilog openSample) = .error (.error (.encode .invalidRegister)) ∧
      openSample.unit.encoder.code = #[0x55, 0x48, 0x89, 0xE5] ∧
      y.unit.encoder.code = #[0x55, 0x48, 0x89, 0xE5, 0x5B] ∧
      openSample.recorder.phase = .body ∧ y.recorder.phase = .inEpilog ∧
      verdict ((Context.single openSample.recorder).reserve Ledger.host { host := {} }) = .ok () ∧
      verdict ((Context.single y.recorder).reserve Ledger.host { host := {} }) = .error (.fault .epilogOpen) ∧
      verdict (epilog { openSample with frame := {} }) = .ok () ∧
      verdict (epilog { y with frame := {} }) = .error (.fault .epilogOutsideBody) := by
  decide +kernel

end Emission

end StackUnwind
