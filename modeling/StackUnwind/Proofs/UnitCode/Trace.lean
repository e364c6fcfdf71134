import StackUnwind.Proofs.UnitCode.Calls

namespace StackUnwind

namespace FrameLayout

/-- The instructions of operations as a code generator asks for them, as far as the operations could be made up. -/
def stepDrafts : Except Fault PrologOp → List Draft
  | .ok op => [op.draft]
  | .error _ => []

/-- The instructions of a prolog as a code generator asks for them, if the size of the frame can be calculated. -/
def prologDrafts (frame : FrameLayout) : List Draft :=
  match frame.calculateFrameSize with
  | .ok frame => frame.prologSteps.flatMap stepDrafts
  | .error _ => []

/-- The loads of vector registers, as far as their slots can be computed. -/
def reloadDrafts (frame : FrameLayout) (index : Nat) : List Register → List Draft
  | [] => []
  | reg :: regs =>
    match frame.xmmSlot index with
    | .ok offset => .load reg .rsp offset :: frame.reloadDrafts (index + 1) regs
    | .error _ => []

end FrameLayout

namespace Emission

variable {ρ α β : Type} {x : Emission ρ} {plan plan' : List Draft}

/-- Whether work has asked the encoder for the first instructions of a plan, and for all of them if it has come to its
    end. -/
structure Drives (x : Emission ρ) (plan drafts : List Draft)
    (r : EStateM.Result (Stop CodegenError) (Emission ρ) α) : Prop where
  begun : drafts <+: plan
  unit : (endState r).unit = { x.unit with encoder := x.unit.encoder.afterAll (drafts.map .emit) }
  complete : succeeds r = true → drafts = plan

private theorem drives_nil {r : EStateM.Result (Stop CodegenError) (Emission ρ) α} (h : (endState r).unit = x.unit) :
    Drives x [] [] r :=
  ⟨List.prefix_rfl, h, fun _ => rfl⟩

private theorem drives_of_error {stop : Stop CodegenError} (plan : List Draft) :
    Drives x plan [] (EStateM.Result.error stop x : EStateM.Result _ _ α) :=
  ⟨List.nil_prefix, rfl, fun h => nomatch h⟩

/-- What comes after work that has ended goes on with the next plan. -/
theorem Drives.exists_bind {m : EmissionM ρ α} {f : α → EmissionM ρ β} {drafts : List Draft}
    (hfirst : Drives x plan drafts (m x)) (hrest : ∀ a y, m x = .ok a y → ∃ drafts, Drives y plan' drafts (f a y)) :
    ∃ drafts, Drives x (plan ++ plan') drafts ((m >>= f) x) := by
  simp only [bind, EStateM.bind]
  cases hm : m x with
  | error stop y =>
    rw [hm] at hfirst
    exact ⟨drafts, hfirst.begun.trans (List.prefix_append _ _), hfirst.unit, fun h => nomatch h⟩
  | ok a y =>
    rw [hm] at hfirst
    obtain rfl := hfirst.complete rfl
    obtain ⟨drafts', hdrives⟩ := hrest a y hm
    refine ⟨drafts ++ drafts', (List.prefix_append_right_inj _).2 hdrives.begun, ?_, fun h => ?_⟩
    · have hunit : y.unit = { x.unit with encoder := x.unit.encoder.afterAll (drafts.map .emit) } := hfirst.unit
      rw [hdrives.unit, hunit, List.map_append, Encoder.afterAll_append]
    · rw [hdrives.complete h]

private theorem drives_emit (draft : Draft) (x : Emission ρ) : Drives x [draft] [draft] (emit draft x) := by
  refine ⟨List.prefix_rfl, ?_, fun _ => rfl⟩
  rw [emit, endState_onPart, UnitCode.endState_onEncoder]
  rfl

private theorem exists_drives_emit_bind {draft : Draft} {f : Unit → EmissionM ρ β}
    (hrest : ∀ y, emit draft x = .ok () y → ∃ drafts, Drives y plan' drafts (f () y)) :
    ∃ drafts, Drives x (draft :: plan') drafts ((emit draft >>= f) x) :=
  (drives_emit draft x).exists_bind fun _ => hrest

private theorem exists_drives_forM {work : α → EmissionM ρ Unit} {drafts : α → List Draft}
    (hwork : ∀ a y, ∃ made, Drives y (drafts a) made (work a y)) (as : List α) (x : Emission ρ) :
    ∃ made, Drives x (as.flatMap drafts) made (as.forM work x) := by
  rw [List.forM_eq_forM]
  induction as generalizing x with
  | nil => exact ⟨[], drives_nil rfl⟩
  | cons a as ih =>
    obtain ⟨made, hdrives⟩ := hwork a x
    rw [List.forM_cons]
    exact hdrives.exists_bind fun _ y _ => ih y

private theorem exists_drives_reloadXmm (frame : FrameLayout) (index : Nat) (regs : List Register) (x : Emission ρ) :
    ∃ drafts, Drives x (frame.reloadDrafts index regs) drafts (reloadXmm frame index regs x) := by
  induction regs generalizing index x with
  | nil => exact ⟨[], drives_nil rfl⟩
  | cons reg regs ih =>
    rw [reloadXmm, FrameLayout.reloadDrafts]
    cases frame.xmmSlot index with
    | error fault => exact ⟨[], drives_of_error []⟩
    | ok offset => exact exists_drives_emit_bind fun y _ => ih (index + 1) y

private theorem drives_prepareFrame (x : Emission ρ) : Drives x [] [] (prepareFrame x) :=
  drives_nil (prepareFrame_keeps x).1

variable [FrameRecorder ρ]

private theorem drives_report (event : FrameEvent) (x : Emission ρ) : Drives x [] [] (report event x) := by
  refine drives_nil ?_
  rw [report_eq]
  cases FrameRecorder.record event x.recorder <;> rfl

private theorem exists_drives_report_bind {event : FrameEvent} {f : Unit → EmissionM ρ β}
    (hrest : ∀ y, report event x = .ok () y → ∃ drafts, Drives y plan' drafts (f () y)) :
    ∃ drafts, Drives x plan' drafts ((report event >>= f) x) :=
  (drives_report event x).exists_bind fun _ => hrest

private theorem exists_drives_performStep (step : Except Fault PrologOp) (x : Emission ρ) :
    ∃ drafts, Drives x (FrameLayout.stepDrafts step) drafts (performStep step x) := by
  cases step with
  | error fault => exact ⟨[], drives_of_error []⟩
  | ok op => exact exists_drives_emit_bind fun y _ => ⟨[], drives_report _ y⟩

/-- A prolog asks for its instructions in order, up to the one that fails. -/
theorem exists_drives_prolog (x : Emission ρ) : ∃ drafts, Drives x x.frame.prologDrafts drafts (prolog x) := by
  rw [prolog_eq]
  refine (drives_prepareFrame x).exists_bind fun frame y hprepare => ?_
  obtain ⟨-, hsize, -, rfl⟩ := prepareFrame_eq_ok_iff.1 hprepare
  rw [hsize]
  refine exists_drives_report_bind fun y _ => ?_
  obtain ⟨drafts, hdrives⟩ := exists_drives_forM exists_drives_performStep frame.prologSteps y
  have hlast := hdrives.exists_bind (f := fun _ => report .endProlog) fun _ z _ => ⟨[], drives_report _ z⟩
  rwa [List.append_nil] at hlast

/-- So does an epilog. -/
theorem exists_drives_epilog (x : Emission ρ) :
    ∃ drafts, Drives x (x.frame.epilogDrafts (x.frame.reloadDrafts 0 x.frame.savedXmm)) drafts (epilog x) := by
  have htakeDown (y : Emission ρ) : ∃ drafts, Drives y (x.frame.savedRegisters.reverse.map .pop ++ [.pop .rbp, .ret])
      drafts (takeDown x.frame y) := by
    obtain ⟨drafts, hdrives⟩ := exists_drives_forM
      (fun reg y => ⟨_, drives_emit (.pop reg) y⟩) x.frame.savedRegisters.reverse y
    rw [← List.map_eq_flatMap] at hdrives
    refine hdrives.exists_bind fun _ z _ => ?_
    refine exists_drives_emit_bind fun z _ => exists_drives_emit_bind fun z _ => ?_
    exact ⟨[], drives_report _ z⟩
  rw [epilog_eq, epilogOf, FrameLayout.epilogDrafts, List.append_assoc, List.append_assoc]
  refine exists_drives_report_bind fun y _ => ?_
  obtain ⟨drafts, hdrives⟩ := exists_drives_reloadXmm x.frame 0 x.frame.savedXmm y
  refine hdrives.exists_bind fun _ z _ => ?_
  split
  · exact exists_drives_emit_bind fun z _ => htakeDown z
  · exact htakeDown z

end Emission

/-- A call on the code of a unit. Prologs and epilogs are reported to a recorder, which may be any. -/
inductive CodeCall (ρ : Type) where
  | unit (call : UnitCall)
  | prolog (recorder : ρ) (frame : FrameLayout)
  | epilog (recorder : ρ) (frame : FrameLayout)

namespace UnitCode

variable {ρ : Type} [FrameRecorder ρ] {unit : UnitCode} {calls : List (CodeCall ρ)} {call : CodeCall ρ}
  {made more : List Encoder.Call}

/-- The code after a call, however the call ends. -/
def after (unit : UnitCode) : CodeCall ρ → UnitCode
  | .unit call => endState (perform call unit)
  | .prolog recorder frame => (endState (Emission.prolog { unit, recorder, frame })).unit
  | .epilog recorder frame => (endState (Emission.epilog { unit, recorder, frame })).unit

/-- The code after a run of calls, failing ones among them. -/
def run (calls : List (CodeCall ρ)) : UnitCode := calls.foldl after {}

theorem run_concat (calls : List (CodeCall ρ)) (call : CodeCall ρ) :
    run (calls ++ [call]) = (run calls).after call := by
  rw [run, List.foldl_append]
  rfl

theorem run_append_cons (before after : List (CodeCall ρ)) (call : CodeCall ρ) :
    run (before ++ call :: after) = after.foldl UnitCode.after ((run before).after call) := List.foldl_append

/-- The calls on the encoder that a call makes. -/
inductive Makes (unit : UnitCode) : CodeCall ρ → List Encoder.Call → Prop where
  | unit (call : UnitCall) : Makes unit (.unit call) (unit.made call)
  | prolog {recorder : ρ} {frame : FrameLayout} {drafts : List Draft}
      (h : Emission.Drives { unit, recorder, frame } frame.prologDrafts drafts
        (Emission.prolog { unit, recorder, frame })) : Makes unit (.prolog recorder frame) (drafts.map .emit)
  | epilog {recorder : ρ} {frame : FrameLayout} {drafts : List Draft}
      (h : Emission.Drives { unit, recorder, frame } (frame.epilogDrafts (frame.reloadDrafts 0 frame.savedXmm)) drafts
        (Emission.epilog { unit, recorder, frame })) : Makes unit (.epilog recorder frame) (drafts.map .emit)

/-- Every call makes some calls on the encoder. -/
theorem exists_makes (unit : UnitCode) (call : CodeCall ρ) : ∃ made, unit.Makes call made := by
  cases call with
  | unit call => exact ⟨_, .unit call⟩
  | prolog recorder frame =>
    obtain ⟨drafts, h⟩ := Emission.exists_drives_prolog { unit, recorder, frame }
    exact ⟨_, .prolog h⟩
  | epilog recorder frame =>
    obtain ⟨drafts, h⟩ := Emission.exists_drives_epilog { unit, recorder, frame }
    exact ⟨_, .epilog h⟩

/-- The encoder is where these calls bring it. -/
theorem Makes.encoder (h : unit.Makes call made) : (unit.after call).encoder = unit.encoder.afterAll made := by
  cases h with
  | unit call => exact encoder_perform call unit
  | prolog h => exact congrArg UnitCode.encoder h.unit
  | epilog h => exact congrArg UnitCode.encoder h.unit

/-- The calls on the encoder that a run of calls makes. -/
inductive Traces : List (CodeCall ρ) → List Encoder.Call → Prop where
  | nil : Traces [] []
  | concat {calls : List (CodeCall ρ)} {call : CodeCall ρ} {made more : List Encoder.Call} (h : Traces calls made)
      (hcall : (run calls).Makes call more) : Traces (calls ++ [call]) (made ++ more)

/-- Every run makes some calls on the encoder. -/
theorem exists_traces (calls : List (CodeCall ρ)) : ∃ made, Traces calls made := by
  induction calls using List.reverseRecOn with
  | nil => exact ⟨[], .nil⟩
  | append_singleton calls call ih =>
    obtain ⟨made, h⟩ := ih
    obtain ⟨more, hcall⟩ := exists_makes (run calls) call
    exact ⟨_, h.concat hcall⟩

/-- The encoder of a unit is that of the calls made on it. -/
theorem Traces.encoder (h : Traces calls made) : (run calls).encoder = Encoder.run made := by
  induction h with
  | nil => rfl
  | concat _ hcall ih => rw [run_concat, hcall.encoder, ih, Encoder.run_append]

end UnitCode

end StackUnwind
