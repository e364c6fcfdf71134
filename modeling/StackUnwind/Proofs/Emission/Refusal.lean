import StackUnwind.Proofs.Emission.Prolog
import StackUnwind.Proofs.Prolog.Demands
import StackUnwind.Proofs.Recorder.Opening

namespace StackUnwind

namespace FrameLayout

/-- What is demanded of a frame and the size calculated for it. -/
structure Acceptable (frame : FrameLayout) (size : UInt32) : Prop where
  pointer_dvd : 16 ∣ frame.framePointerOffset.toNat
  pointer_le : frame.framePointerOffset.toNat ≤ 240
  pointer_le_size : frame.framePointerOffset.toNat ≤ size.toNat
  saved : ∀ reg ∈ frame.savedRegisters, reg.NamesGp ∧ reg ≠ .rsp ∧ reg ≠ .rbp
  savedXmm : ∀ reg ∈ frame.savedXmm, reg.NamesXmm
  size_le : size.toNat ≤ 2 ^ 31 - 1

/-- How many operations the prolog of a frame has at most. -/
def maxOps (frame : FrameLayout) : Nat := frame.savedRegisters.length + frame.savedXmm.length + 3

variable {frame : FrameLayout} {size : UInt32} {saves : List PrologOp}

private theorem valid_iff_acceptable : { frame with frameSize := size }.Valid ↔ frame.Acceptable size := by
  constructor
  · intro h
    refine ⟨h.pointer_dvd, h.pointer_le, h.pointer_le_size, fun reg hreg => ?_, fun reg hreg => ?_,
      Nat.le_of_lt_succ h.size_lt⟩
    · obtain ⟨hrbp, hrsp, hnumber⟩ := h.gp reg hreg
      exact ⟨Register.exists_numberIn?_iff.1 hnumber, hrsp, hrbp⟩
    · exact Register.exists_numberIn?_iff.1 (h.xmm reg hreg)
  · intro h
    refine ⟨h.pointer_dvd, h.pointer_le, h.pointer_le_size, fun reg hreg => ?_, fun reg hreg => ?_,
      Nat.lt_succ_of_le h.size_le⟩
    · obtain ⟨hnames, hrsp, hrbp⟩ := h.saved reg hreg
      exact ⟨hrbp, hrsp, Register.exists_numberIn?_iff.2 hnames⟩
    · exact Register.exists_numberIn?_iff.2 (h.savedXmm reg hreg)

/-- Every operation of a frame that can be set up has an instruction. -/
theorem Fits.encodable (h : frame.Fits saves) :
    ∀ op ∈ frame.bodyOps saves ++ [.setFrame .rbp frame.framePointerOffset], op.Encodable := by
  have hrbp : Register.rbp.NamesGp := by decide
  intro op hop
  rcases List.mem_append.1 hop with hop | hop
  · obtain ⟨reg, hreg, rfl⟩ | ⟨-, rfl⟩ | ⟨reg, hreg, offset, rfl⟩ := h.cases_bodyOps hop
    · rcases List.mem_cons.1 hreg with rfl | hreg
      · exact hrbp
      · obtain ⟨-, -, hnumber⟩ := h.valid.gp reg hreg
        exact Register.exists_numberIn?_iff.1 hnumber
    · exact h.valid.size_lt
    · have hbounds := h.slots.offset_bounds (save_mem_bodyOps_iff.1 hop)
      have hroom := h.room
      have hsize := h.valid.size_lt
      exact ⟨.inr (Register.exists_numberIn?_iff.1 (h.valid.xmm reg hreg)), by omega⟩
  · cases List.mem_singleton.1 hop
    exact ⟨hrbp, Nat.lt_of_le_of_lt h.valid.pointer_le (by decide)⟩

/-- The operations of a prolog exist for every frame of calculated size, and if the frame can be set up they can all
    be performed. -/
theorem exists_performed_prologOps (hcalculated : frame.calculateFrameSize = .ok { frame with frameSize := size })
    (hcount : frame.savedXmm.length < 2 ^ 32) (hacceptable : frame.Acceptable size) :
    ∃ ops is, { frame with frameSize := size }.prologOps = .ok ops ∧ List.Forall₂ PrologOp.PerformedBy ops is ∧
      ops.length ≤ frame.maxOps := by
  obtain ⟨saves, hsaves⟩ : ∃ saves, { frame with frameSize := size }.xmmSaves 0 frame.savedXmm = .ok saves :=
    ⟨_, (sized_of_calculated hcount hcalculated).xmmSaves⟩
  have hfits := fits_of_calculated hcalculated hsaves (valid_iff_acceptable.2 hacceptable)
  obtain ⟨is, his⟩ := PrologOp.exists_performed_iff.2 hfits.encodable
  refine ⟨_, is, prologOps_eq_ok_iff.2 ⟨saves, hsaves, rfl⟩, his, ?_⟩
  have hbody := length_bodyOps_le { frame with frameSize := size } saves
  rw [hfits.slots.length_eq] at hbody
  rw [List.length_append, List.length_singleton]
  exact Nat.succ_le_succ hbody

end FrameLayout

namespace Emission

open FrameRecorder

variable {ρ : Type} {x y : Emission ρ} {size : UInt32}

/-- No frame is prepared in cold code. -/
theorem prepareFrame_eq_error_of_cold (hcold : x.unit.coldStart ≠ none) :
    prepareFrame x = .error (.error .coldSectionStarted) x := by
  rw [prepareFrame_eq, if_pos]
  rwa [UnitCode.inColdSection, Option.isSome_iff_ne_none]

/-- In hot code it is the frame that decides. -/
theorem prepareFrame_of_hot (hhot : x.unit.coldStart = none) :
    prepareFrame x = match x.frame.calculateFrameSize with
      | .error fault => .error (.fault fault) x
      | .ok frame =>
        if frame.canBeSetUp then .ok frame { x with frame } else .error (.error .invalidFrame) { x with frame } := by
  refine (prepareFrame_eq x).trans (if_neg ?_)
  rw [UnitCode.inColdSection, hhot]
  exact Bool.false_ne_true

/-- A frame that is not acceptable is refused, and its size stays. -/
theorem prepareFrame_eq_error_of_hot
    (hcalculated : x.frame.calculateFrameSize = .ok { x.frame with frameSize := size })
    (hhot : x.unit.coldStart = none) (hnot : ¬ x.frame.Acceptable size) :
    prepareFrame x = .error (.error .invalidFrame) { x with frame := { x.frame with frameSize := size } } := by
  have hset : ¬ { x.frame with frameSize := size }.canBeSetUp = true := by
    rwa [FrameLayout.canBeSetUp_iff, FrameLayout.valid_iff_acceptable]
  rw [prepareFrame_of_hot hhot, hcalculated]
  exact if_neg hset

variable [FrameRecorder ρ]

/-- Operations that have instructions are performed if the recorder takes them. -/
theorem exists_forM_perform {ops : List PrologOp} {is : List Instruction} {r : ρ}
    (h : List.Forall₂ PrologOp.PerformedBy ops is) (hrecord : recordAll (ops.map .op) x.recorder = .ok () r) :
    ∃ y, ops.forM perform x = .ok () y ∧ y.recorder = r := by
  induction h generalizing x with
  | nil =>
    cases hrecord
    exact ⟨x, rfl, rfl⟩
  | @cons op i ops is hop _ ih =>
    obtain ⟨s, hs, hrest⟩ := recordAll_cons_eq_ok_iff.1 hrecord
    obtain ⟨z, hz⟩ : ∃ z, perform op x = .ok () z ∧ z.recorder = s :=
      ⟨_, perform_eq_ok_iff.2 ⟨i, s, hop, hs, rfl⟩, rfl⟩
    obtain ⟨y, hy, hrecorder⟩ := @ih z (by rw [hz.2]; exact hrest)
    refine ⟨y, ?_, hrecorder⟩
    simp only [List.forM_eq_forM, List.forM_cons, run_bind_eq_ok_iff]
    exact ⟨(), z, hz.1, hy⟩

/-- After the frame has been prepared nothing stops the prolog. -/
theorem exists_prolog_of_prepareFrame {frame : FrameLayout} {ops : List PrologOp} {is : List Instruction} {r : ρ}
    (hprepare : prepareFrame x = .ok frame y) (hops : frame.prologOps = .ok ops)
    (hperformed : List.Forall₂ PrologOp.PerformedBy ops is)
    (hrecord : recordAll (FrameEvent.ofProlog ops) y.recorder = .ok () r) : ∃ z, prolog x = .ok () z := by
  obtain ⟨opened, filled, hbegin, hfill, hend⟩ := recordAll_ofProlog_eq_ok_iff.1 hrecord
  obtain ⟨first, hfirst⟩ : ∃ first, report .beginProlog y = .ok () first ∧ first.recorder = opened :=
    ⟨_, report_eq_ok_iff.2 ⟨opened, hbegin, rfl⟩, rfl⟩
  obtain ⟨second, hsecond, hfilled⟩ := exists_forM_perform hperformed (by rw [hfirst.2]; exact hfill)
  obtain ⟨z, hz⟩ : ∃ z, report .endProlog second = .ok () z :=
    ⟨_, report_eq_ok_iff.2 ⟨r, by rw [hfilled]; exact hend, rfl⟩⟩
  refine ⟨z, ?_⟩
  simp only [prolog_eq, run_bind_eq_ok_iff, forM_performStep_eq_ok_iff, FrameLayout.prologSteps_eq_map_ok_iff]
  exact ⟨frame, y, hprepare, (), first, hfirst.1, (), second, ⟨ops, hops, hsecond⟩, hz⟩

/-- A prolog of a frame that is refused is refused for the same reason. -/
theorem prolog_of_prepareFrame {stop : Stop CodegenError} (h : prepareFrame x = .error stop y) :
    prolog x = .error stop y := by
  rw [prolog, run_bind_of_eq_error h]

/-- What writing a prolog can come to. -/
structure AllOrNothing (x : Emission ρ) (size : UInt32) : Prop where
  /-- It is written exactly when there is no cold code yet and the frame is acceptable. -/
  written_iff : (∃ y, prolog x = .ok () y) ↔ x.unit.coldStart = none ∧ x.frame.Acceptable size
  /-- Otherwise preparing the frame is as far as it gets. -/
  refused : ∀ stop y, prolog x = .error stop y → prepareFrame x = .error stop y ∧
    (x.unit.coldStart ≠ none ∧ stop = .error .coldSectionStarted ∧ y = x ∨
      x.unit.coldStart = none ∧ stop = .error .invalidFrame ∧
        y = { x with frame := { x.frame with frameSize := size } })
  /-- So the recorder takes the prolog of another frame later. -/
  again : ∀ stop y, prolog x = .error stop y → ∀ (z : Emission ρ) (later : UInt32), z.recorder = y.recorder →
    z.frame.calculateFrameSize = .ok { z.frame with frameSize := later } → z.frame.savedXmm.length < 2 ^ 32 →
    TakesProlog x.recorder z.frame.maxOps → z.unit.coldStart = none → z.frame.Acceptable later →
    ∃ z', prolog z = .ok () z'

private theorem exists_prolog (hcalculated : x.frame.calculateFrameSize = .ok { x.frame with frameSize := size })
    (hcount : x.frame.savedXmm.length < 2 ^ 32) (htakes : TakesProlog x.recorder x.frame.maxOps)
    (hhot : x.unit.coldStart = none) (hacceptable : x.frame.Acceptable size) : ∃ y, prolog x = .ok () y := by
  obtain ⟨ops, is, hops, his, hlength⟩ := FrameLayout.exists_performed_prologOps hcalculated hcount hacceptable
  obtain ⟨r, hr⟩ := htakes ops hlength
  have hvalid := FrameLayout.valid_iff_acceptable.2 hacceptable
  have hprepare := prepareFrame_eq_ok_iff.2 ⟨hhot, hcalculated, FrameLayout.canBeSetUp_iff.2 hvalid, rfl⟩
  exact exists_prolog_of_prepareFrame hprepare hops his hr

/-- The three ways in which a prolog can end. -/
theorem prolog_cases (hcalculated : x.frame.calculateFrameSize = .ok { x.frame with frameSize := size })
    (hcount : x.frame.savedXmm.length < 2 ^ 32) (htakes : TakesProlog x.recorder x.frame.maxOps) :
    (x.unit.coldStart ≠ none ∧ prepareFrame x = .error (.error .coldSectionStarted) x) ∨
    (x.unit.coldStart = none ∧ ¬ x.frame.Acceptable size ∧
      prepareFrame x = .error (.error .invalidFrame) { x with frame := { x.frame with frameSize := size } }) ∨
    (x.unit.coldStart = none ∧ x.frame.Acceptable size ∧ ∃ y, prolog x = .ok () y) := by
  by_cases hhot : x.unit.coldStart = none
  · by_cases hacceptable : x.frame.Acceptable size
    · exact .inr (.inr ⟨hhot, hacceptable, exists_prolog hcalculated hcount htakes hhot hacceptable⟩)
    · exact .inr (.inl ⟨hhot, hacceptable, prepareFrame_eq_error_of_hot hcalculated hhot hacceptable⟩)
  · exact .inl ⟨hhot, prepareFrame_eq_error_of_cold hhot⟩

section Outcome

variable (hcalculated : x.frame.calculateFrameSize = .ok { x.frame with frameSize := size })
  (hcount : x.frame.savedXmm.length < 2 ^ 32) (htakes : TakesProlog x.recorder x.frame.maxOps)
include hcalculated hcount htakes

/-- A prolog that the recorder can take succeeds exactly in hot code and for an acceptable frame. -/
theorem exists_prolog_iff :
    (∃ y, prolog x = .ok () y) ↔ x.unit.coldStart = none ∧ x.frame.Acceptable size := by
  constructor
  · rintro ⟨y, hy⟩
    obtain ⟨-, hprepare⟩ | ⟨-, -, hprepare⟩ | ⟨hhot, hacceptable, -⟩ := prolog_cases hcalculated hcount htakes
    · cases (prolog_of_prepareFrame hprepare).symm.trans hy
    · cases (prolog_of_prepareFrame hprepare).symm.trans hy
    · exact ⟨hhot, hacceptable⟩
  · rintro ⟨hhot, hacceptable⟩
    exact exists_prolog hcalculated hcount htakes hhot hacceptable

/-- A prolog that is refused is refused before anything is written, for one of two reasons. -/
theorem of_prolog_eq_error {stop : Stop CodegenError} (h : prolog x = .error stop y) :
    prepareFrame x = .error stop y ∧
    (x.unit.coldStart ≠ none ∧ stop = .error .coldSectionStarted ∧ y = x ∨
      x.unit.coldStart = none ∧ stop = .error .invalidFrame ∧
        y = { x with frame := { x.frame with frameSize := size } }) := by
  obtain ⟨hcold, hprepare⟩ | ⟨hhot, -, hprepare⟩ | ⟨-, -, z, hz⟩ := prolog_cases hcalculated hcount htakes
  · cases (prolog_of_prepareFrame hprepare).symm.trans h
    exact ⟨hprepare, .inl ⟨hcold, rfl, rfl⟩⟩
  · cases (prolog_of_prepareFrame hprepare).symm.trans h
    exact ⟨hprepare, .inr ⟨hhot, rfl, rfl⟩⟩
  · cases hz.symm.trans h

private theorem recorder_of_prolog_eq_error {stop : Stop CodegenError} (h : prolog x = .error stop y) :
    y.recorder = x.recorder := by
  obtain ⟨-, ⟨-, -, rfl⟩ | ⟨-, -, rfl⟩⟩ := of_prolog_eq_error hcalculated hcount htakes h
  · rfl
  · rfl

end Outcome

/-- Writing a prolog fails before it touches anything or not at all, whichever recorder it is told to. A recorder has
    to be able to take a prolog, which means that it has not been told one before. -/
theorem prolog_all_or_nothing :
    (∀ {ρ : Type} [FrameRecorder ρ] (x : Emission ρ) (size : UInt32),
      x.frame.calculateFrameSize = .ok { x.frame with frameSize := size } → x.frame.savedXmm.length < 2 ^ 32 →
      TakesProlog x.recorder x.frame.maxOps → x.AllOrNothing size) ∧
    (∀ (r : Recorder) (n : Nat), TakesProlog r n ↔ r.MayOpen n) ∧
    ∀ (t : Tracker) (n : Nat), TakesProlog t n ↔ t.MayOpen n := by
  refine ⟨?_, fun r n => Recorder.takesProlog_iff, fun t n => Tracker.takesProlog_iff⟩
  intro ρ _ x size hcalculated hcount htakes
  refine ⟨exists_prolog_iff hcalculated hcount htakes, fun _ _ => of_prolog_eq_error hcalculated hcount htakes, ?_⟩
  intro stop y h z later hsame hcalculated' hcount' htakes' hhot hacceptable
  -- The recorder has not been told anything, so it is as able to take a prolog as before.
  have hrecorder := recorder_of_prolog_eq_error hcalculated hcount htakes h
  rw [← hrecorder, ← hsame] at htakes'
  exact exists_prolog hcalculated' hcount' htakes' hhot hacceptable

/-- The sample frame is set up, and one that preserves the stack pointer is not. -/
theorem prolog_all_or_nothing_sample :
    (∃ y, prolog sample = .ok () y) ∧
    let spoiled := { sample with frame := { FrameLayout.sample with savedRegisters := [.rsp] } }
    ¬ (∃ y, prolog spoiled = .ok () y) ∧
      ∀ stop y, prolog spoiled = .error stop y →
        y = { spoiled with frame := { spoiled.frame with frameSize := 56 } } := by
  have htakes (n : Nat) : TakesProlog sample.recorder n :=
    (prolog_all_or_nothing.2.2 sample.recorder n).2 ⟨rfl, rfl, nofun⟩
  have hsample := prolog_all_or_nothing.1 sample 56 rfl (by decide) (htakes _)
  have hspoiled := prolog_all_or_nothing.1
    { sample with frame := { FrameLayout.sample with savedRegisters := [.rsp] } } 56 rfl (by decide) (htakes _)
  refine ⟨hsample.written_iff.2 ⟨rfl, ?_⟩, fun h => ?_, fun stop y h => ?_⟩
  · exact ⟨by decide, by decide, by decide, by decide, by decide, by decide⟩
  · obtain ⟨-, hacceptable⟩ := hspoiled.written_iff.1 h
    exact (hacceptable.saved .rsp (.head _)).2.1 rfl
  · obtain ⟨-, ⟨hcold, -, -⟩ | ⟨-, -, heq⟩⟩ := hspoiled.refused stop y h
    · exact absurd rfl hcold
    · exact heq

end Emission

end StackUnwind
