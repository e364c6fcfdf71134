import StackUnwind.Proofs.Emission.Mirror
import StackUnwind.Proofs.Machine.Frame

namespace StackUnwind

namespace RecordImage

/-- The machine after the unwinder has undone, from the last one back, the operations that are complete at
    an offset in the prolog. -/
def replay (image : RecordImage) (offset : Nat) (m : Machine) : Machine :=
  (image.steps.filter fun step => decide (step.1 ≤ offset)).foldl (fun m step => m.revert step.2) m

/-- What unwinding by a record has to achieve for a prolog, whatever state `m` the function is entered in. -/
structure Unwinds (image : RecordImage) (frame : FrameLayout) (is : List Instruction) : Prop where
  /-- Between any two instructions of the prolog every register gets the value it was entered with. -/
  inProlog : ∀ (m : Machine) (count : Nat),
    let unwound := image.replay (Instruction.totalLength (is.take count)) (m.run (is.take count))
    unwound.gp = m.gp ∧ unwound.xmm = m.xmm
  /-- A body may change everything but the frame pointer and what lies above the locals. The stack pointer
      and the preserved registers get the values they were entered with, and the others are kept. -/
  inBody : ∀ m body : Machine, body.gp 5 = (m.run is).gp 5 →
    (∀ a, (m.run is).sp + frame.localsEnd ≤ a → body.stack a = (m.run is).stack a) →
    let unwound := image.replay image.prologSize body
    let gpSaved := (.rbp :: frame.savedRegisters).map fun reg => nibble reg.id.toNat
    let xmmSaved := frame.savedXmm.map fun reg => nibble reg.id.toNat
    unwound.sp = m.sp ∧
      (∀ n ≠ 4, unwound.gp n = if n ∈ gpSaved then m.gp n else body.gp n) ∧
      ∀ n, unwound.xmm n = if n ∈ xmmSaved then m.xmm n else body.xmm n

end RecordImage

namespace Instruction

private theorem lt_of_mem_ends {start offset : Nat} {is : List Instruction} (h : offset ∈ ends start is) :
    start < offset := by
  induction is generalizing start with
  | nil => cases h
  | cons i is ih =>
    have hlength := (length_bytes_bounds i).1
    rw [ends, List.mem_cons] at h
    rcases h with rfl | h
    · omega
    · have hlt := ih h
      omega

/-- The operations that are complete where an instruction ends are the ones up to that instruction. -/
theorem filter_zip_ends {ops : List PrologOp} {is : List Instruction} (h : ops.length = is.length)
    (start count : Nat) :
    ((ends start is).zip ops).filter (fun step => decide (step.1 ≤ start + totalLength (is.take count))) =
      ((ends start is).zip ops).take count := by
  induction is generalizing ops start count with
  | nil => simp [ends]
  | cons i is ih =>
    cases ops with
    | nil => simp at h
    | cons op ops =>
      cases count with
      | zero =>
        rw [List.take_zero, List.take_zero, totalLength_nil, Nat.add_zero, List.filter_eq_nil_iff]
        rintro ⟨offset, op'⟩ hmem
        have hlt := lt_of_mem_ends (List.of_mem_zip hmem).1
        simp only [decide_eq_true_eq]
        omega
      | succ count =>
        have hrest := ih (by simpa using h) (start + i.bytes.length) count
        simp only [ends, List.zip_cons_cons, List.take_succ_cons, totalLength_cons, ← Nat.add_assoc]
        rw [List.filter_cons_of_pos (by simp), hrest]

end Instruction

namespace Machine

private theorem replay_recordOf {ops : List PrologOp} {is : List Instruction} (h : UnwindRecord.Expressible ops is)
    (m : Machine) (count : Nat) :
    (UnwindRecord.recordOf ops is).image.replay (Instruction.totalLength (is.take count)) m =
      m.revertAll (ops.take count) := by
  have hsteps : (UnwindRecord.recordOf ops is).image.steps = ((Instruction.ends 0 is).zip ops).reverse := by
    rw [← h.reverse_steps, List.reverse_reverse]
  have hfilter := Instruction.filter_zip_ends h.length_eq 0 count
  simp only [Nat.zero_add] at hfilter
  have hops : (((Instruction.ends 0 is).zip ops).take count).map Prod.snd = ops.take count := by
    rw [List.map_take, List.map_snd_zip (by simp [h.length_eq])]
  rw [RecordImage.replay, hsteps, List.filter_reverse, hfilter, List.foldl_reverse, ← hops, revertAll,
    List.foldr_map]

variable {frame : FrameLayout} {saves : List PrologOp}

/-- After a whole prolog the unwinder finds the stack pointer through the frame pointer, and every register
    that was stored is still above the locals. -/
theorem restores_of_body (h : frame.Fits saves) {m body : Machine} {ops : List PrologOp}
    (hops : ops = frame.bodyOps saves ++ [.setFrame .rbp frame.framePointerOffset])
    (hrbp : body.gp 5 = (m.performAll ops).gp 5)
    (hstack : ∀ a, (m.performAll ops).sp + frame.localsEnd ≤ a → body.stack a = (m.performAll ops).stack a) :
    Restores (frame.bodyOps saves) m (body.revert (.setFrame .rbp frame.framePointerOffset))
      (body.revertAll ops) := by
  subst ops
  obtain ⟨hseparate, habove⟩ := separate_bodyOps h m
  rw [performAll_prolog] at hrbp hstack
  rw [revertAll_append]
  refine restores_revertAll h.plain ?_ ?_
  · refine keptAll_of_separate hseparate fun a ha => hstack a ?_
    exact (habove a ha).1
  · have hpointer : nibble Register.rbp.id.toNat = 5 := rfl
    have hsp : (body.revert (.setFrame .rbp frame.framePointerOffset)).sp =
        body.gp 5 - frame.framePointerOffset.toNat := by
      simp [sp, revert, hpointer]
    rw [hsp, hrbp, gp_setGp, if_pos rfl]
    omega

private theorem Separate.take {m : Machine} {ops : List PrologOp} (h : m.Separate ops) (count : Nat) :
    m.Separate (ops.take count) := by
  rw [← List.take_append_drop count ops] at h
  exact (separate_append.1 h).1

/-- Wherever a prolog is stopped before it establishes the frame pointer, undoing what has been done gives
    back every register. -/
theorem restores_of_take (h : frame.Fits saves) (m : Machine) (count : Nat) :
    Restores ((frame.bodyOps saves).take count) m (m.performAll ((frame.bodyOps saves).take count))
      ((m.performAll ((frame.bodyOps saves).take count)).revertAll ((frame.bodyOps saves).take count)) := by
  refine restores_revertAll (fun op hop => h.plain op (List.mem_of_mem_take hop)) ?_ rfl
  exact keptAll_of_separate ((separate_bodyOps h m).1.take count) fun a _ => rfl

private theorem Restores.eq_of_performAll {ops : List PrologOp} {m t' : Machine}
    (h : Restores ops m (m.performAll ops) t')
    (hplain : ∀ op ∈ ops, op.Plain) : t'.gp = m.gp ∧ t'.xmm = m.xmm := by
  constructor
  · funext n
    by_cases hn : n = 4
    · rw [hn]
      exact h.sp
    · rw [h.gp n hn, gp_performAll_of_plain hplain hn, ite_self]
  · funext n
    rw [h.xmm n, xmm_performAll, ite_self]

private theorem gp_revert_setFrame {m : Machine} {reg : Register} {offset : UInt32} {n : RegNumber} (hn : n ≠ 4) :
    (m.revert (.setFrame reg offset)).gp n = m.gp n := by
  simp [revert, hn]

/-- The frame pointer is the one register that a whole prolog changes besides the stack pointer, and it has
    been pushed before. -/
theorem Restores.eq_of_prolog {ops : List PrologOp} {m t' : Machine} (h : frame.Fits saves)
    (hops : ops = frame.bodyOps saves ++ [.setFrame .rbp frame.framePointerOffset])
    (hrestores : Restores (frame.bodyOps saves) m
      ((m.performAll ops).revert (.setFrame .rbp frame.framePointerOffset)) t') :
    t'.gp = m.gp ∧ t'.xmm = m.xmm := by
  subst ops
  constructor
  · funext n
    by_cases hn : n = 4
    · rw [hn]
      exact hrestores.sp
    · rw [hrestores.gp n hn, h.filterMap_storedGp?]
      split
      next => rfl
      next hnot =>
        have hrbp : n ≠ 5 := by
          rintro rfl
          exact hnot (.head _)
        rw [gp_revert_setFrame hn, performAll_prolog, gp_setGp, if_neg hrbp, gp_performAll_of_plain h.plain hn]
  · funext n
    rw [hrestores.xmm n]
    split
    next => rfl
    next => exact congrFun (xmm_performAll ..) n

end Machine

namespace RecordImage

variable {frame : FrameLayout} {saves : List PrologOp} {ops : List PrologOp} {is : List Instruction}

private theorem unwinds_of_fits (h : frame.Fits saves)
    (hops : ops = frame.bodyOps saves ++ [.setFrame .rbp frame.framePointerOffset])
    (hexpressible : UnwindRecord.Expressible ops is) :
    (UnwindRecord.recordOf ops is).image.Unwinds frame is := by
  have hrun (m : Machine) (count : Nat) : m.run (is.take count) = m.performAll (ops.take count) :=
    Machine.run_eq_performAll (List.forall₂_take count hexpressible.performed) m
  have hall (m : Machine) : m.run is = m.performAll ops := Machine.run_eq_performAll hexpressible.performed m
  constructor
  · intro m count unwound
    have hunwound : unwound = (m.performAll (ops.take count)).revertAll (ops.take count) := by
      rw [← hrun, ← Machine.replay_recordOf hexpressible]
    rw [hunwound]
    -- The last operation is the only one after which the stack pointer is found through the frame pointer.
    by_cases hcount : count ≤ (frame.bodyOps saves).length
    · rw [hops, List.take_append_of_le_length hcount]
      have hrestores := Machine.restores_of_take h m count
      exact hrestores.eq_of_performAll fun op hop => h.plain op (List.mem_of_mem_take hop)
    · have htake : ops.take count = ops := List.take_of_length_le (by simp [hops]; omega)
      rw [htake]
      have hrestores := Machine.restores_of_body h hops (m := m) rfl fun a _ => rfl
      exact hrestores.eq_of_prolog h hops
  · intro m body hrbp hstack unwound gpSaved xmmSaved
    rw [hall] at hrbp hstack
    have hunwound : unwound = body.revertAll ops := by
      have hreplay := Machine.replay_recordOf hexpressible body is.length
      rw [List.take_length, ← hexpressible.length_eq, List.take_length] at hreplay
      rw [← hreplay, ← hexpressible.image_recordOf_prologSize]
    have hrestores := Machine.restores_of_body h hops hrbp hstack
    rw [hunwound]
    refine ⟨hrestores.sp, fun n hn => ?_, fun n => ?_⟩
    · rw [hrestores.gp n hn, h.filterMap_storedGp?, Machine.gp_revert_setFrame hn]
    · rw [hrestores.xmm n, h.filterMap_storedXmm?]
      rfl

end RecordImage

namespace Recorder

/-- The record of a recorder is the right one for the prolog of a frame that was appended to the code from
    `start` to `stop`. -/
def Unwinds (r : Recorder) (frame : FrameLayout) (start stop : Encoder) : Prop :=
  ∀ codeLength info, r.info .hot codeLength = .ok info → ∃ ops is image,
    frame.prologOps = .ok ops ∧ ops.mapM (fun op => op.draft.check) = .ok is ∧ stop = start.appendAll is ∧
      RecordImage.read info.bytes = some image ∧ image.Unwinds frame is

private theorem unwinds_of_prologRun {start stop : UnitCode} {declared frame : FrameLayout} {log : PrologLog}
    {is : List Instruction} (h : PrologRun start stop declared frame log.ops is) :
    (x64 log).Unwinds frame start.encoder stop.encoder := by
  intro codeLength info hinfo
  obtain ⟨record, hrecord, rfl⟩ := info_hot_eq_ok_iff.1 hinfo
  obtain ⟨is', his', rfl⟩ := UnwindRecord.ofOps_eq_ok_iff.1 hrecord
  obtain rfl : is' = is := List.right_unique_forall₂' PrologOp.PerformedBy.unique his'.performed h.performed
  obtain ⟨saves, hfits, hops⟩ := h.fits
  have hcheck : log.ops.mapM (fun op => op.draft.check) = .ok is' := by
    rw [mapM_eq_ok_iff]
    exact his'.performed.imp fun op i hop => PrologOp.check_draft_eq_ok_iff.2 hop
  exact ⟨_, is', _, h.prologOps, hcheck, congrArg UnitCode.encoder h.unit, his'.read_bytes,
    RecordImage.unwinds_of_fits hfits hops his'⟩

end Recorder

namespace Emission

/-- The record of a prolog unwinds every point of the frame's life: whatever state the function is entered
    in, each point between instructions of the prolog, and each point of a body that leaves the frame
    pointer and the stack above the locals alone. -/
theorem prolog_unwinds :
    (∀ x y : Emission Recorder, x.recorder = .fresh .x64 → prolog x = .ok () y →
      y.recorder.Unwinds y.frame x.unit.encoder y.unit.encoder) ∧
    ∀ x y : Emission Tracker, x.recorder = .fresh .x64 → prolog x = .ok () y →
      y.recorder.recorder.Unwinds y.frame x.unit.encoder y.unit.encoder := by
  constructor
  · intro x y hfresh hprolog
    obtain ⟨log, is, hlog, hrun⟩ := prologRun_of_recorder hfresh hprolog
    rw [hlog]
    exact Recorder.unwinds_of_prologRun hrun
  · intro x y hfresh hprolog
    obtain ⟨log, is, hlog, hrun⟩ := prologRun_of_tracker hfresh hprolog
    rw [hlog]
    exact Recorder.unwinds_of_prologRun hrun

/-- The record of the sample frame exists and unwinds its prolog. -/
theorem prolog_unwinds_sample :
    ∃ y info image is, prolog sample = .ok () y ∧ y.recorder.recorder.info .hot 64 = .ok info ∧
      RecordImage.read info.bytes = some image ∧ image.Unwinds y.frame is ∧
      is = [.push 5, .push 12, .sub 4 56, .storeXmm ⟨4, 32⟩ 7, .lea 5 ⟨4, 16⟩] := by
  obtain ⟨y, hprolog, hframe, hrecorder⟩ := exists_prolog_sample
  obtain ⟨info, hinfo⟩ : ∃ info, y.recorder.recorder.info .hot 64 = .ok info := by
    rw [hrecorder]
    exact ⟨_, by rfl⟩
  obtain ⟨ops, is, image, hops, hcheck, -, hread, hunwinds⟩ := prolog_unwinds.2 sample y rfl hprolog 64 info hinfo
  rw [hframe, FrameLayout.prologOps_sample, Except.ok.injEq] at hops
  subst ops
  refine ⟨y, info, image, is, hprolog, hinfo, hread, hunwinds, ?_⟩
  exact (Except.ok.inj hcheck).symm

end Emission

end StackUnwind
