import StackUnwind.Proofs.Emission.Epilog
import StackUnwind.Proofs.Machine.Frame

namespace StackUnwind

/-- The instruction that undoes an operation of a prolog. -/
inductive PrologOp.UndoneBy : PrologOp → Instruction → Prop where
  | pop {reg : Register} {n : RegNumber} (hreg : reg.gpNumber? = some n) : UndoneBy (.push reg) (.pop n)
  | add {size : UInt32} {imm : Immediate} (hsize : imm.val = size.toNat) : UndoneBy (.alloc size) (.add 4 imm)
  | loadXmm {reg : Register} {n : RegNumber} {offset : UInt32} {imm : Immediate} (hreg : reg.xmmNumber? = some n)
      (hoffset : imm.val = offset.toNat) : UndoneBy (.save reg offset) (.loadXmm n ⟨4, imm⟩)

namespace Draft

/-- Whether a draft stands for an instruction that undoes an operation. -/
def Undoes (draft : Draft) (op : PrologOp) : Prop := ∃ i, draft.check = .ok i ∧ op.UndoneBy i

variable {reg : Register} {n : RegNumber}

private theorem undoes_pop (hreg : reg.gpNumber? = some n) : (pop reg).Undoes (.push reg) := by
  refine ⟨.pop n, ?_, .pop hreg⟩
  have hpop : gpOperand reg = .ok n := operandIn_eq_ok_iff.2 hreg
  rw [check, hpop]
  rfl

private theorem undoes_add {size : UInt32} (hsize : size.toNat < 2 ^ 31) : (add .rsp size).Undoes (.alloc size) := by
  refine ⟨.add 4 ⟨size.toNat, hsize⟩, ?_, .add rfl⟩
  have himm : immediate size = .ok ⟨size.toNat, hsize⟩ := immediate_eq_ok_iff.2 rfl
  rw [check, gpOperand_rsp, himm]
  rfl

private theorem undoes_load {offset : UInt32} (hreg : reg.xmmNumber? = some n) (hoffset : offset.toNat < 2 ^ 31) :
    (load reg .rsp offset).Undoes (.save reg offset) := by
  refine ⟨.loadXmm n ⟨4, ⟨offset.toNat, hoffset⟩⟩, ?_, .loadXmm hreg rfl⟩
  have himm : immediate offset = .ok ⟨offset.toNat, hoffset⟩ := immediate_eq_ok_iff.2 rfl
  have hload : xmmOperand reg = .ok n := operandIn_eq_ok_iff.2 hreg
  simp only [check, gpOperand_rsp, himm, Register.isXmm_of_xmmNumber? hreg, hload]
  rfl

/-- Drafts that undo operations stand for instructions that do. -/
theorem exists_of_forall₂_undoes {drafts : List Draft} {ops : List PrologOp} (h : List.Forall₂ Undoes drafts ops) :
    ∃ js, List.Forall₂ (fun draft i => draft.check = .ok i) drafts js ∧ List.Forall₂ PrologOp.UndoneBy ops js := by
  induction h with
  | nil => exact ⟨[], .nil, .nil⟩
  | cons hdraft _ ih =>
    obtain ⟨i, hcheck, hundone⟩ := hdraft
    obtain ⟨js, hchecks, hall⟩ := ih
    exact ⟨i :: js, .cons hcheck hchecks, .cons hundone hall⟩

end Draft

namespace FrameLayout

variable {frame : FrameLayout} {saves : List PrologOp}

/-- The operations of a prolog before it stores vector registers. -/
def setUpOps (frame : FrameLayout) : List PrologOp := (.rbp :: frame.savedRegisters).map .push ++ frame.allocOps

private theorem bodyOps_eq (frame : FrameLayout) (saves : List PrologOp) :
    frame.bodyOps saves = frame.setUpOps ++ saves := rfl

/-- The loads of an epilog are from the slots of the stores. -/
theorem XmmSlots.exists_loads {index : Nat} {regs : List Register}
    (hslots : XmmSlots (frame.localsEnd + 16 * index) regs saves) (hxmm : ∀ reg ∈ regs, ∃ n, reg.xmmNumber? = some n)
    (hroom : frame.localsEnd + 16 * (index + regs.length) < 2 ^ 31) :
    ∃ loads, Emission.XmmLoads frame index regs loads ∧ List.Forall₂ Draft.Undoes loads saves := by
  induction regs generalizing index saves with
  | nil =>
    cases hslots
    exact ⟨[], .nil, .nil⟩
  | cons reg regs ih =>
    obtain ⟨⟩ | ⟨hoffset, hrest⟩ := hslots
    rw [List.length_cons] at hroom
    obtain ⟨n, hn⟩ := hxmm reg (.head _)
    have hnext : frame.localsEnd + 16 * index + 16 = frame.localsEnd + 16 * (index + 1) := by omega
    rw [hnext] at hrest
    obtain ⟨loads, hloads, hundoes⟩ := ih hrest (fun reg hreg => hxmm reg (.tail _ hreg)) (by omega)
    refine ⟨_, .cons (xmmSlot_eq_ok_iff.2 ?_) hloads, .cons (Draft.undoes_load hn (by omega)) hundoes⟩
    rw [Nat.mod_eq_of_lt (by omega)]
    omega

/-- An epilog undoes the stores first one first, and what was done before them last one first. -/
theorem Fits.exists_epilog (h : frame.Fits saves) : ∃ loads js, Emission.XmmLoads frame 0 frame.savedXmm loads ∧
    List.Forall₂ (fun draft i => draft.check = .ok i) (frame.epilogDrafts loads) (js ++ [.ret]) ∧
    List.Forall₂ PrologOp.UndoneBy (saves ++ frame.setUpOps.reverse) js := by
  have hsize := h.valid.size_lt
  have hroom := h.room
  obtain ⟨loads, hloads, hundoes⟩ := @XmmSlots.exists_loads frame saves 0 _ h.slots h.valid.xmm (by omega)
  have hadd : List.Forall₂ Draft.Undoes (if frame.frameSize ≠ 0 then [.add .rsp frame.frameSize] else [])
      frame.allocOps := by
    unfold allocOps
    by_cases hzero : frame.frameSize = 0
    · simp [hzero]
    · simp [hzero, Draft.undoes_add hsize]
  have hpops : List.Forall₂ Draft.Undoes ((Register.rbp :: frame.savedRegisters).map .pop)
      ((Register.rbp :: frame.savedRegisters).map .push) := by
    rw [List.forall₂_map_left_iff, List.forall₂_map_right_iff, List.forall₂_same]
    intro reg hreg
    rcases List.mem_cons.1 hreg with rfl | hreg
    · exact Draft.undoes_pop (n := 5) rfl
    · obtain ⟨-, -, n, hn⟩ := h.valid.gp reg hreg
      exact Draft.undoes_pop hn
  have hall := List.rel_append hundoes (List.rel_reverse (List.rel_append hpops hadd))
  obtain ⟨js, hchecks, hundone⟩ := Draft.exists_of_forall₂_undoes hall
  refine ⟨loads, js, hloads, ?_, hundone⟩
  have hret := List.rel_append hchecks (.cons (show Draft.ret.check = .ok .ret from rfl) .nil)
  have hone : (if frame.frameSize = 0 then [] else [Draft.add .rsp frame.frameSize]).reverse =
      if frame.frameSize = 0 then [] else [Draft.add .rsp frame.frameSize] := by
    split <;> rfl
  simpa [epilogDrafts, hone] using hret

end FrameLayout

namespace Machine

private theorem exec_eq_revert {op : PrologOp} {i : Instruction} (h : op.UndoneBy i) (m : Machine) :
    m.exec i = m.revert op := by
  cases h with
  | pop hreg => rw [exec, revert, Register.nibble_id_of_numberIn? hreg]
  | add hsize => rw [exec, revert, hsize, sp]
  | loadXmm hreg hoffset =>
    rw [exec, revert, Register.isXmm_of_xmmNumber? hreg, Register.nibble_id_of_numberIn? hreg, address, hoffset, sp]
    rfl

private theorem run_append (m : Machine) (is js : List Instruction) : m.run (is ++ js) = (m.run is).run js :=
  List.foldl_append

private theorem run_eq_revertAll {ops : List PrologOp} {js : List Instruction}
    (h : List.Forall₂ PrologOp.UndoneBy ops js)
    (m : Machine) : m.run js = m.revertAll ops.reverse := by
  induction h generalizing m with
  | nil => rfl
  | cons hop _ ih =>
    rw [run, List.foldl_cons, exec_eq_revert hop, List.reverse_cons, revertAll_append]
    exact ih _

private theorem keptAll_append {stack : Stack} {m : Machine} {ops ops' : List PrologOp} :
    KeptAll stack m (ops ++ ops') ↔ KeptAll stack m ops ∧ KeptAll stack (m.performAll ops) ops' := by
  induction ops generalizing m with
  | nil => simp [KeptAll, performAll]
  | cons op ops ih =>
    rw [List.cons_append, KeptAll, ih, KeptAll, and_assoc]
    rfl

/-- What is undone of operations, and then of those before them. -/
theorem Restores.append {ops ops' : List PrologOp} {m t t' t'' : Machine} (hplain : ∀ op ∈ ops, op.Plain)
    (h' : Restores ops' (m.performAll ops) t t') (h : Restores ops m t' t'') : Restores (ops ++ ops') m t t'' where
  sp := h.sp
  stack := h.stack.trans h'.stack
  gp n hn := by
    rw [h.gp n hn, h'.gp n hn, gp_performAll_of_plain hplain hn, List.filterMap_append]
    by_cases hmem : n ∈ ops.filterMap PrologOp.storedGp? <;> simp [hmem]
  xmm n := by
    rw [h.xmm n, h'.xmm n, xmm_performAll, List.filterMap_append]
    by_cases hmem : n ∈ ops.filterMap PrologOp.storedXmm? <;> simp [hmem]

private theorem Restores.of_reverse {ops : List PrologOp} {m t t' : Machine} (h : Restores ops.reverse m t t') :
    Restores ops m t t' := by
  obtain ⟨hsp, hstack, hgp, hxmm⟩ := h
  simp only [List.filterMap_reverse, List.mem_reverse] at hgp hxmm
  exact ⟨hsp, hstack, hgp, hxmm⟩

section Saves

variable {m : Machine} {ops : List PrologOp}

private theorem gp_perform_save (m : Machine) (reg : Register) (offset : UInt32) :
    (m.perform (.save reg offset)).gp = m.gp := by
  rw [perform]
  split <;> rfl

private theorem gp_performAll_saves (h : ∀ op ∈ ops, ∃ reg offset, op = .save reg offset) :
    (m.performAll ops).gp = m.gp := by
  induction ops generalizing m with
  | nil => rfl
  | cons op ops ih =>
    obtain ⟨reg, offset, rfl⟩ := h op (.head _)
    exact (ih fun op hop => h op (.tail _ hop)).trans (gp_perform_save m reg offset)

private theorem kept_congr {stack : Stack} {m m' : Machine} (hgp : m.gp = m'.gp) (hxmm : m.xmm = m'.xmm)
    (op : PrologOp) :
    Kept stack m op ↔ Kept stack m' op := by
  cases op <;> simp only [Kept, sp, hgp, hxmm]

/-- Stores change no register, so it does not matter in which order they are made. -/
theorem keptAll_saves_iff {stack : Stack} (h : ∀ op ∈ ops, ∃ reg offset, op = .save reg offset) :
    KeptAll stack m ops ↔ ∀ op ∈ ops, Kept stack m op := by
  induction ops generalizing m with
  | nil => simp [KeptAll]
  | cons op ops ih =>
    obtain ⟨reg, offset, rfl⟩ := h op (.head _)
    rw [KeptAll, ih fun op hop => h op (.tail _ hop), List.forall_mem_cons]
    simp only [kept_congr (gp_perform_save m reg offset) (xmm_perform m _)]

end Saves

variable {frame : FrameLayout} {saves : List PrologOp} {m body : Machine}

/-- After a body that leaves the stack pointer and what lies above the locals alone, an epilog undoes what a prolog
    did before it established the frame pointer. -/
theorem restores_of_epilog (h : frame.Fits saves) (hsp : body.sp = (m.performAll (frame.bodyOps saves)).sp)
    (hstack : ∀ a, (m.performAll (frame.bodyOps saves)).sp + frame.localsEnd ≤ a →
      body.stack a = (m.performAll (frame.bodyOps saves)).stack a) :
    Restores (frame.bodyOps saves) m body (body.revertAll (saves ++ frame.setUpOps.reverse).reverse) := by
  obtain ⟨hseparate, habove⟩ := separate_bodyOps h m
  have hsaves : ∀ op ∈ saves, ∃ reg offset, op = .save reg offset := by
    intro op hop
    obtain ⟨reg, -, offset, rfl⟩ := h.slots.mem hop
    exact ⟨reg, offset, rfl⟩
  have hsaves' : ∀ op ∈ saves.reverse, ∃ reg offset, op = .save reg offset :=
    fun op hop => hsaves op (List.mem_reverse.1 hop)
  have hplain := h.plain
  have hkept := keptAll_of_separate hseparate fun a ha => hstack a (habove a ha).1
  rw [FrameLayout.bodyOps_eq] at hsp hkept hplain ⊢
  rw [performAll_append, sp, sp, gp_performAll_saves hsaves] at hsp
  obtain ⟨hfirst, hlast⟩ := keptAll_append.1 hkept
  have hloaded : Restores saves (m.performAll frame.setUpOps) body (body.revertAll saves.reverse) := by
    refine (restores_revertAll (fun op hop => hplain op ?_) ?_ ?_).of_reverse
    · exact List.mem_append_right _ (List.mem_reverse.1 hop)
    · rw [keptAll_saves_iff hsaves']
      rw [keptAll_saves_iff hsaves] at hlast
      exact fun op hop => hlast op (List.mem_reverse.1 hop)
    · rw [sp, sp, gp_performAll_saves hsaves', hsp]
  rw [List.reverse_append, List.reverse_reverse, revertAll_append]
  have hplain' : ∀ op ∈ frame.setUpOps, op.Plain := fun op hop => hplain op (List.mem_append_left _ hop)
  refine hloaded.append hplain' (restores_revertAll hplain' ?_ hloaded.sp)
  rw [hloaded.stack]
  exact hfirst

end Machine

namespace FrameLayout

/-- What an epilog has to achieve for a prolog, whatever state `m` the function is entered in. A body may change
    everything but the stack pointer and what lies above the locals. The epilog returns to the return address, with
    the preserved registers as they were when the function was entered and everything else as the body left it. -/
def UndoneBy (frame : FrameLayout) (is js : List Instruction) : Prop :=
  ∀ m body : Machine, body.sp = (m.run is).sp →
    (∀ a, (m.run is).sp + frame.localsEnd ≤ a → body.stack a = (m.run is).stack a) →
    let left := body.run js
    let gpSaved := (.rbp :: frame.savedRegisters).map fun reg => nibble reg.id.toNat
    let xmmSaved := frame.savedXmm.map fun reg => nibble reg.id.toNat
    left.returned = some (m.stack.read 8 m.sp) ∧ left.sp = m.sp + 8 ∧ left.stack = body.stack ∧
      (∀ n ≠ 4, left.gp n = if n ∈ gpSaved then m.gp n else body.gp n) ∧
      ∀ n, left.xmm n = if n ∈ xmmSaved then m.xmm n else body.xmm n

variable {frame : FrameLayout} {saves ops : List PrologOp} {is js : List Instruction}

private theorem Fits.undoneBy (h : frame.Fits saves)
    (hops : ops = frame.bodyOps saves ++ [.setFrame .rbp frame.framePointerOffset])
    (hperformed : List.Forall₂ PrologOp.PerformedBy ops is)
    (hundone : List.Forall₂ PrologOp.UndoneBy (saves ++ frame.setUpOps.reverse) js) :
    frame.UndoneBy is (js ++ [.ret]) := by
  intro m body hsp hstack left gpSaved xmmSaved
  rw [Machine.run_eq_performAll hperformed, hops, Machine.performAll_prolog] at hsp hstack
  have hrestores := Machine.restores_of_epilog h hsp hstack
  rw [← Machine.run_eq_revertAll hundone] at hrestores
  have hleft : left = (body.run js).exec .ret := Machine.run_append body js [.ret]
  -- The return address is above everything that the prolog writes.
  have hreturn : body.stack.read 8 m.sp = m.stack.read 8 m.sp := by
    refine Stack.read_congr (by decide) fun a hle _ => ?_
    have habove : (m.performAll (frame.bodyOps saves)).sp + frame.localsEnd ≤ a := by
      have hroom := h.room
      rw [Machine.sp_performAll_bodyOps h]
      omega
    have hnot : ¬ m.WritesAny a (frame.bodyOps saves) := by
      intro ha
      have hlt := ((Machine.separate_bodyOps h m).2 a ha).2
      omega
    exact (hstack a habove).trans (Machine.stack_performAll_of_not_writesAny hnot)
  rw [hleft]
  refine ⟨?_, ?_, hrestores.stack, fun n hn => ?_, fun n => ?_⟩
  · change some ((body.run js).stack.read 8 (body.run js).sp) = _
    rw [hrestores.stack, hrestores.sp, hreturn]
  · change ((body.run js).setGp 4 ((body.run js).sp + 8)).gp 4 = _
    rw [Machine.gp_setGp, if_pos rfl, hrestores.sp]
  · change ((body.run js).setGp 4 ((body.run js).sp + 8)).gp n = _
    rw [Machine.gp_setGp, if_neg hn, hrestores.gp n hn, h.filterMap_storedGp?]
  · change (body.run js).xmm n = _
    rw [hrestores.xmm n, h.filterMap_storedXmm?]

end FrameLayout

namespace Emission

/-- Epilogs, each of them after something has been done to the unit. -/
def epilogs {ρ : Type} [FrameRecorder ρ] (others : List (UnitCode → UnitCode)) : EmissionM ρ Unit :=
  others.forM fun other => do
    modify fun x => { x with unit := other x.unit }
    epilog

variable {z : Emission Tracker} {loads : List Draft} {js : List Instruction}

private theorem epilog_of_body (hloads : XmmLoads z.frame 0 z.frame.savedXmm loads)
    (hjs : List.Forall₂ (fun draft i => draft.check = .ok i) (z.frame.epilogDrafts loads) js)
    (hbody : z.recorder.phase = .body) (hroom : z.recorder.HasRoom 1) :
    ∃ z', epilog z = .ok () z' ∧ z'.unit = { z.unit with encoder := z.unit.encoder.appendAll js } ∧
      z'.frame = z.frame ∧ z.recorder.Counts z'.recorder 1 := by
  obtain ⟨t, ht, hcounts⟩ := Tracker.recordAll_ofEpilog hbody hroom
  obtain ⟨opened, hopened, hrest⟩ := FrameRecorder.recordAll_cons_eq_ok_iff.1 ht
  obtain ⟨closed, hclosed, hdone⟩ := FrameRecorder.recordAll_cons_eq_ok_iff.1 hrest
  cases hdone
  exact ⟨_, epilog_eq_ok_iff.2 ⟨loads, js, opened, t, hloads, hjs, hopened, hclosed, rfl⟩, rfl, rfl, hcounts⟩

private theorem epilogs_of_body {others : List (UnitCode → UnitCode)}
    (hloads : XmmLoads z.frame 0 z.frame.savedXmm loads)
    (hjs : List.Forall₂ (fun draft i => draft.check = .ok i) (z.frame.epilogDrafts loads) js)
    (hbody : z.recorder.phase = .body) (hroom : z.recorder.HasRoom others.length) :
    ∃ z', epilogs others z = .ok () z' ∧
      z'.unit = others.foldl (fun unit other => { other unit with encoder := (other unit).encoder.appendAll js })
        z.unit ∧
      z'.frame = z.frame ∧ z.recorder.Counts z'.recorder others.length := by
  induction others generalizing z with
  | nil => exact ⟨z, rfl, rfl, rfl, z.recorder.counts_zero⟩
  | cons other others ih =>
    rw [List.length_cons, Nat.add_comm] at hroom ⊢
    let w : Emission Tracker := { z with unit := other z.unit }
    have hfirst : w.recorder.HasRoom 1 := hroom.mono (by omega)
    obtain ⟨z₁, hepilog, hunit, hframe, hcounts⟩ := @epilog_of_body w loads js hloads hjs hbody hfirst
    have hloads' : XmmLoads z₁.frame 0 z₁.frame.savedXmm loads := by rwa [hframe]
    obtain ⟨z', hepilogs, hunit', hframe', hcounts'⟩ := ih hloads' (by rwa [hframe]) (hcounts.phase.trans hbody)
      (hroom.of_counts hcounts)
    refine ⟨z', ?_, ?_, hframe'.trans hframe, hcounts.trans hcounts'⟩
    · rw [epilogs, List.forM_eq_forM, List.forM_cons]
      exact run_bind_eq_ok_iff.2 ⟨(), z₁, hepilog, hepilogs⟩
    · rw [hunit', hunit]
      rfl

/-- Whatever frame a prolog could be written for, epilogs can be written for it as often as the counters suffice,
    in hot code and in cold code, and each of them undoes the prolog. -/
theorem prolog_undone {ρ : Type} [FrameRecorder ρ] {x y : Emission ρ} (hprolog : prolog x = .ok () y) :
    ∃ ops is loads js, y.frame.prologOps = .ok ops ∧ ops.mapM (fun op => op.draft.check) = .ok is ∧
      y.unit = { x.unit with encoder := x.unit.encoder.appendAll is } ∧
      XmmLoads y.frame 0 y.frame.savedXmm loads ∧ (y.frame.epilogDrafts loads).mapM Draft.check = .ok js ∧
      y.frame.UndoneBy is js ∧
      ∀ (others : List (UnitCode → UnitCode)) (z : Emission Tracker), z.frame = y.frame → z.recorder.phase = .body →
        z.recorder.HasRoom others.length → ∃ z', epilogs others z = .ok () z' ∧
          z'.unit = others.foldl (fun unit other => { other unit with encoder := (other unit).encoder.appendAll js })
            z.unit ∧
          z'.frame = z.frame ∧ z.recorder.Counts z'.recorder others.length := by
  obtain ⟨ops, is, hrun, -⟩ := prolog_run hprolog
  obtain ⟨saves, hfits, hops⟩ := hrun.fits
  obtain ⟨loads, js, hloads, hjs, hundone⟩ := hfits.exists_epilog
  refine ⟨ops, is, loads, js ++ [.ret], hrun.prologOps, ?_, hrun.unit, hloads, mapM_eq_ok_iff.2 hjs,
    hfits.undoneBy hops hrun.performed hundone, ?_⟩
  · rw [mapM_eq_ok_iff]
    exact hrun.performed.imp fun op i hop => PrologOp.check_draft_eq_ok_iff.2 hop
  · rintro others z hframe hbody hroom
    rw [← hframe] at hloads hjs
    exact epilogs_of_body hloads hjs hbody hroom

/-- Two epilogs of the sample frame, the second one in the cold section. -/
theorem prolog_undone_sample : ∃ y z is js, prolog sample = .ok () y ∧
    epilogs [id, fun unit => endState (UnitCode.beginCold unit)] y = .ok () z ∧ z.recorder.epilogs = 2 ∧
    y.frame.UndoneBy is js ∧ is = [.push 5, .push 12, .sub 4 56, .storeXmm ⟨4, 32⟩ 7, .lea 5 ⟨4, 16⟩] ∧
    js = [.loadXmm 7 ⟨4, 32⟩, .add 4 56, .pop 12, .pop 5, .ret] := by
  obtain ⟨y, hprolog, hframe, hrecorder⟩ := exists_prolog_sample
  obtain ⟨ops, is, loads, js, hops, his, -, hloads, hjs, hundone, hepilogs⟩ := prolog_undone hprolog
  have hroom : y.recorder.HasRoom 2 := by
    rw [hrecorder]
    exact ⟨by decide, fun log hlog => by cases hlog; decide⟩
  obtain ⟨z, hz, -, -, hcounts⟩ :=
    hepilogs [id, fun unit => endState (UnitCode.beginCold unit)] y rfl (by rw [hrecorder]) hroom
  rw [hframe, FrameLayout.prologOps_sample, Except.ok.injEq] at hops
  subst ops
  have hslot : { FrameLayout.sample with frameSize := 56 }.xmmSlot 0 = .ok 32 := by rfl
  rw [hframe] at hloads hjs
  obtain ⟨⟩ | ⟨hload, hnil⟩ := hloads
  rw [hslot] at hload
  cases hload
  cases hnil
  refine ⟨y, z, is, js, hprolog, hz, ?_, hundone, (Except.ok.inj his).symm, (Except.ok.inj hjs).symm⟩
  rw [← UInt32.toNat_inj, hcounts.epilogs, hrecorder]
  rfl

end Emission

end StackUnwind
