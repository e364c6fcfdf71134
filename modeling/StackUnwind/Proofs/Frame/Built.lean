import Mathlib.Data.List.Perm.Subperm
import StackUnwind.Proofs.Emission.Prolog
import StackUnwind.Proofs.Frame.Geometry

namespace StackUnwind

/-- A way to change a frame. -/
inductive FrameCall where
  | addSavedRegister (reg : Register)
  | allocateLocals (size : UInt32)
  | setFramePointerOffset (offset : UInt32)
  | calculateFrameSize
  deriving DecidableEq, Repr

/-- The bytes of locals that a call asks for, in whole multiples of eight. -/
def FrameCall.locals : FrameCall → Nat
  | allocateLocals size => 8 * (size.toNat ⌈/⌉ 8)
  | addSavedRegister _ | setFramePointerOffset _ | calculateFrameSize => 0

namespace FrameLayout

/-- The frame after a call. -/
def apply (frame : FrameLayout) : FrameCall → Except Fault FrameLayout
  | .addSavedRegister reg => .ok (frame.addSavedRegister reg)
  | .allocateLocals size => frame.allocateLocals size
  | .setFramePointerOffset offset => .ok (frame.setFramePointerOffset offset)
  | .calculateFrameSize => frame.calculateFrameSize

/-- A frame that was made from an empty one by calls only. -/
inductive Built : FrameLayout → Prop where
  | empty : Built {}
  | call {frame frame' : FrameLayout} {c : FrameCall} (hframe : Built frame) (hcall : frame.apply c = .ok frame') :
      Built frame'

variable {frame frame' : FrameLayout}

/-- A call adds its locals to those that were there. -/
theorem localSize_of_apply {c : FrameCall} (h : frame.apply c = .ok frame') :
    frame'.localSize.toNat = frame.localSize.toNat + c.locals := by
  cases c with
  | addSavedRegister reg =>
    cases h
    change (frame.addSavedRegister reg).localSize.toNat = frame.localSize.toNat
    unfold addSavedRegister
    repeat' split
    all_goals rfl
  | allocateLocals size =>
    simp only [apply, allocateLocals, bind_eq_ok_iff, roundUp_eq_ok_iff, word32_eq_ok_iff, pure_eq_ok_iff] at h
    obtain ⟨added, hadded, localSize, hsum, rfl⟩ := h
    rw [FrameCall.locals, Nat.ceilDiv_eq_add_pred_div]
    change localSize.toNat = _
    omega
  | setFramePointerOffset offset =>
    cases h
    rfl
  | calculateFrameSize =>
    obtain ⟨_, -, rfl⟩ := calculateFrameSize_eq_ok_iff.1 h
    rfl

/-- Only calls for locals add to them. -/
theorem localSize_of_calls {calls : List FrameCall} (h : calls.foldlM apply frame = .ok frame') :
    frame'.localSize.toNat = frame.localSize.toNat + (calls.map FrameCall.locals).sum := by
  induction calls generalizing frame with
  | nil =>
    cases h
    rfl
  | cons c calls ih =>
    rw [List.foldlM_cons, bind_eq_ok_iff] at h
    obtain ⟨next, hnext, hrest⟩ := h
    rw [ih hrest, localSize_of_apply hnext, List.map_cons, List.sum_cons, Nat.add_assoc]

private theorem nodup_concat {regs : List Register} {reg : Register} (h : regs.Nodup) (hnot : reg ∉ regs) :
    (regs ++ [reg]).Nodup := by
  rw [List.nodup_append]
  refine ⟨h, by simp, ?_⟩
  intro a ha b hb heq
  rw [List.mem_singleton] at hb
  exact hnot (hb ▸ heq ▸ ha)

private theorem nodup_addSavedRegister (h : frame.savedRegisters.Nodup ∧ frame.savedXmm.Nodup) (reg : Register) :
    (frame.addSavedRegister reg).savedRegisters.Nodup ∧ (frame.addSavedRegister reg).savedXmm.Nodup := by
  unfold addSavedRegister
  split
  · split
    next => exact h
    next hnot => exact ⟨h.1, nodup_concat h.2 hnot⟩
  · split
    next => exact h
    next hnot => exact ⟨nodup_concat h.1 hnot, h.2⟩

/-- What depends on the saved registers only holds of every frame that was made by calls if adding a register keeps
    it, because no other call changes them. -/
theorem Built.saved_induction {P : List Register → List Register → Prop} (hempty : P [] [])
    (hadd : ∀ (frame : FrameLayout) (reg : Register), P frame.savedRegisters frame.savedXmm →
      P (frame.addSavedRegister reg).savedRegisters (frame.addSavedRegister reg).savedXmm)
    (h : frame.Built) : P frame.savedRegisters frame.savedXmm := by
  induction h with
  | empty => exact hempty
  | @call frame frame' c _ hcall ih =>
    cases c with
    | addSavedRegister reg =>
      cases hcall
      exact hadd frame reg ih
    | allocateLocals size =>
      simp only [apply, allocateLocals, bind_eq_ok_iff, pure_eq_ok_iff] at hcall
      obtain ⟨_, -, _, -, rfl⟩ := hcall
      exact ih
    | setFramePointerOffset offset =>
      cases hcall
      exact ih
    | calculateFrameSize =>
      obtain ⟨_, -, rfl⟩ := calculateFrameSize_eq_ok_iff.1 hcall
      exact ih

/-- No register is saved twice. -/
theorem Built.nodup (h : frame.Built) : frame.savedRegisters.Nodup ∧ frame.savedXmm.Nodup :=
  h.saved_induction (P := fun saved xmm => saved.Nodup ∧ xmm.Nodup) ⟨.nil, .nil⟩ fun _ reg hframe =>
    nodup_addSavedRegister hframe reg

/-- Vector registers are saved apart from all others. -/
theorem Built.banks (h : frame.Built) :
    (∀ reg ∈ frame.savedRegisters, reg.isXmm = false) ∧ ∀ reg ∈ frame.savedXmm, reg.isXmm = true := by
  refine h.saved_induction
    (P := fun saved xmm => (∀ reg ∈ saved, reg.isXmm = false) ∧ ∀ reg ∈ xmm, reg.isXmm = true)
    ⟨by simp, by simp⟩ fun frame reg hframe => ?_
  unfold addSavedRegister
  by_cases hbank : reg.isXmm = true
  · rw [if_pos hbank]
    split
    next => exact hframe
    next =>
      refine ⟨hframe.1, fun other hother => ?_⟩
      rcases List.mem_append.1 hother with hother | hother
      · exact hframe.2 other hother
      · rwa [List.mem_singleton.1 hother]
  · rw [if_neg hbank]
    split
    next => exact hframe
    next =>
      refine ⟨fun other hother => ?_, hframe.2⟩
      rcases List.mem_append.1 hother with hother | hother
      · exact hframe.1 other hother
      · rwa [List.mem_singleton.1 hother, ← Bool.not_eq_true]

/-- The sample frame is one that calls lead to. -/
theorem built_sample : sample.Built := by
  have hgp : FrameLayout.Built { savedRegisters := [.gp 12] } :=
    .call (c := .addSavedRegister (.gp 12)) .empty rfl
  have hxmm : FrameLayout.Built { savedRegisters := [.gp 12], savedXmm := [.xmm 7] } :=
    .call (c := .addSavedRegister (.xmm 7)) hgp rfl
  have hlocals : FrameLayout.Built { savedRegisters := [.gp 12], savedXmm := [.xmm 7], localSize := 24 } :=
    .call (c := .allocateLocals 24) hxmm rfl
  exact .call (c := .setFramePointerOffset 16) hlocals rfl

/-- There are no more registers to save than they have names. -/
theorem length_le_of_nodup {count : Nat} {regs : List Register} (hnodup : regs.Nodup) (name : Fin count → Register)
    (hname : ∀ reg ∈ regs, ∃ n, reg = name n) : regs.length ≤ count := by
  have hsub : regs ⊆ (List.finRange count).map name := by
    intro reg hreg
    obtain ⟨n, rfl⟩ := hname reg hreg
    exact List.mem_map_of_mem (List.mem_finRange n)
  simpa using (hnodup.subperm hsub).length_le

/-- How many registers of each bank a frame saves that was made by calls and can be set up. -/
theorem Built.length_le (h : frame.Built) (hvalid : frame.Valid) :
    frame.savedRegisters.length ≤ 16 ∧ frame.savedXmm.length ≤ 16 := by
  obtain ⟨hgp, hxmm⟩ := h.nodup
  constructor
  · refine length_le_of_nodup hgp (fun n => .gp (.ofNat n.val)) fun reg hreg => ?_
    obtain ⟨-, -, n, hn⟩ := hvalid.gp reg hreg
    exact ⟨n, Register.numberIn?_eq_some_iff.1 hn⟩
  · refine length_le_of_nodup hxmm (fun n => .xmm (.ofNat n.val)) fun reg hreg => ?_
    obtain ⟨n, hn⟩ := hvalid.xmm reg hreg
    exact ⟨n, Register.numberIn?_eq_some_iff.1 hn⟩

private theorem Fits.frame?_eq_none {saves : List PrologOp} (h : frame.Fits saves) {op : PrologOp}
    (hop : op ∈ frame.bodyOps saves) : op.frame? = none := by
  obtain ⟨reg, -, rfl⟩ | ⟨-, rfl⟩ | ⟨reg, -, offset, rfl⟩ := h.cases_bodyOps hop <;> rfl

end FrameLayout

namespace PrologOp

/-- A bound on the length of the instruction that performs an operation. -/
def maxLength : PrologOp → Nat
  | push _ => 2
  | alloc _ => 7
  | setFrame _ _ | save _ _ => 9

private theorem PerformedBy.length_le {op : PrologOp} {i : Instruction} (h : op.PerformedBy i) :
    i.bytes.length ≤ op.maxLength := by
  cases h with
  | push => exact Instruction.length_push_le _
  | alloc => exact (Instruction.length_arithmetic_bounds 0x2D 5 4 _).2
  | mov | lea | store | storeXmm => exact (Instruction.length_bytes_bounds _).2

end PrologOp

namespace PrologRun

variable {start stop : UnitCode} {declared frame : FrameLayout} {ops : List PrologOp} {is : List Instruction}

private theorem totalLength_le_sum_maxLength (h : List.Forall₂ PrologOp.PerformedBy ops is) :
    Instruction.totalLength is ≤ (ops.map PrologOp.maxLength).sum := by
  induction h with
  | nil => simp
  | cons hop _ ih =>
    rw [Instruction.totalLength_cons, List.map_cons, List.sum_cons]
    exact Nat.add_le_add hop.length_le ih

private theorem sum_maxLength_le (ops : List PrologOp) : (ops.map PrologOp.maxLength).sum ≤ 9 * ops.length := by
  induction ops with
  | nil => simp
  | cons op ops ih =>
    have hop : op.maxLength ≤ 9 := by cases op <;> simp [PrologOp.maxLength]
    rw [List.map_cons, List.sum_cons, List.length_cons]
    omega

private theorem sum_maxLength_push (regs : List Register) :
    ((regs.map PrologOp.push).map PrologOp.maxLength).sum = 2 * regs.length := by
  induction regs with
  | nil => rfl
  | cons reg regs ih =>
    rw [List.map_cons, List.map_cons, List.sum_cons, ih, List.length_cons, PrologOp.maxLength]
    omega

/-- The size of a frame is a multiple of eight. -/
theorem eight_dvd_frameSize (h : PrologRun start stop declared frame ops is) : 8 ∣ frame.frameSize.toNat := by
  obtain ⟨size, hsize, rfl⟩ := FrameLayout.calculateFrameSize_eq_ok_iff.1 h.calculated
  change 8 ∣ size.toNat
  rw [hsize, FrameLayout.localsEnd, FrameLayout.padding]
  split <;> omega

/-- The frame pointer is established once, in the end. -/
theorem filterMap_frame? (h : PrologRun start stop declared frame ops is) :
    ops.filterMap PrologOp.frame? = [(.rbp, frame.framePointerOffset)] := by
  obtain ⟨saves, hfits, rfl⟩ := h.fits
  rw [List.filterMap_append, List.filterMap_eq_nil_iff.2 fun op hop => hfits.frame?_eq_none hop]
  rfl

/-- The prolog of a frame that was made by calls has a record. -/
theorem expressible (h : PrologRun start stop declared frame ops is) (hbuilt : declared.Built) :
    UnwindRecord.Expressible ops is := by
  have hcalled : declared.apply .calculateFrameSize = .ok frame := h.calculated
  obtain ⟨hgp, hxmm⟩ := (hbuilt.call hcalled).length_le (FrameLayout.canBeSetUp_iff.1 h.canBeSetUp)
  obtain ⟨saves, hfits, rfl⟩ := h.fits
  refine ⟨h.performed, ?_, ?_, ?_, ?_⟩
  -- At most 34 bytes of pushes, 9 of the allocation, 144 of stores and 9 for the frame pointer.
  · have hsum := totalLength_le_sum_maxLength h.performed
    have hpush := sum_maxLength_push (.rbp :: frame.savedRegisters)
    have halloc := sum_maxLength_le frame.allocOps
    have hsaves := sum_maxLength_le saves
    have hone := frame.length_allocOps
    have hslots := hfits.slots.length_eq
    simp only [FrameLayout.bodyOps, List.map_append, List.sum_append, hpush, List.length_cons] at hsum
    simp only [List.map_cons, List.map_nil, List.sum_cons, List.sum_nil, PrologOp.maxLength] at hsum
    omega
  · rw [h.filterMap_frame?]
    exact Nat.le_refl 1
  · intro reg offset hop
    have hvalid := hfits.valid
    rcases List.mem_append.1 hop with hop | hop
    · cases hfits.frame?_eq_none hop
    · cases List.mem_singleton.1 hop
      exact ⟨hvalid.pointer_dvd, hvalid.pointer_le⟩
  · intro size hop
    rcases List.mem_append.1 hop with hop | hop
    · obtain ⟨reg, -, heq⟩ | ⟨hne, heq⟩ | ⟨reg, -, offset, heq⟩ := hfits.cases_bodyOps hop
      · cases heq
      · cases heq
        refine ⟨Nat.pos_of_ne_zero fun hzero => hne ?_, h.eight_dvd_frameSize⟩
        rwa [← UInt32.toNat_inj]
      · cases heq
    · cases List.mem_singleton.1 hop

end PrologRun

end StackUnwind
