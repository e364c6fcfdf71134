import StackUnwind.Proofs.Frame.Built
import StackUnwind.Proofs.Machine.Frame

namespace StackUnwind

namespace FrameLayout

variable {frame : FrameLayout}

/-- The parts of an allocation as ranges of distances from the stack pointer: the locals, the slots of the saved
    vector registers, and the padding. -/
def parts (frame : FrameLayout) (slots : List UInt32) : List (Set Nat) :=
  Set.Ico 0 frame.localSize.toNat :: (slots.map (fun slot => Set.Ico slot.toNat (slot.toNat + 16)) ++
    [Set.Ico (frame.frameSize.toNat - frame.padding) frame.frameSize.toNat])

namespace Sized

private theorem slot_bounds (h : frame.Sized) {slot : UInt32} (hslot : slot ∈ frame.slots) :
    16 ∣ slot.toNat ∧ frame.localSize.toNat ≤ slot.toNat ∧ slot.toNat + 16 + frame.padding ≤ frame.frameSize.toNat := by
  obtain ⟨index, hindex, rfl⟩ := List.mem_map.1 hslot
  have hindex := List.mem_range.1 hindex
  have hlocals := frame.localSize_le_localsEnd
  have hdvd := frame.dvd_localsEnd
  rw [h.toNat_slot hindex]
  rw [Sized] at h
  omega

private theorem localSize_add_padding_le (h : frame.Sized) :
    frame.localSize.toNat + frame.padding ≤ frame.frameSize.toNat := by
  have hlocals := frame.localSize_le_localsEnd
  rw [Sized] at h
  omega

private theorem pairwise_disjoint_slots (h : frame.Sized) :
    (frame.slots.map fun slot => Set.Ico slot.toNat (slot.toNat + 16)).Pairwise Disjoint := by
  rw [slots, List.map_map, List.pairwise_map]
  refine List.pairwise_lt_range.imp_of_mem fun {index later} hindex hlater hlt => ?_
  rw [Function.comp_apply, Function.comp_apply, h.toNat_slot (List.mem_range.1 hindex),
    h.toNat_slot (List.mem_range.1 hlater), Set.Ico_disjoint_Ico]
  omega

/-- No two parts of an allocation overlap. -/
theorem pairwise_disjoint_parts (h : frame.Sized) : (frame.parts frame.slots).Pairwise Disjoint := by
  -- The padding is last, so whatever leaves room for it does not overlap it.
  have hpadding : ∀ low high, high + frame.padding ≤ frame.frameSize.toNat →
      Disjoint (Set.Ico low high) (Set.Ico (frame.frameSize.toNat - frame.padding) frame.frameSize.toNat) := by
    intro low high hle
    rw [Set.Ico_disjoint_Ico]
    omega
  rw [parts, List.pairwise_cons]
  constructor
  · intro part hpart
    rcases List.mem_append.1 hpart with hpart | hpart
    · obtain ⟨slot, hslot, rfl⟩ := List.mem_map.1 hpart
      obtain ⟨-, hlocals, -⟩ := h.slot_bounds hslot
      rw [Set.Ico_disjoint_Ico]
      omega
    · rw [List.mem_singleton.1 hpart]
      exact hpadding _ _ h.localSize_add_padding_le
  · rw [List.pairwise_append]
    refine ⟨h.pairwise_disjoint_slots, List.pairwise_singleton .., fun part hpart last hlast => ?_⟩
    obtain ⟨slot, hslot, rfl⟩ := List.mem_map.1 hpart
    rw [List.mem_singleton.1 hlast]
    exact hpadding _ _ (h.slot_bounds hslot).2.2

private theorem parts_subset (h : frame.Sized) :
    ∀ part ∈ frame.parts frame.slots, part ⊆ Set.Ico 0 frame.frameSize.toNat := by
  intro part hpart
  simp only [parts, List.mem_cons, List.mem_append, List.mem_map, List.not_mem_nil, or_false] at hpart
  obtain rfl | ⟨slot, hslot, rfl⟩ | rfl := hpart
  · exact Set.Ico_subset_Ico_right (Nat.le_of_add_right_le h.localSize_add_padding_le)
  · exact Set.Ico_subset_Ico (Nat.zero_le _) (Nat.le_of_add_right_le (h.slot_bounds hslot).2.2)
  · exact Set.Ico_subset_Ico_left (Nat.zero_le _)

end Sized

end FrameLayout

namespace Machine

variable {m : Machine} {ops ops' : List PrologOp} {frame : FrameLayout}

/-- Every register that operations store goes to an address that is a multiple of sixteen. -/
def StoresAligned (m : Machine) : List PrologOp → Prop
  | [] => True
  | op :: ops => (∀ reg offset, op = .save reg offset → 16 ∣ m.sp + offset.toNat) ∧ (m.perform op).StoresAligned ops

private theorem storesAligned_append :
    m.StoresAligned (ops ++ ops') ↔ m.StoresAligned ops ∧ (m.performAll ops).StoresAligned ops' := by
  induction ops generalizing m with
  | nil => simp [StoresAligned, performAll]
  | cons op ops ih =>
    rw [List.cons_append, StoresAligned, StoresAligned, ih, and_assoc]
    rfl

private theorem storesAligned_of_forall_ne (h : ∀ op ∈ ops, ∀ reg offset, op ≠ .save reg offset) :
    m.StoresAligned ops := by
  induction ops generalizing m with
  | nil => trivial
  | cons op ops ih =>
    obtain ⟨hop, hops⟩ := List.forall_mem_cons.1 h
    exact ⟨fun reg offset heq => absurd heq (hop reg offset), ih hops⟩

/-- Stores into slots are aligned if the stack pointer is. -/
theorem storesAligned_zipWith {regs : List Register} {slots : List UInt32} (hsp : 16 ∣ m.sp)
    (hslots : ∀ slot ∈ slots, 16 ∣ slot.toNat) : m.StoresAligned (List.zipWith .save regs slots) := by
  induction regs generalizing m slots with
  | nil => trivial
  | cons reg regs ih =>
    cases slots with
    | nil => trivial
    | cons slot slots =>
      obtain ⟨hslot, hrest⟩ := List.forall_mem_cons.1 hslots
      refine ⟨fun _ _ heq => ?_, ih ?_ hrest⟩
      · cases heq
        omega
      · rwa [sp_perform_save]

/-- The pushes and the allocation of a prolog align the stack pointer, which is off by the return address. -/
theorem dvd_sp_of_sized (h : frame.Sized) (hsp : m.sp % 16 = 8) :
    16 ∣ (m.performAll ((.rbp :: frame.savedRegisters).map .push ++ frame.allocOps)).sp := by
  have hdvd := frame.dvd_localsEnd
  rw [performAll_append, (performAll_allocOps ..).1, sp_performAll_push, h, FrameLayout.padding, List.length_cons]
  split <;> omega

private theorem storesAligned_prologOps (h : frame.Sized) (hsp : m.sp % 16 = 8) :
    m.StoresAligned ((.rbp :: frame.savedRegisters).map .push ++ frame.allocOps ++
      List.zipWith .save frame.savedXmm frame.slots ++ [.setFrame .rbp frame.framePointerOffset]) := by
  have halloc : ∀ op ∈ frame.allocOps, ∀ reg offset, op ≠ .save reg offset := by
    rintro op hop reg offset rfl
    cases (FrameLayout.mem_allocOps_iff.1 hop).2
  have hstart : m.StoresAligned ((.rbp :: frame.savedRegisters).map .push ++ frame.allocOps) := by
    rw [storesAligned_append]
    refine ⟨storesAligned_of_forall_ne fun op hop reg offset => ?_, storesAligned_of_forall_ne halloc⟩
    obtain ⟨_, -, rfl⟩ := List.mem_map.1 hop
    exact nofun
  rw [storesAligned_append, storesAligned_append]
  refine ⟨⟨hstart, storesAligned_zipWith (dvd_sp_of_sized h hsp) fun slot hslot => (h.slot_bounds hslot).1⟩, ?_⟩
  exact storesAligned_of_forall_ne (by simp)

end Machine

namespace FrameLayout

/-- The geometry of a frame of calculated size: where its slots are, and what they have to do with the stack pointer
    if it is off by the return address at entry. -/
structure Sound (frame : FrameLayout) (slots : List UInt32) : Prop where
  xmmSlot : (List.range frame.savedXmm.length).mapM frame.xmmSlot = .ok slots
  bounds : ∀ slot ∈ slots, 16 ∣ slot.toNat ∧ frame.localSize.toNat ≤ slot.toNat ∧
    slot.toNat + 16 ≤ frame.frameSize.toNat
  disjoint : (frame.parts slots).Pairwise Disjoint
  inside : ∀ part ∈ frame.parts slots, part ⊆ Set.Ico 0 frame.frameSize.toNat
  prolog : frame.prologOps = .ok ((.rbp :: frame.savedRegisters).map .push ++ frame.allocOps ++
    List.zipWith .save frame.savedXmm slots ++ [.setFrame .rbp frame.framePointerOffset])
  aligned : ∀ m : Machine, m.sp % 16 = 8 →
    16 ∣ (m.performAll ((.rbp :: frame.savedRegisters).map .push ++ frame.allocOps)).sp ∧
    ∀ ops, frame.prologOps = .ok ops → m.StoresAligned ops

private theorem Sized.sound {frame : FrameLayout} (h : frame.Sized) : frame.Sound frame.slots := by
  refine ⟨h.mapM_xmmSlot, fun slot hslot => ?_, h.pairwise_disjoint_parts, h.parts_subset, h.prologOps_eq, ?_⟩
  · obtain ⟨hdvd, hlocals, hend⟩ := h.slot_bounds hslot
    exact ⟨hdvd, hlocals, Nat.le_of_add_right_le hend⟩
  · intro m hsp
    refine ⟨Machine.dvd_sp_of_sized h hsp, fun ops hops => ?_⟩
    rw [h.prologOps_eq, Except.ok.injEq] at hops
    rw [← hops]
    exact Machine.storesAligned_prologOps h hsp

/-- A frame whose size can be calculated is sound, and locals that were added by calls take up the sizes asked for,
    each rounded up to eight bytes. -/
theorem sound_geometry :
    (∀ frame sized : FrameLayout, frame.savedXmm.length < 2 ^ 32 → frame.calculateFrameSize = .ok sized →
      sized = { frame with frameSize := sized.frameSize } ∧ ∃ slots, sized.Sound slots) ∧
    ∀ (calls : List FrameCall) (start frame : FrameLayout), calls.foldlM apply start = .ok frame →
      frame.localSize.toNat = start.localSize.toNat + (calls.map FrameCall.locals).sum := by
  refine ⟨fun frame sized hcount hcalculated => ⟨?_, ?_⟩, fun calls start frame => localSize_of_calls⟩
  · obtain ⟨size, -, rfl⟩ := calculateFrameSize_eq_ok_iff.1 hcalculated
    rfl
  · exact ⟨sized.slots, (sized_of_calculated hcount hcalculated).sound⟩

/-- The locals of the sample frame end in the middle of sixteen bytes, so that its slot does not begin there. -/
theorem sound_geometry_sample :
    (∃ slots, { sample with frameSize := 56 }.Sound slots) ∧
    ∃ frame, [FrameCall.allocateLocals 20, .addSavedRegister (.gp 12), .allocateLocals 1].foldlM apply {} = .ok frame ∧
      frame.localSize.toNat = 32 := by
  obtain ⟨-, hsound⟩ := sound_geometry.1 sample _ (by decide) calculateFrameSize_sample
  obtain ⟨frame, hframe⟩ :
      ∃ frame, [FrameCall.allocateLocals 20, .addSavedRegister (.gp 12), .allocateLocals 1].foldlM apply {} = .ok frame :=
    ⟨_, rfl⟩
  exact ⟨hsound, frame, hframe, sound_geometry.2 _ {} frame hframe⟩

end FrameLayout

end StackUnwind
