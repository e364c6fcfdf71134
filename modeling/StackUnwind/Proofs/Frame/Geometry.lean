import StackUnwind.Frame
import StackUnwind.Proofs.Prolog.Instruction

namespace StackUnwind

namespace FrameLayout

variable {frame frame' : FrameLayout} {w : UInt32}

/-- Rounding up to a multiple succeeds as long as the result is a word. -/
theorem roundUp_eq_ok_iff {unit : Nat} {size : UInt32} :
    roundUp unit size = .ok w ↔ (size.toNat + (unit - 1)) / unit * unit = w.toNat :=
  word32_eq_ok_iff

/-- Each vector register takes 16 bytes. The count is a word. -/
theorem xmmArea_eq_ok_iff {count : Nat} : xmmArea count = .ok w ↔ count % 2 ^ 32 * 16 = w.toNat :=
  word32_eq_ok_iff

/-- Where the locals end, as a distance from the stack pointer. -/
def localsEnd (frame : FrameLayout) : Nat := (frame.localSize.toNat + 15) / 16 * 16

/-- The size of a frame is that of its locals, its vector registers and the padding, as long as it is a word. -/
theorem calculateFrameSize_eq_ok_iff :
    frame.calculateFrameSize = .ok frame' ↔ ∃ size : UInt32,
      size.toNat = frame.localsEnd + frame.savedXmm.length % 2 ^ 32 * 16 + frame.padding ∧
        frame' = { frame with frameSize := size } := by
  simp only [calculateFrameSize, bind_eq_ok_iff, roundUp_eq_ok_iff, xmmArea_eq_ok_iff, word32_eq_ok_iff,
    pure_eq_ok_iff, localsEnd]
  constructor
  · rintro ⟨locals, hlocals, xmm, hxmm, content, hcontent, size, hsize, rfl⟩
    exact ⟨size, by omega, rfl⟩
  · rintro ⟨size, hsize, rfl⟩
    have hlt := size.toNat_lt
    obtain ⟨locals, hlocals⟩ := exists_word (n := (frame.localSize.toNat + 15) / 16 * 16) (by omega)
    obtain ⟨xmm, hxmm⟩ := exists_word (n := frame.savedXmm.length % 2 ^ 32 * 16) (by omega)
    obtain ⟨content, hcontent⟩ := exists_word (n := locals.toNat + xmm.toNat) (by omega)
    exact ⟨locals, hlocals, xmm, hxmm, content, hcontent, size, by omega, rfl⟩

/-- The slots of vector registers follow the locals. -/
theorem xmmSlot_eq_ok_iff {index : Nat} :
    frame.xmmSlot index = .ok w ↔ w.toNat = frame.localsEnd + index % 2 ^ 32 * 16 := by
  simp only [xmmSlot, bind_eq_ok_iff, roundUp_eq_ok_iff, xmmArea_eq_ok_iff, word32_eq_ok_iff, localsEnd]
  constructor
  · rintro ⟨locals, hlocals, below, hbelow, hsum⟩
    omega
  · intro hw
    have hlt := w.toNat_lt
    obtain ⟨locals, hlocals⟩ := exists_word (n := (frame.localSize.toNat + 15) / 16 * 16) (by omega)
    obtain ⟨below, hbelow⟩ := exists_word (n := index % 2 ^ 32 * 16) (by omega)
    exact ⟨locals, hlocals, below, hbelow, by omega⟩

/-- What is demanded of a frame that can be set up. -/
structure Valid (frame : FrameLayout) : Prop where
  pointer_dvd : 16 ∣ frame.framePointerOffset.toNat
  pointer_le : frame.framePointerOffset.toNat ≤ 240
  pointer_le_size : frame.framePointerOffset.toNat ≤ frame.frameSize.toNat
  gp : ∀ reg ∈ frame.savedRegisters, reg ≠ .rbp ∧ reg ≠ .rsp ∧ ∃ n, reg.gpNumber? = some n
  xmm : ∀ reg ∈ frame.savedXmm, ∃ n, reg.xmmNumber? = some n
  size_lt : frame.frameSize.toNat < 2 ^ 31

/-- The check of a frame is that it is valid. -/
theorem canBeSetUp_iff : frame.canBeSetUp = true ↔ frame.Valid := by
  have hdvd : frame.framePointerOffset % 16 = 0 ↔ 16 ∣ frame.framePointerOffset.toNat := by
    simp [← UInt32.toNat_inj, Nat.dvd_iff_mod_eq_zero]
  have hle : frame.framePointerOffset ≤ UnwindRecord.maxFrameOffset ↔ frame.framePointerOffset.toNat ≤ 240 := by
    simp [UnwindRecord.maxFrameOffset, UInt32.le_iff_toNat_le]
  simp only [canBeSetUp, Bool.and_eq_true, beq_iff_eq, decide_eq_true_eq, List.all_eq_true, bne_iff_ne, ne_eq,
    Option.isSome_iff_exists, hdvd, hle, UInt32.le_iff_toNat_le]
  constructor
  · rintro ⟨⟨⟨⟨⟨hdvd, hle⟩, hsize⟩, hgp⟩, hxmm⟩, hlt⟩
    exact ⟨hdvd, hle, hsize, fun reg hreg => ⟨(hgp reg hreg).1.1, (hgp reg hreg).1.2, (hgp reg hreg).2⟩, hxmm, hlt⟩
  · rintro ⟨hdvd, hle, hsize, hgp, hxmm, hlt⟩
    exact ⟨⟨⟨⟨⟨hdvd, hle⟩, hsize⟩, fun reg hreg => ⟨⟨(hgp reg hreg).1, (hgp reg hreg).2.1⟩, (hgp reg hreg).2.2⟩⟩,
      hxmm⟩, hlt⟩

/-- The stores of the saved vector registers, of which `index` have been counted before. -/
def xmmSaves (frame : FrameLayout) (index : Nat) : List Register → Except Fault (List PrologOp)
  | [] => return []
  | reg :: regs => return .save reg (← frame.xmmSlot index) :: (← frame.xmmSaves (index + 1) regs)

/-- The operations that set up a frame of calculated size. -/
def prologOps (frame : FrameLayout) : Except Fault (List PrologOp) := do
  let saves ← frame.xmmSaves 0 frame.savedXmm
  return .push .rbp :: frame.savedRegisters.map .push
    ++ (if frame.frameSize = 0 then [] else [.alloc frame.frameSize])
    ++ saves
    ++ [.setFrame .rbp frame.framePointerOffset]

/-- Stores of vector registers into slots that follow each other from a distance `low` of the stack
    pointer on. -/
inductive XmmSlots : Nat → List Register → List PrologOp → Prop where
  | nil {low : Nat} : XmmSlots low [] []
  | cons {low : Nat} {reg : Register} {regs : List Register} {offset : UInt32} {ops : List PrologOp}
      (hoffset : offset.toNat = low) (hrest : XmmSlots (low + 16) regs ops) :
      XmmSlots low (reg :: regs) (.save reg offset :: ops)

private theorem xmmSlots_of_xmmSaves {index : Nat} {regs : List Register} {saves : List PrologOp}
    (hcount : index + regs.length ≤ 2 ^ 32) (h : frame.xmmSaves index regs = .ok saves) :
    XmmSlots (frame.localsEnd + 16 * index) regs saves := by
  induction regs generalizing index saves with
  | nil =>
    cases h
    exact .nil
  | cons reg regs ih =>
    rw [List.length_cons] at hcount
    simp only [xmmSaves, bind_eq_ok_iff, xmmSlot_eq_ok_iff, pure_eq_ok_iff] at h
    obtain ⟨offset, hoffset, rest, hrest, rfl⟩ := h
    have hslots : XmmSlots (frame.localsEnd + 16 * (index + 1)) regs rest := ih (by omega) hrest
    rw [Nat.mod_eq_of_lt (by omega)] at hoffset
    refine .cons (by omega) ?_
    rwa [show frame.localsEnd + 16 * index + 16 = frame.localsEnd + 16 * (index + 1) by omega]

/-- The allocation of a prolog, which is left out when it is empty. -/
def allocOps (frame : FrameLayout) : List PrologOp :=
  if frame.frameSize = 0 then [] else [.alloc frame.frameSize]

/-- The operations of a prolog up to the establishment of the frame pointer. -/
def bodyOps (frame : FrameLayout) (saves : List PrologOp) : List PrologOp :=
  (.rbp :: frame.savedRegisters).map .push ++ frame.allocOps ++ saves

/-- The operations of a prolog are those of its body, with the frame register last. -/
theorem prologOps_eq_ok_iff {ops : List PrologOp} :
    frame.prologOps = .ok ops ↔ ∃ saves, frame.xmmSaves 0 frame.savedXmm = .ok saves ∧
      ops = frame.bodyOps saves ++ [.setFrame .rbp frame.framePointerOffset] := by
  simp only [prologOps, bind_eq_ok_iff, pure_eq_ok_iff]
  rfl

/-- As many slots as can be addressed with a word. -/
theorem length_le_of_xmmSaves {index : Nat} {regs : List Register} {saves : List PrologOp} (hindex : index ≤ 2 ^ 28)
    (h : frame.xmmSaves index regs = .ok saves) : index + regs.length ≤ 2 ^ 28 := by
  induction regs generalizing index saves with
  | nil => exact hindex
  | cons reg regs ih =>
    simp only [xmmSaves, bind_eq_ok_iff, xmmSlot_eq_ok_iff, pure_eq_ok_iff] at h
    obtain ⟨offset, hoffset, rest, hrest, rfl⟩ := h
    have hlt := offset.toNat_lt
    rw [Nat.mod_eq_of_lt (by omega)] at hoffset
    have hle := ih (by omega) hrest
    rw [List.length_cons]
    omega

/-- The stores of vector registers go to the slots in order. -/
theorem xmmSaves_eq (frame : FrameLayout) (index : Nat) (regs : List Register) :
    frame.xmmSaves index regs =
      List.zipWith .save regs <$> (List.range' index regs.length).mapM frame.xmmSlot := by
  induction regs generalizing index with
  | nil => rfl
  | cons reg regs ih =>
    rw [xmmSaves, ih, List.length_cons, List.range'_succ, List.mapM_cons]
    cases frame.xmmSlot index with
    | error fault => rfl
    | ok slot => cases (List.range' (index + 1) regs.length).mapM frame.xmmSlot <;> rfl

/-- The slots of the saved vector registers, from the end of the locals on. -/
def slots (frame : FrameLayout) : List UInt32 :=
  (List.range frame.savedXmm.length).map fun index => .ofNat (frame.localsEnd + 16 * index)

/-- The size of a frame has been calculated without overflow: it is what its parts add up to. -/
def Sized (frame : FrameLayout) : Prop :=
  frame.frameSize.toNat = frame.localsEnd + 16 * frame.savedXmm.length + frame.padding

/-- A frame whose size was calculated is consistent. -/
theorem sized_of_calculated (hcount : frame.savedXmm.length < 2 ^ 32) (h : frame.calculateFrameSize = .ok frame') :
    frame'.Sized := by
  obtain ⟨size, hsize, rfl⟩ := calculateFrameSize_eq_ok_iff.1 h
  rwa [Nat.mod_eq_of_lt hcount, Nat.mul_comm] at hsize

/-- The locals are rounded up. -/
theorem localSize_le_localsEnd (frame : FrameLayout) : frame.localSize.toNat ≤ frame.localsEnd := by
  unfold localsEnd
  omega

/-- They end where a vector register may be stored. -/
theorem dvd_localsEnd (frame : FrameLayout) : 16 ∣ frame.localsEnd := Nat.dvd_mul_left ..

namespace Sized

/-- No slot of a consistent frame wraps around. -/
theorem toNat_slot (h : frame.Sized) {index : Nat} (hindex : index < frame.savedXmm.length) :
    (UInt32.ofNat (frame.localsEnd + 16 * index)).toNat = frame.localsEnd + 16 * index := by
  have hlt := frame.frameSize.toNat_lt
  rw [Sized] at h
  exact UInt32.toNat_ofNat_of_lt' (show _ < 2 ^ 32 by omega)

/-- A consistent frame has a slot for each vector register. -/
theorem mapM_xmmSlot (h : frame.Sized) : (List.range frame.savedXmm.length).mapM frame.xmmSlot = .ok frame.slots := by
  rw [mapM_eq_ok_iff, slots, List.forall₂_map_right_iff, List.forall₂_same]
  intro index hindex
  have hindex := List.mem_range.1 hindex
  have hlt := frame.frameSize.toNat_lt
  rw [xmmSlot_eq_ok_iff, h.toNat_slot hindex]
  rw [Sized] at h
  omega

/-- The vector registers of a consistent frame are saved into their slots. -/
theorem xmmSaves (h : frame.Sized) :
    frame.xmmSaves 0 frame.savedXmm = .ok (List.zipWith .save frame.savedXmm frame.slots) := by
  rw [xmmSaves_eq, ← List.range_eq_range', h.mapM_xmmSlot]
  rfl

/-- The prolog stores the vector registers into the slots. -/
theorem prologOps_eq (h : frame.Sized) :
    frame.prologOps = .ok ((.rbp :: frame.savedRegisters).map .push ++ frame.allocOps ++
      List.zipWith .save frame.savedXmm frame.slots ++ [.setFrame .rbp frame.framePointerOffset]) := by
  exact prologOps_eq_ok_iff.2 ⟨_, h.xmmSaves, rfl⟩

end Sized

variable {saves : List PrologOp}

/-- The frame of a prolog: it is valid, and its stores go to slots within the allocation. -/
structure Fits (frame : FrameLayout) (saves : List PrologOp) : Prop where
  valid : frame.Valid
  slots : XmmSlots frame.localsEnd frame.savedXmm saves
  room : frame.localsEnd + 16 * frame.savedXmm.length ≤ frame.frameSize.toNat

/-- The slots of a frame of calculated size are above the locals and within the allocation. -/
theorem fits_of_calculated {declared : FrameLayout} (hcalculated : declared.calculateFrameSize = .ok frame)
    (hsaves : frame.xmmSaves 0 frame.savedXmm = .ok saves) (hvalid : frame.Valid) : frame.Fits saves := by
  obtain ⟨size, hsize, rfl⟩ := calculateFrameSize_eq_ok_iff.1 hcalculated
  have hle : 0 + declared.savedXmm.length ≤ 2 ^ 28 := length_le_of_xmmSaves (by omega) hsaves
  have hslots := @xmmSlots_of_xmmSaves _ 0 declared.savedXmm saves (by omega) hsaves
  rw [Nat.mul_zero, Nat.add_zero] at hslots
  rw [Nat.mod_eq_of_lt (by omega)] at hsize
  have hroom : declared.localsEnd + 16 * declared.savedXmm.length ≤ size.toNat := by omega
  exact ⟨hvalid, hslots, hroom⟩

/-- There are as many saves as registers. -/
theorem XmmSlots.length_eq {low : Nat} {regs : List Register} (h : XmmSlots low regs saves) :
    saves.length = regs.length := by
  induction h with
  | nil => rfl
  | cons _ _ ih => simp [ih]

/-- What is read from the saves is what can be read from their registers. -/
theorem XmmSlots.map_reg {low : Nat} {regs : List Register} (h : XmmSlots low regs saves)
    {f : PrologOp → Option RegNumber} {g : Register → Option RegNumber}
    (hf : ∀ reg ∈ regs, ∀ offset, f (.save reg offset) = g reg) : saves.filterMap f = regs.filterMap g := by
  induction h with
  | nil => rfl
  | cons _ _ ih =>
    rw [List.filterMap_cons, List.filterMap_cons, hf _ (.head _), ih fun reg hreg => hf reg (.tail _ hreg)]

/-- Every save is one of a register. -/
theorem XmmSlots.mem {low : Nat} {regs : List Register} (h : XmmSlots low regs saves) {op : PrologOp}
    (hop : op ∈ saves) : ∃ reg ∈ regs, ∃ offset, op = .save reg offset := by
  induction h with
  | nil => cases hop
  | cons _ _ ih =>
    cases hop with
    | head => exact ⟨_, .head _, _, rfl⟩
    | tail _ hop =>
      obtain ⟨reg, hreg, offset, rfl⟩ := ih hop
      exact ⟨reg, .tail _ hreg, offset, rfl⟩

/-- Every slot lies within the area of the vector registers. -/
theorem XmmSlots.offset_bounds {low : Nat} {regs : List Register} (h : XmmSlots low regs saves) {reg : Register}
    {offset : UInt32} (hop : .save reg offset ∈ saves) :
    low ≤ offset.toNat ∧ offset.toNat + 16 ≤ low + 16 * regs.length := by
  induction h with
  | nil => cases hop
  | cons hoffset _ ih =>
    rw [List.length_cons]
    cases hop with
    | head => omega
    | tail _ hop =>
      have hbounds := ih hop
      omega

/-- A frame is allocated at once, if it has any bytes. -/
theorem length_allocOps (frame : FrameLayout) : frame.allocOps.length ≤ 1 := by
  unfold allocOps
  split <;> simp

/-- The allocation is that of the whole frame. -/
theorem mem_allocOps_iff {op : PrologOp} :
    op ∈ frame.allocOps ↔ frame.frameSize ≠ 0 ∧ op = .alloc frame.frameSize := by
  unfold allocOps
  split
  next h => simp [h]
  next h => simp [h]

/-- A prolog saves nothing but the vector registers. -/
theorem save_mem_bodyOps_iff {reg : Register} {offset : UInt32} :
    .save reg offset ∈ frame.bodyOps saves ↔ .save reg offset ∈ saves := by
  simp [bodyOps, mem_allocOps_iff]

/-- The operations of a prolog are one for each register and at most two more. -/
theorem length_bodyOps_le (frame : FrameLayout) (saves : List PrologOp) :
    (frame.bodyOps saves).length ≤ frame.savedRegisters.length + saves.length + 2 := by
  have halloc := frame.length_allocOps
  simp only [bodyOps, List.length_append, List.length_map, List.length_cons]
  omega

/-- The operations before the frame pointer is established: pushes, the allocation and stores. -/
theorem Fits.cases_bodyOps (h : frame.Fits saves) {op : PrologOp} (hop : op ∈ frame.bodyOps saves) :
    (∃ reg ∈ .rbp :: frame.savedRegisters, op = .push reg) ∨
      (frame.frameSize ≠ 0 ∧ op = .alloc frame.frameSize) ∨
      ∃ reg ∈ frame.savedXmm, ∃ offset, op = .save reg offset := by
  simp only [bodyOps, List.mem_append, List.mem_map] at hop
  rcases hop with (⟨reg, hreg, rfl⟩ | hop) | hop
  · exact .inl ⟨reg, hreg, rfl⟩
  · exact .inr (.inl (mem_allocOps_iff.1 hop))
  · exact .inr (.inr (h.slots.mem hop))

end FrameLayout

end StackUnwind
