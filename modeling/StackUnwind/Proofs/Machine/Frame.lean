import StackUnwind.Proofs.Frame.Geometry
import StackUnwind.Proofs.Machine.Prolog

namespace StackUnwind

namespace Machine

variable {m : Machine}

private theorem sp_perform_push (m : Machine) (reg : Register) : (m.perform (.push reg)).sp = m.sp - 8 := by
  simp [sp, perform, push]

/-- Each push lowers the stack pointer by 8. -/
theorem sp_performAll_push (m : Machine) (regs : List Register) :
    (m.performAll (regs.map .push)).sp = m.sp - 8 * regs.length := by
  induction regs generalizing m with
  | nil => simp [performAll]
  | cons reg regs ih =>
    rw [List.map_cons, performAll, List.foldl_cons]
    change ((m.perform (.push reg)).performAll (regs.map .push)).sp = _
    rw [ih, sp_perform_push, List.length_cons]
    push_cast
    omega

private theorem writesAny_push {a : Int} {regs : List Register} :
    m.WritesAny a (regs.map .push) ↔ m.sp - 8 * regs.length ≤ a ∧ a < m.sp := by
  induction regs generalizing m with
  | nil =>
    simp [WritesAny]
  | cons reg regs ih =>
    simp only [List.map_cons, WritesAny, Writes, ih, sp_perform_push, List.length_cons]
    push_cast
    omega

private theorem separate_push (m : Machine) (regs : List Register) : m.Separate (regs.map .push) := by
  induction regs generalizing m with
  | nil => trivial
  | cons reg regs ih =>
    refine ⟨fun a ha hlater => ?_, ih _⟩
    obtain ⟨hle, hlt⟩ := ha
    rw [writesAny_push, sp_perform_push] at hlater
    omega

/-- A save leaves the stack pointer. -/
theorem sp_perform_save (m : Machine) (reg : Register) (offset : UInt32) :
    (m.perform (.save reg offset)).sp = m.sp := by
  rw [perform]
  split <;> rfl

private theorem sp_performAll_slots {low : Nat} {regs : List Register} {saves : List PrologOp}
    (h : FrameLayout.XmmSlots low regs saves) (m : Machine) : (m.performAll saves).sp = m.sp := by
  induction h generalizing m with
  | nil => rfl
  | cons _ _ ih => exact (ih _).trans (sp_perform_save ..)

private theorem writesAny_slots {low : Nat} {regs : List Register} {saves : List PrologOp}
    (h : FrameLayout.XmmSlots low regs saves) {a : Int} (ha : m.WritesAny a saves) :
    m.sp + low ≤ a ∧ a < m.sp + low + 16 * saves.length := by
  induction h generalizing m with
  | nil => exact ha.elim
  | @cons low reg regs offset saves hoffset hrest ih =>
    rw [List.length_cons]
    push_cast
    rcases ha with ⟨hle, hlt⟩ | ha
    · split at hlt <;> omega
    · have hbounds := ih ha
      rw [sp_perform_save] at hbounds
      push_cast at hbounds
      omega

private theorem separate_slots {low : Nat} {regs : List Register} {saves : List PrologOp}
    (h : FrameLayout.XmmSlots low regs saves) (m : Machine) : m.Separate saves := by
  induction h generalizing m with
  | nil => trivial
  | @cons low reg regs offset saves hoffset hrest ih =>
    refine ⟨fun a ha hlater => ?_, ih _⟩
    obtain ⟨-, hlt⟩ := ha
    have hbounds := writesAny_slots hrest hlater
    rw [sp_perform_save] at hbounds
    push_cast at hbounds
    split at hlt <;> omega

end Machine

namespace FrameLayout

variable {frame : FrameLayout} {saves : List PrologOp}

namespace Fits

/-- Up to the frame pointer a prolog changes no register but the stack pointer. -/
theorem plain (h : frame.Fits saves) : ∀ op ∈ frame.bodyOps saves, op.Plain := by
  intro op hop
  obtain ⟨reg, hreg, rfl⟩ | ⟨-, rfl⟩ | ⟨reg, hreg, offset, rfl⟩ := h.cases_bodyOps hop
  · refine ⟨rfl, fun heq => ?_⟩
    rcases List.mem_cons.1 hreg with rfl | hreg
    · cases heq
    · obtain ⟨-, hrsp, n, hn⟩ := h.valid.gp reg hreg
      rw [PrologOp.storedGp?, Register.nibble_id_of_numberIn? hn, Option.some_inj] at heq
      subst n
      exact hrsp (Register.numberIn?_eq_some_iff.1 hn)
  · exact ⟨rfl, by simp [PrologOp.storedGp?]⟩
  · obtain ⟨n, hn⟩ := h.valid.xmm reg hreg
    exact ⟨rfl, by simp [PrologOp.storedGp?, Register.isXmm_of_xmmNumber? hn]⟩

/-- A prolog stores the frame register and the saved registers, in order. -/
theorem filterMap_storedGp? (h : frame.Fits saves) :
    (frame.bodyOps saves).filterMap PrologOp.storedGp? =
      (.rbp :: frame.savedRegisters).map fun reg => nibble reg.id.toNat := by
  have halloc : frame.allocOps.filterMap PrologOp.storedGp? = [] := by
    unfold allocOps
    split <;> rfl
  have hsaves : saves.filterMap PrologOp.storedGp? = [] := by
    rw [h.slots.map_reg (g := fun _ => none) fun reg hreg offset => ?_]
    · simp
    · obtain ⟨n, hn⟩ := h.valid.xmm reg hreg
      simp [PrologOp.storedGp?, Register.isXmm_of_xmmNumber? hn]
  rw [bodyOps, List.filterMap_append, List.filterMap_append, halloc, hsaves, List.append_nil, List.append_nil,
    List.filterMap_map]
  exact congrFun (List.filterMap_eq_map (f := fun reg : Register => nibble reg.id.toNat)) _

/-- A prolog stores the saved vector registers, in order. -/
theorem filterMap_storedXmm? (h : frame.Fits saves) :
    (frame.bodyOps saves).filterMap PrologOp.storedXmm? =
      frame.savedXmm.map fun reg => nibble reg.id.toNat := by
  have hpush (regs : List Register) : (regs.map .push).filterMap PrologOp.storedXmm? = [] := by
    simp [List.filterMap_map, PrologOp.storedXmm?, Function.comp_def]
  have halloc : frame.allocOps.filterMap PrologOp.storedXmm? = [] := by
    unfold allocOps
    split <;> rfl
  rw [bodyOps, List.filterMap_append, List.filterMap_append, hpush, halloc, List.nil_append, List.nil_append,
    h.slots.map_reg (g := fun reg => some (nibble reg.id.toNat)) fun reg hreg offset => ?_]
  · exact congrFun (List.filterMap_eq_map (f := fun reg : Register => nibble reg.id.toNat)) _
  · obtain ⟨n, hn⟩ := h.valid.xmm reg hreg
    simp [PrologOp.storedXmm?, Register.isXmm_of_xmmNumber? hn]

end Fits

end FrameLayout

namespace Machine

variable {frame : FrameLayout} {saves : List PrologOp}

/-- The allocation moves the stack pointer and writes nothing. -/
theorem performAll_allocOps (m : Machine) (frame : FrameLayout) :
    (m.performAll frame.allocOps).sp = m.sp - frame.frameSize.toNat ∧
      (∀ a, ¬ m.WritesAny a frame.allocOps) ∧ m.Separate frame.allocOps := by
  unfold FrameLayout.allocOps
  split
  next h => simp [h, performAll, WritesAny, Separate]
  next h => simp [performAll, WritesAny, Writes, Separate, perform, sp]

/-- A prolog lowers the stack pointer by 8 for each register it pushes, and by the size of the frame. -/
theorem sp_performAll_bodyOps (h : frame.Fits saves) (m : Machine) :
    (m.performAll (frame.bodyOps saves)).sp =
      m.sp - 8 * (.rbp :: frame.savedRegisters).length - frame.frameSize.toNat := by
  rw [FrameLayout.bodyOps, performAll_append, performAll_append, sp_performAll_slots h.slots,
    (performAll_allocOps ..).1, sp_performAll_push]

/-- Where a prolog stores registers: above the locals and below the return address, and never twice in the same
    place. -/
theorem separate_bodyOps (h : frame.Fits saves) (m : Machine) :
    m.Separate (frame.bodyOps saves) ∧ ∀ a, m.WritesAny a (frame.bodyOps saves) →
      (m.performAll (frame.bodyOps saves)).sp + frame.localsEnd ≤ a ∧ a < m.sp := by
  have hroom := h.room
  have hlength := h.slots.length_eq
  have hpush := sp_performAll_push m (.rbp :: frame.savedRegisters)
  obtain ⟨halloc, hnot, hseparate⟩ :=
    performAll_allocOps (m.performAll ((.rbp :: frame.savedRegisters).map .push)) frame
  rw [sp_performAll_bodyOps h]
  simp only [FrameLayout.bodyOps, separate_append, writesAny_append, performAll_append, writesAny_push]
  refine ⟨⟨⟨separate_push _ _, hseparate, fun a _ => hnot a⟩, separate_slots h.slots _, fun a ha hlater => ?_⟩, ?_⟩
  · have hbounds := writesAny_slots h.slots hlater
    rw [halloc, hpush] at hbounds
    rcases ha with ha | ha
    · omega
    · exact hnot a ha
  · rintro a ((ha | ha) | ha)
    · omega
    · exact (hnot a ha).elim
    · have hbounds := writesAny_slots h.slots ha
      rw [halloc, hpush] at hbounds
      omega

/-- What a whole prolog leaves in the frame pointer. -/
theorem performAll_prolog (m : Machine) (frame : FrameLayout) (saves : List PrologOp) :
    m.performAll (frame.bodyOps saves ++ [.setFrame .rbp frame.framePointerOffset]) =
      (m.performAll (frame.bodyOps saves)).setGp 5
        ((m.performAll (frame.bodyOps saves)).sp + frame.framePointerOffset.toNat) := by
  rw [performAll_append]
  rfl

end Machine

end StackUnwind
