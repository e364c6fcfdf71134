import StackUnwind.Proofs.Emission.Refusal
import StackUnwind.Proofs.Exchange.Acceptance
import StackUnwind.Proofs.Frame.Built

namespace StackUnwind

namespace FrameLayout

variable {frame : FrameLayout}

/-- The size of the fixed allocation, also where it is more than a word holds. -/
def fullSize (frame : FrameLayout) : Nat := frame.localsEnd + 16 * frame.savedXmm.length + frame.padding

/-- The arithmetic that fails if the size does not fit a word. -/
def overflowing (frame : FrameLayout) : Arithmetic := if 2 ^ 32 ≤ frame.localsEnd then .multiply else .add

private theorem roundUp_eq_error_iff {unit : Nat} {size : UInt32} {fault : Fault} :
    roundUp unit size = .error fault ↔
      2 ^ 32 ≤ (size.toNat + (unit - 1)) / unit * unit ∧ fault = .overflow .multiply :=
  word32_eq_error_iff

private theorem xmmArea_eq_error_iff {count : Nat} {fault : Fault} :
    xmmArea count = .error fault ↔ 2 ^ 32 ≤ count % 2 ^ 32 * 16 ∧ fault = .overflow .multiply :=
  word32_eq_error_iff

section Size

variable (hcount : frame.savedXmm.length < 2 ^ 28)
include hcount

private theorem calculateFrameSize_eq_ok_of_lt (h : frame.fullSize < 2 ^ 32) :
    frame.calculateFrameSize = .ok { frame with frameSize := .ofNat frame.fullSize } := by
  refine calculateFrameSize_eq_ok_iff.2 ⟨.ofNat frame.fullSize, ?_, rfl⟩
  rw [UInt32.toNat_ofNat_of_lt' h, Nat.mod_eq_of_lt (Nat.lt_trans hcount (by decide)), Nat.mul_comm]
  rfl

/-- The sum of the sixteens is a multiple of sixteen, so the padding never makes it overflow. -/
theorem calculateFrameSize_eq_error_iff {fault : Fault} :
    frame.calculateFrameSize = .error fault ↔ 2 ^ 32 ≤ frame.fullSize ∧ fault = .overflow frame.overflowing := by
  have hpadding : frame.padding ≤ 8 := by
    unfold padding
    split <;> decide
  have hdvd := frame.dvd_localsEnd
  rw [calculateFrameSize]
  simp only [bind_eq_error_iff, roundUp_eq_ok_iff, roundUp_eq_error_iff, xmmArea_eq_ok_iff, xmmArea_eq_error_iff,
    word32_eq_ok_iff, word32_eq_error_iff, pure_eq_error_iff, and_false, exists_false, or_false]
  change 2 ^ 32 ≤ frame.localsEnd ∧ _ ∨ (∃ locals : UInt32, frame.localsEnd = locals.toNat ∧ _) ↔ _
  rw [Nat.mod_eq_of_lt (Nat.lt_trans hcount (by decide)), fullSize, overflowing]
  constructor
  · rintro (⟨hlocals, rfl⟩ | ⟨locals, hlocals, ⟨harea, -⟩ | ⟨xmm, hxmm, ⟨hsum, rfl⟩ | ⟨content, hcontent, hsum, -⟩⟩⟩)
    · exact ⟨by omega, by rw [if_pos hlocals]⟩
    · omega
    · have hlt := locals.toNat_lt
      exact ⟨by omega, by rw [if_neg (by omega)]⟩
    · have hlt := content.toNat_lt
      omega
  · rintro ⟨hsize, rfl⟩
    by_cases hlocals : 2 ^ 32 ≤ frame.localsEnd
    · exact .inl ⟨hlocals, by rw [if_pos hlocals]⟩
    · obtain ⟨locals, heq⟩ := exists_word (n := frame.localsEnd) (by omega)
      obtain ⟨xmm, hxmm⟩ := exists_word (n := frame.savedXmm.length * 16) (by omega)
      refine .inr ⟨locals, heq, .inr ⟨xmm, hxmm, .inl ⟨by omega, by rw [if_neg hlocals]⟩⟩⟩

end Size

/-- The bank of a register handle leaves its number free. -/
theorem Built.length_savedXmm_le (h : frame.Built) : frame.savedXmm.length ≤ 256 := by
  refine length_le_of_nodup h.nodup.2 (fun n : Fin 256 => .xmm (.ofNat n.val)) fun reg hreg => ?_
  have hbank := h.banks.2 reg hreg
  obtain ⟨bank, id⟩ := reg
  obtain rfl : bank = Register.xmmBank := by simpa [Register.isXmm] using hbank
  exact ⟨⟨id.toNat, id.toNat_lt⟩, by simp [Register.xmm]⟩

private theorem Built.eight_dvd_localSize (h : frame.Built) : 8 ∣ frame.localSize.toNat := by
  induction h with
  | empty => exact Nat.dvd_zero 8
  | @call frame frame' c _ hcall ih =>
    rw [localSize_of_apply hcall]
    refine Nat.dvd_add ih ?_
    cases c with
    | allocateLocals size => exact Nat.dvd_mul_right ..
    | addSavedRegister | setFramePointerOffset | calculateFrameSize => exact Nat.dvd_zero 8

/-- Locals are rounded up when they are asked for, so there is one size of theirs that cannot be rounded up again. -/
theorem Built.overflowing_eq (h : frame.Built) :
    frame.overflowing = if frame.localSize.toNat = 2 ^ 32 - 8 then .multiply else .add := by
  have hlt := frame.localSize.toNat_lt
  have hdvd := h.eight_dvd_localSize
  have hlocals : 2 ^ 32 ≤ frame.localsEnd ↔ frame.localSize.toNat = 2 ^ 32 - 8 := by
    unfold localsEnd
    omega
  simp only [overflowing, hlocals]

/-- A frame with all the locals that can be asked for. -/
def largest : FrameLayout where
  localSize := 4294967288

private theorem built_largest : largest.Built := .call (c := .allocateLocals 4294967288) .empty rfl

/-- A frame whose locals can be rounded up, but leave no room for the register. -/
def largestWithXmm : FrameLayout where
  savedXmm := [.xmm 6]
  localSize := 4294967280

private theorem built_largestWithXmm : largestWithXmm.Built := by
  have hxmm : FrameLayout.Built { savedXmm := [.xmm 6] } := .call (c := .addSavedRegister (.xmm 6)) .empty rfl
  exact .call (c := .allocateLocals 4294967280) hxmm rfl

end FrameLayout

namespace Emission

open FrameRecorder

variable {ρ : Type} [FrameRecorder ρ] {x y : Emission ρ}

/-- What the first prolog of a recorder comes to, by the size of its frame. -/
structure SettledBySize (x : Emission ρ) : Prop where
  /-- In cold code the size does not matter. -/
  cold : x.unit.coldStart ≠ none → prolog x = .error (.error .coldSectionStarted) x
  written_iff : (∃ y, prolog x = .ok () y) ↔
    x.unit.coldStart = none ∧ x.frame.fullSize < 2 ^ 31 ∧ x.frame.Acceptable (.ofNat x.frame.fullSize)
  /-- A size that a word holds but an instruction does not is refused. -/
  refused : x.unit.coldStart = none → 2 ^ 31 ≤ x.frame.fullSize → x.frame.fullSize < 2 ^ 32 →
    prolog x = .error (.error .invalidFrame) { x with frame := { x.frame with frameSize := .ofNat x.frame.fullSize } }
  /-- A size that no word holds is never compared with anything. -/
  faulted_iff : ∀ fault y, prolog x = .error (.fault fault) y ↔
    x.unit.coldStart = none ∧ 2 ^ 32 ≤ x.frame.fullSize ∧
      fault = .overflow (if x.frame.localSize.toNat = 2 ^ 32 - 8 then .multiply else .add) ∧ y = x

private theorem prolog_eq_fault_of_calculated {fault : Fault} (hhot : x.unit.coldStart = none)
    (h : x.frame.calculateFrameSize = .error fault) : prolog x = .error (.fault fault) x := by
  refine prolog_of_prepareFrame ?_
  rw [prepareFrame_of_hot hhot, h]

private theorem prolog_eq_error_of_cold (hcold : x.unit.coldStart ≠ none) :
    prolog x = .error (.error .coldSectionStarted) x :=
  prolog_of_prepareFrame (prepareFrame_eq_error_of_cold hcold)

private theorem settledBySize_of_lt (hcount : x.frame.savedXmm.length < 2 ^ 28)
    (htakes : TakesProlog x.recorder x.frame.maxOps) (hsize : x.frame.fullSize < 2 ^ 32) : x.SettledBySize := by
  have hword : x.frame.savedXmm.length < 2 ^ 32 := Nat.lt_trans hcount (by decide)
  have hcalculated := FrameLayout.calculateFrameSize_eq_ok_of_lt hcount hsize
  have hle (h : x.frame.Acceptable (.ofNat x.frame.fullSize)) : x.frame.fullSize < 2 ^ 31 := by
    have hle := h.size_le
    rw [UInt32.toNat_ofNat_of_lt' hsize] at hle
    omega
  refine ⟨prolog_eq_error_of_cold, ?_, fun hhot hlarge _ => ?_, fun fault y => ⟨fun h => ?_, ?_⟩⟩
  · rw [exists_prolog_iff hcalculated hword htakes]
    exact and_congr_right fun _ => ⟨fun h => ⟨hle h, h⟩, And.right⟩
  · exact prolog_of_prepareFrame
      (prepareFrame_eq_error_of_hot hcalculated hhot fun h => absurd (hle h) (Nat.not_lt.2 hlarge))
  · obtain ⟨-, ⟨-, hstop, -⟩ | ⟨-, hstop, -⟩⟩ := of_prolog_eq_error hcalculated hword htakes h
    · cases hstop
    · cases hstop
  · rintro ⟨-, hlarge, -⟩
    exact absurd hsize (Nat.not_lt.2 hlarge)

private theorem settledBySize_of_le (hbuilt : x.frame.Built) (hcount : x.frame.savedXmm.length < 2 ^ 28)
    (hsize : 2 ^ 32 ≤ x.frame.fullSize) : x.SettledBySize := by
  have hfault := (FrameLayout.calculateFrameSize_eq_error_iff hcount).2 ⟨hsize, rfl⟩
  rw [hbuilt.overflowing_eq] at hfault
  refine ⟨prolog_eq_error_of_cold, ⟨?_, ?_⟩, fun _ _ hlt => absurd hlt (Nat.not_lt.2 hsize),
    fun fault y => ⟨fun h => ?_, ?_⟩⟩
  · rintro ⟨y, h⟩
    by_cases hhot : x.unit.coldStart = none
    · cases h.symm.trans (prolog_eq_fault_of_calculated hhot hfault)
    · cases h.symm.trans (prolog_eq_error_of_cold hhot)
  · rintro ⟨-, hlt, -⟩
    omega
  · by_cases hhot : x.unit.coldStart = none
    · cases h.symm.trans (prolog_eq_fault_of_calculated hhot hfault)
      exact ⟨hhot, hsize, rfl, rfl⟩
    · cases h.symm.trans (prolog_eq_error_of_cold hhot)
  · rintro ⟨hhot, -, rfl, rfl⟩
    exact prolog_eq_fault_of_calculated hhot hfault

private theorem settledBySize (hbuilt : x.frame.Built) (htakes : TakesProlog x.recorder x.frame.maxOps) :
    x.SettledBySize := by
  have hcount : x.frame.savedXmm.length < 2 ^ 28 := Nat.lt_of_le_of_lt hbuilt.length_savedXmm_le (by decide)
  obtain hlt | hle := Nat.lt_or_ge x.frame.fullSize (2 ^ 32)
  · exact settledBySize_of_lt hcount htakes hlt
  · exact settledBySize_of_le hbuilt hcount hle

/-- The first prolog of a recorder is written or refused with an error unless the size of its frame does not fit a word.
    Then it is a fault, because the size is calculated before it is checked. -/
theorem prolog_settled_by_size (x : Emission ρ) (hbuilt : x.frame.Built) :
    (TakesProlog x.recorder x.frame.maxOps → x.SettledBySize) ∧
      ∀ arch, { x with recorder := Recorder.fresh arch }.SettledBySize ∧
        { x with recorder := Tracker.fresh arch }.SettledBySize := by
  refine ⟨settledBySize hbuilt, fun arch => ?_⟩
  have hopen : (Recorder.fresh arch).MayOpen x.frame.maxOps := by
    cases arch with
    | x86 => trivial
    | x64 => exact ⟨rfl, nofun⟩
  constructor
  · exact settledBySize hbuilt (Recorder.takesProlog_iff.2 hopen)
  · exact settledBySize hbuilt (Tracker.takesProlog_iff.2 ⟨rfl, hopen⟩)

/-- The first prolog of a unit. -/
def opening (frame : FrameLayout) : Emission Tracker where
  unit := {}
  recorder := .fresh .x64
  frame

theorem prolog_settled_by_size_opening :
    (∃ y, prolog (opening .sample) = .ok () y) ∧
      prolog (opening .largest) = .error (.fault (.overflow .multiply)) (opening .largest) := by
  obtain ⟨-, hsample⟩ := (prolog_settled_by_size (opening .sample) FrameLayout.built_sample).2 .x64
  obtain ⟨-, hlargest⟩ := (prolog_settled_by_size (opening .largest) FrameLayout.built_largest).2 .x64
  refine ⟨hsample.written_iff.2 ⟨rfl, by decide, ?_⟩, (hlargest.faulted_iff _ _).2 ⟨rfl, by decide, rfl, rfl⟩⟩
  exact ⟨by decide, by decide, by decide, by decide, by decide, by decide⟩

/-- Neither frame is refused, though both are larger than what is checked for. -/
theorem prolog_overflows_opening :
    FrameLayout.largest.Built ∧ 2 ^ 31 ≤ FrameLayout.largest.fullSize ∧
      verdict (prolog (opening .largest)) = .error (.fault (.overflow .multiply)) ∧
      FrameLayout.largestWithXmm.Built ∧ 2 ^ 31 ≤ FrameLayout.largestWithXmm.fullSize ∧
      verdict (prolog (opening .largestWithXmm)) = .error (.fault (.overflow .add)) := by
  refine ⟨FrameLayout.built_largest, by decide, by decide +kernel, FrameLayout.built_largestWithXmm, by decide, ?_⟩
  decide +kernel

end Emission

end StackUnwind
