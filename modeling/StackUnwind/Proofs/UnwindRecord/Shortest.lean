import StackUnwind.Proofs.UnwindRecord.Reading

namespace StackUnwind

namespace UnwindCode

/-- Every slot that is read belongs to a code. -/
theorem length_of_readAll {slots : List UInt16} {codes : List UnwindCode} (h : readAll slots = some codes) :
    slots.length = (codes.map (·.slots.length)).sum := by
  have hcons : ∀ (code : UnwindCode) {rest : List UInt16} {codes : List UnwindCode},
      (∀ {codes}, readAll rest = some codes → rest.length = (codes.map (·.slots.length)).sum) →
        (readAll rest).map (code :: ·) = some codes →
          rest.length + code.slots.length = (codes.map (·.slots.length)).sum := by
    intro code rest codes ih h
    obtain ⟨codes', hcodes', rfl⟩ := Option.map_eq_some_iff.1 h
    rw [List.map_cons, List.sum_cons, ← ih hcodes', Nat.add_comm]
  fun_induction readAll slots generalizing codes
  case case1 =>
    cases h
    rfl
  case case5 | case12 => cases h
  case case2 ih | case3 ih | case4 ih | case6 ih | case7 ih | case8 ih | case9 ih | case10 ih | case11 ih =>
    exact hcons _ ih h

end UnwindCode

namespace PrologOp

/-- What a slot counts in units fits the scaled form. -/
theorem fitsScaled_units {scale : Nat} (hpos : 0 < scale) (hscale : scale ≤ 16) (units : UInt16) :
    fitsScaled scale (.ofNat (scale * units.toNat)) = true := by
  have hunits := units.toNat_lt
  have hlt : scale * units.toNat < UInt32.size := by
    have := Nat.mul_le_mul_right units.toNat hscale
    simp only [UInt32.size]
    omega
  rw [fitsScaled, UInt32.toNat_ofNat_of_lt' hlt, Nat.mul_div_cancel_left _ hpos, Nat.mul_mod_right]
  simp only [beq_self_eq_true, Bool.true_and, decide_eq_true_eq]
  omega

end PrologOp

namespace RecordImage

private theorem length_of_readSlots {count : Nat} {bytes rest : List UInt8} {slots : List UInt16}
    (h : readSlots count bytes = some (slots, rest)) :
    slots.length = count ∧ bytes.length = 2 * count + rest.length := by
  induction count generalizing bytes slots with
  | zero =>
    cases h
    exact ⟨rfl, by omega⟩
  | succ count ih =>
    match bytes with
    | low :: high :: bytes =>
      rw [readSlots, Option.map_eq_some_iff] at h
      obtain ⟨⟨slots', rest'⟩, hread, heq⟩ := h
      cases heq
      obtain ⟨hslots, hbytes⟩ := ih hread
      exact ⟨congrArg (· + 1) hslots, by simp only [List.length_cons]; omega⟩
    | [] | [_] => cases h

variable {bytes : List UInt8} {image other : RecordImage}

/-- A record is as long as its header, its codes and what follows them. -/
theorem length_of_read (h : read bytes = some image) :
    bytes.length = UnwindRecord.headerSize + 2 * (image.codes.map (·.slots.length)).sum + image.trailer.length := by
  match bytes with
  | first :: prologSize :: slotCount :: frame :: bytes =>
    rw [read] at h
    obtain ⟨⟨slots, trailer⟩, hslots, h⟩ := Option.bind_eq_some_iff.1 h
    obtain ⟨codes, hcodes, h⟩ := Option.bind_eq_some_iff.1 h
    cases h
    obtain ⟨hcount, hbytes⟩ := length_of_readSlots hslots
    have hlength := UnwindCode.length_of_readAll hcodes
    simp only [List.length_cons, UnwindRecord.headerSize]
    omega
  | [] | [_] | [_, _] | [_, _, _] => cases h

/-- No form takes fewer slots than the one that is chosen for the operation it describes. -/
theorem slotCount_operation_le (image : RecordImage) (code : UnwindCode) :
    (image.operation code.form).slotCount ≤ code.slots.length := by
  obtain ⟨offset, form⟩ := code
  cases form with
  | pushNonvol reg | setFrame => exact Nat.le_refl _
  | allocSmall units =>
    have hunits := units.isLt
    have hsmall : UInt32.ofNat (8 * (units.val + 1)) ≤ 128 := by
      rw [UInt32.ofNat_le_iff (by simp only [UInt32.size]; omega)]
      simp only [UInt32.reduceToNat]
      omega
    simp only [operation, PrologOp.slotCount, hsmall, if_true]
    exact Nat.le_refl _
  | allocScaled units =>
    have hunits := units.toNat_lt
    have hscaled : UInt32.ofNat (8 * units.toNat) ≤ PrologOp.largestScaledAlloc := by
      rw [UInt32.ofNat_le_iff (by simp only [UInt32.size]; omega)]
      simp only [PrologOp.largestScaledAlloc, UInt32.reduceToNat]
      omega
    simp only [operation, PrologOp.slotCount, hscaled, if_true]
    split
    · exact Nat.le_succ _
    · exact Nat.le_refl _
  | saveScaled reg units =>
    have hgp : (Register.gp (.ofNat reg.val)).isXmm = false := rfl
    have hfits := @PrologOp.fitsScaled_units 8 (by decide) (by decide) units
    simp only [operation, PrologOp.slotCount, hgp, Bool.false_eq_true, if_false, hfits, if_true]
    exact Nat.le_refl _
  | saveXmmScaled reg units =>
    have hxmm : (Register.xmm (.ofNat reg.val)).isXmm = true := rfl
    have hfits := @PrologOp.fitsScaled_units 16 (by decide) (by decide) units
    simp only [operation, PrologOp.slotCount, hxmm, if_true, hfits]
    exact Nat.le_refl _
  | allocWide value | saveWide reg value | saveXmmWide reg value =>
    exact PrologOp.slotCount_le_three _

/-- A record says what another one says, be it in other forms of the unwind codes. -/
structure Restates (other image : RecordImage) : Prop where
  version : other.version = image.version
  flags : other.flags = image.flags
  prologSize : other.prologSize = image.prologSize
  frameRegister : other.frameRegister = image.frameRegister
  frameOffset : other.frameOffset = image.frameOffset
  steps : other.steps = image.steps

/-- The codes of a record take at least the slots of the operations they describe. -/
theorem sum_slotCount_le (image : RecordImage) :
    (image.steps.map fun step => step.2.slotCount).sum ≤ (image.codes.map (·.slots.length)).sum := by
  rw [steps, List.map_map]
  exact List.sum_le_sum fun code _ => image.slotCount_operation_le code

/-- A record that says what another one says is not shorter than the operations require. -/
theorem Restates.le_length (h : other.Restates image) (hread : read bytes = some other) :
    UnwindRecord.headerSize + 2 * (image.steps.map fun step => step.2.slotCount).sum ≤ bytes.length := by
  have hlength := length_of_read hread
  have hle := other.sum_slotCount_le
  rw [h.steps] at hle
  omega

end RecordImage

namespace UnwindRecord

/-- Records are as short as the format allows. Among the byte sequences, padded to an even number of slots, that say
    what the record of a prolog says, the record is the shortest, and its codes take as few slots as any forms of the
    operations. -/
theorem isLeast_length_bytes {ops : List PrologOp} {record : UnwindRecord} (h : ofOps ops = .ok record) :
    ∃ image, RecordImage.read record.bytes = some image ∧ image.steps.map Prod.snd = ops.reverse ∧
      IsLeast {length | ∃ bytes other, RecordImage.read bytes = some other ∧ other.Restates image ∧
        4 ∣ bytes.length ∧ bytes.length = length} record.bytes.length ∧
      ∀ op ∈ ops, IsLeast {slots | ∃ code : UnwindCode, image.operation code.form = op ∧ code.slots.length = slots}
        op.slotCount := by
  obtain ⟨is, his, rfl⟩ := ofOps_eq_ok_iff.1 h
  have hsteps : (recordOf ops is).image.steps.map Prod.snd = ops.reverse := by
    rw [← List.reverse_inj, ← List.map_reverse, his.reverse_steps, List.reverse_reverse,
      List.map_snd_zip (by simp [his.length_eq])]
  have hslots : ((recordOf ops is).image.steps.map fun step => step.2.slotCount).sum = slotCount ops := by
    have hmap := congrArg (fun ops => (ops.map PrologOp.slotCount).sum) hsteps
    rw [List.map_map, List.map_reverse, List.sum_reverse, ← slotCount_eq_sum] at hmap
    exact hmap
  have hlength := his.length_bytes
  refine ⟨_, his.read_bytes, hsteps, ⟨⟨_, _, his.read_bytes, ⟨rfl, rfl, rfl, rfl, rfl, rfl⟩, ?_, rfl⟩, ?_⟩,
    fun op hop => ⟨⟨⟨0, op.form⟩, his.operation_form hop, PrologOp.length_slots_form 0 op⟩, ?_⟩⟩
  · rw [hlength, encodedSize, headerSize]
    omega
  · rintro _ ⟨bytes, other, hread, hrestates, hpadded, rfl⟩
    have hle := hrestates.le_length hread
    rw [hslots] at hle
    rw [hlength, encodedSize]
    simp only [headerSize] at hle ⊢
    omega
  · rintro _ ⟨code, rfl, rfl⟩
    exact RecordImage.slotCount_operation_le _ code

theorem isLeast_length_bytes_saved :
    let ops := [.push .rbp, .alloc 136, .save (.xmm 6) 32, .setFrame .rbp 16]
    ∃ record image, ofOps ops = .ok record ∧ RecordImage.read record.bytes = some image ∧ record.bytes.length = 16 ∧
      (∀ bytes other, RecordImage.read bytes = some other → other.Restates image → 4 ∣ bytes.length →
        16 ≤ bytes.length) ∧
      ∀ code : UnwindCode, image.operation code.form = .alloc 136 → 2 ≤ code.slots.length := by
  intro ops
  obtain ⟨record, hrecord⟩ : ∃ record, ofOps ops = .ok record := ⟨_, by rfl⟩
  obtain ⟨image, hread, -, ⟨-, hleast⟩, hforms⟩ := isLeast_length_bytes hrecord
  have hlength : record.bytes.length = 16 := by
    cases hrecord
    rfl
  refine ⟨record, image, hrecord, hread, hlength, fun bytes other hother hrestates hpadded => ?_, fun code hcode => ?_⟩
  · rw [← hlength]
    exact hleast ⟨bytes, other, hother, hrestates, hpadded, rfl⟩
  · exact (hforms (.alloc 136) (by simp [ops])).2 ⟨code, hcode, rfl⟩

end UnwindRecord

end StackUnwind
