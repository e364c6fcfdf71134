import StackUnwind.Proofs.UnwindRecord.Image

namespace StackUnwind

namespace Register

/-- The handle of a register is its number in a nibble. -/
theorem nibble_id_of_numberIn? {r : Register} {bank : UInt8} {n : RegNumber} (h : r.numberIn? bank = some n) :
    nibble r.id.toNat = n := by
  rw [numberIn?_eq_some_iff.1 h, toNat_ofNat_number, nibble, Fin.ext_iff, Fin.val_ofNat]
  exact Nat.mod_eq_of_lt n.isLt

end Register

namespace PrologOp

/-- An offset that is counted in units can be computed from its count. -/
theorem scale_mul_units {scale : Nat} {offset : UInt32} (h : fitsScaled scale offset = true) :
    UInt32.ofNat (scale * (UInt16.ofNat (offset.toNat / scale)).toNat) = offset := by
  simp only [fitsScaled, Bool.and_eq_true, beq_iff_eq, decide_eq_true_eq] at h
  have hunits : (UInt16.ofNat (offset.toNat / scale)).toNat = offset.toNat / scale :=
    UInt16.toNat_ofNat_of_lt' (Nat.lt_of_le_of_lt h.2 (by decide))
  rw [hunits, Nat.mul_div_cancel' (Nat.dvd_of_mod_eq_zero h.1), UInt32.ofNat_toNat]

private theorem operation_form_alloc {size : UInt32} (image : RecordImage) (hpos : 0 < size.toNat)
    (hdvd : 8 ∣ size.toNat) :
    image.operation (alloc size).form = alloc size := by
  have hsmall : size ≤ 128 ↔ size.toNat ≤ 128 := by simp [UInt32.le_iff_toNat_le]
  have hscaled : size ≤ largestScaledAlloc ↔ size.toNat ≤ 0x7FFF8 := by
    simp [largestScaledAlloc, UInt32.le_iff_toNat_le]
  simp only [form]
  split
  next h =>
    have hle := hsmall.1 h
    have hunits : (nibble (size.toNat / 8 - 1)).val = size.toNat / 8 - 1 := by
      rw [nibble, Fin.val_ofNat]
      omega
    rw [RecordImage.operation, hunits, show 8 * (size.toNat / 8 - 1 + 1) = size.toNat by omega, UInt32.ofNat_toNat]
  next =>
    split
    next h =>
      have hle := hscaled.1 h
      have hfits : fitsScaled 8 size = true := by
        simp only [fitsScaled, Bool.and_eq_true, beq_iff_eq, decide_eq_true_eq]
        omega
      rw [RecordImage.operation, scale_mul_units hfits]
    next => rfl

/-- A code describes the operation it was made for, where the header describes its frame register. -/
theorem operation_form {op : PrologOp} {i : Instruction} {image : RecordImage} (hop : op.PerformedBy i)
    (hsize : ∀ size, op = alloc size → 0 < size.toNat ∧ 8 ∣ size.toNat)
    (hframe : ∀ reg offset, op = setFrame reg offset → 16 ∣ offset.toNat ∧ offset.toNat ≤ 240 ∧
      (image.frameRegister, image.frameOffset) = UnwindRecord.headerFrame (some (reg, offset))) :
    image.operation op.form = op := by
  have hsetFrame {reg : Register} {n : RegNumber} {offset : UInt32} (hreg : reg.gpNumber? = some n)
      (heq : op = setFrame reg offset) : image.operation (setFrame reg offset).form = setFrame reg offset := by
    obtain ⟨hdvd, hle, hheader⟩ := hframe reg offset heq
    simp only [UnwindRecord.headerFrame, Prod.mk.injEq] at hheader
    have hunits : (nibble (offset.toNat / 16)).val = offset.toNat / 16 := by
      rw [nibble, Fin.val_ofNat]
      omega
    have hgp : .gp (.ofNat n.val) = reg := (Register.numberIn?_eq_some_iff.1 hreg).symm
    rw [form, RecordImage.operation, hheader.1, hheader.2, Register.nibble_id_of_numberIn? hreg, hunits,
      Nat.mul_div_cancel' hdvd, UInt32.ofNat_toNat, hgp]
  cases hop with
  | @push reg n hreg =>
    have hgp : .gp (.ofNat n.val) = reg := (Register.numberIn?_eq_some_iff.1 hreg).symm
    rw [form, RecordImage.operation, Register.nibble_id_of_numberIn? hreg, hgp]
  | alloc =>
    obtain ⟨hpos, hdvd⟩ := hsize _ rfl
    exact operation_form_alloc image hpos hdvd
  | mov hreg => exact hsetFrame hreg rfl
  | lea hreg => exact hsetFrame hreg rfl
  | @store reg n offset imm hreg =>
    have hgp : .gp (.ofNat n.val) = reg := (Register.numberIn?_eq_some_iff.1 hreg).symm
    rw [form, Register.isXmm_of_gpNumber? hreg, Register.nibble_id_of_numberIn? hreg]
    by_cases hfits : fitsScaled 8 offset = true
    · simp only [Bool.false_eq_true, if_false, hfits, if_true, RecordImage.operation, scale_mul_units hfits, hgp]
    · simp only [Bool.false_eq_true, if_false, hfits, RecordImage.operation, hgp]
  | @storeXmm reg n offset imm hreg =>
    have hxmm : .xmm (.ofNat n.val) = reg := (Register.numberIn?_eq_some_iff.1 hreg).symm
    rw [form, Register.isXmm_of_xmmNumber? hreg, Register.nibble_id_of_numberIn? hreg]
    by_cases hfits : fitsScaled 16 offset = true
    · simp only [if_true, hfits, RecordImage.operation, scale_mul_units hfits, hxmm]
    · simp only [if_true, if_false, hfits, RecordImage.operation, hxmm, Bool.false_eq_true]

end PrologOp

namespace UnwindRecord

namespace Expressible

variable {ops : List PrologOp} {is : List Instruction}

/-- A prolog establishes a frame register at most once, so each one it establishes is the first. -/
theorem head?_frames (h : Expressible ops is) {reg : Register} {offset : UInt32}
    (hmem : .setFrame reg offset ∈ ops) : (ops.filterMap PrologOp.frame?).head? = some (reg, offset) := by
  have hframe : (reg, offset) ∈ ops.filterMap PrologOp.frame? := List.mem_filterMap.2 ⟨_, hmem, rfl⟩
  have honce := h.frame_once
  cases hframes : ops.filterMap PrologOp.frame? with
  | nil => simp [hframes] at hframe
  | cons frame frames =>
    rw [hframes, List.length_cons] at honce
    have hnil : frames = [] := List.eq_nil_of_length_eq_zero (by omega)
    rw [hframes, hnil, List.mem_singleton] at hframe
    rw [List.head?_cons, hframe]

/-- The codes of a record describe the operations of the prolog. -/
theorem operation_form (h : Expressible ops is) {op : PrologOp} (hmem : op ∈ ops) :
    (recordOf ops is).image.operation op.form = op := by
  obtain ⟨index, hindex, rfl⟩ := List.mem_iff_getElem.1 hmem
  have hperformed := h.performed.get hindex (h.length_eq ▸ hindex)
  refine PrologOp.operation_form hperformed ?_ ?_
  · intro size hsize
    exact h.alloc_size size (hsize ▸ hmem)
  · intro reg offset hset
    have hframe := h.head?_frames (hset ▸ hmem)
    obtain ⟨hdvd, hle⟩ := h.frame_offset reg offset (hset ▸ hmem)
    refine ⟨hdvd, hle, ?_⟩
    rw [← hframe]
    rfl

/-- The steps that a record describes are the operations of the prolog, each with the end of its
    instruction. -/
theorem reverse_steps (h : Expressible ops is) :
    (recordOf ops is).image.steps.reverse = (Instruction.ends 0 is).zip ops := by
  have hcodes : (recordOf ops is).image.codes = (codesOf ops is).reverse := rfl
  rw [RecordImage.steps, hcodes, List.map_reverse, List.reverse_reverse]
  apply List.ext_getElem
  · simp [codesOf, Nat.min_comm]
  intro index hleft hright
  simp only [codesOf, List.getElem_map, List.getElem_zipWith, List.getElem_zip, h.operation_form (List.getElem_mem _),
    Prod.mk.injEq, and_true]
  rw [Instruction.getElem_ends, Nat.zero_add]
  have hle := Instruction.totalLength_take_le is (index + 1)
  have hshort := h.short
  exact UInt8.toNat_ofNat_of_lt' (by simp only [UInt8.size]; omega)

/-- The offsets of the codes are the ends of the instructions, last one first. -/
theorem offsets_codes (h : Expressible ops is) :
    (recordOf ops is).image.codes.map (·.offset.toNat) = (Instruction.ends 0 is).reverse := by
  have hsteps := congrArg (List.map Prod.fst) h.reverse_steps
  rw [List.map_fst_zip (by simp [h.length_eq]), RecordImage.steps, List.map_reverse, List.map_map] at hsteps
  rw [← hsteps, List.reverse_reverse]
  rfl

/-- The prolog of a record has the length of its instructions. -/
theorem image_recordOf_prologSize (h : Expressible ops is) :
    (recordOf ops is).image.prologSize = Instruction.totalLength is := by
  have hshort := h.short
  exact UInt8.toNat_ofNat_of_lt' (by simp only [UInt8.size]; omega)

/-- A record is read back from its bytes. -/
theorem read_bytes (h : Expressible ops is) :
    RecordImage.read (recordOf ops is).bytes = some (recordOf ops is).image := by
  have hshort := h.short
  have hslots := slotCount_le_totalLength h.performed
  exact RecordImage.read_bytes (by rw [length_slots_recordOf h]; omega)

/-- The lengths of operations are those of their instructions. -/
theorem mapM_instructionLength (h : List.Forall₂ PrologOp.PerformedBy ops is) :
    ops.mapM PrologOp.instructionLength = .ok (is.map fun i => i.bytes.length) := by
  rw [mapM_eq_ok_iff, List.forall₂_map_right_iff]
  refine h.imp ?_
  intro op i hop
  exact PrologOp.instructionLength_eq_ok_iff.2 ⟨i, hop, rfl⟩

end Expressible

private theorem length_bytes (r : UnwindRecord) :
    r.bytes.length = headerSize + 2 * (r.slots.length + r.slots.length % 2) := by
  simp only [bytes, List.length_append, List.length_cons, List.length_nil, List.length_flatMap,
    length_littleEndian, List.map_const', List.sum_replicate_nat, headerSize]
  split
  · simp only [List.length_cons, List.length_nil]
    omega
  · simp only [List.length_nil]
    omega

/-- A record has the size that was announced. -/
theorem Expressible.length_bytes {ops : List PrologOp} {is : List Instruction} (h : Expressible ops is) :
    (recordOf ops is).bytes.length = encodedSize ops := by
  rw [UnwindRecord.length_bytes, length_slots_recordOf h, encodedSize]

/-- Reading undoes writing. The bytes of a record give back the operations of the prolog in order, each
    with the end of its instruction, and nothing but the padding is left over. So different prologs
    have different records. -/
theorem read_bytes_of_ofOps {ops : List PrologOp} {record : UnwindRecord} (h : ofOps ops = .ok record) :
    ∃ image lengths, RecordImage.read record.bytes = some image ∧
      ops.mapM PrologOp.instructionLength = .ok lengths ∧
      image.version = 1 ∧ image.flags = 0 ∧ image.prologSize = lengths.sum ∧
      image.steps.reverse = (ops.mapIdx fun index op => ((lengths.take (index + 1)).sum, op)) ∧
      image.slotCount = slotCount ops ∧ record.bytes.length = encodedSize ops ∧
      image.trailer = (if slotCount ops % 2 = 1 then [0, 0] else []) ∧
      ∀ ops' record', ofOps ops' = .ok record' → record'.bytes = record.bytes → ops' = ops := by
  obtain ⟨is, his, rfl⟩ := ofOps_eq_ok_iff.1 h
  have hslots := length_slots_recordOf his
  refine ⟨_, _, his.read_bytes, Expressible.mapM_instructionLength his.performed, rfl, rfl,
    his.image_recordOf_prologSize, ?_, hslots, his.length_bytes, ?_, ?_⟩
  · rw [his.reverse_steps]
    apply List.ext_getElem
    · simp [his.length_eq]
    intro index hleft hright
    simp only [List.getElem_zip, List.getElem_mapIdx, Instruction.getElem_ends, Nat.zero_add, Instruction.totalLength,
      List.map_take]
  · rw [← hslots]
    rfl
  · intro ops' record' h' hbytes
    obtain ⟨is', his', rfl⟩ := ofOps_eq_ok_iff.1 h'
    have hread := his'.read_bytes
    rw [hbytes, his.read_bytes, Option.some_inj] at hread
    have hsteps := his'.reverse_steps
    rw [← hread, his.reverse_steps] at hsteps
    have hops := congrArg (List.map Prod.snd) hsteps
    rw [List.map_snd_zip (by simp [his.length_eq]), List.map_snd_zip (by simp [his'.length_eq])] at hops
    exact hops.symm

theorem read_bytes_of_ofOps_frame :
    let ops := [.push .rbp, .alloc 1048608, .save (.xmm 6) 32, .save (.xmm 15) 1048584, .setFrame .rbp 16]
    ∃ record image, ofOps ops = .ok record ∧ RecordImage.read record.bytes = some image ∧
      image.steps.reverse = [(1, .push .rbp), (8, .alloc 1048608), (13, .save (.xmm 6) 32),
        (22, .save (.xmm 15) 1048584), (27, .setFrame .rbp 16)] ∧ image.trailer = [] := by
  intro ops
  obtain ⟨record, hrecord⟩ : ∃ record, ofOps ops = .ok record := ⟨_, by rfl⟩
  obtain ⟨image, lengths, hread, hlengths, -, -, -, hsteps, -, -, htrailer, -⟩ := read_bytes_of_ofOps hrecord
  have hlist : ops.mapM PrologOp.instructionLength = .ok [1, 7, 5, 9, 5] := by rfl
  have hslots : slotCount ops = 10 := by decide
  rw [hlist, Except.ok.injEq] at hlengths
  subst lengths
  rw [hslots] at htrailer
  exact ⟨record, image, hrecord, hread, hsteps, htrailer⟩

end UnwindRecord

end StackUnwind
