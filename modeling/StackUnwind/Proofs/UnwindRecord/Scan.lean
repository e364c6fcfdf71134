import Mathlib.Data.List.Induction
import StackUnwind.Proofs.Instruction.Size

namespace StackUnwind

namespace Instruction

/-- The number of bytes of instructions laid one after another. -/
def totalLength (is : List Instruction) : Nat := (is.map fun i => i.bytes.length).sum

/-- The offsets just after each of the instructions, of which the first begins at `start`. -/
def ends (start : Nat) : List Instruction → List Nat
  | [] => []
  | i :: is => (start + i.bytes.length) :: ends (start + i.bytes.length) is

@[simp] theorem totalLength_nil : totalLength [] = 0 := rfl

@[simp] theorem totalLength_cons (i : Instruction) (is : List Instruction) :
    totalLength (i :: is) = i.bytes.length + totalLength is := rfl

@[simp] private theorem totalLength_append (is js : List Instruction) :
    totalLength (is ++ js) = totalLength is + totalLength js := by
  simp [totalLength]

@[simp] theorem length_ends (start : Nat) (is : List Instruction) : (ends start is).length = is.length := by
  induction is generalizing start with
  | nil => rfl
  | cons i is ih => simp [ends, ih]

private theorem ends_append (start : Nat) (is js : List Instruction) :
    ends start (is ++ js) = ends start is ++ ends (start + totalLength is) js := by
  induction is generalizing start with
  | nil => rfl
  | cons i is ih => simp [ends, ih, Nat.add_assoc]

/-- Fewer instructions are no longer. -/
theorem totalLength_take_le (is : List Instruction) (count : Nat) :
    totalLength (is.take count) ≤ totalLength is := by
  conv_rhs => rw [← List.take_append_drop count is, totalLength_append]
  exact Nat.le_add_right _ _

/-- An instruction ends where the ones up to and including it are complete. -/
theorem getElem_ends {start index : Nat} {is : List Instruction} (h : index < (ends start is).length) :
    (ends start is)[index] = start + totalLength (is.take (index + 1)) := by
  induction is generalizing start index with
  | nil => simp [ends] at h
  | cons i is ih =>
    cases index with
    | zero => simp [ends]
    | succ index =>
      simp only [ends, List.getElem_cons_succ, List.take_succ_cons, totalLength_cons]
      rw [ih, Nat.add_assoc]

/-- An instruction ends where the next one begins. -/
theorem mem_ends_iff {start offset : Nat} {is : List Instruction} :
    offset ∈ ends start is ↔ ∃ count < is.length, offset = start + totalLength (is.take (count + 1)) := by
  simp only [List.mem_iff_getElem, getElem_ends, length_ends, exists_prop, eq_comm]

end Instruction

namespace PrologOp

/-- The frame register that an operation establishes, with its distance from the stack pointer. -/
def frame? : PrologOp → Option (Register × UInt32)
  | setFrame reg offset => some (reg, offset)
  | push _ | alloc _ | save _ _ => none

/-- An operation has as many slots as are counted for it. -/
theorem length_slots_form (offset : UInt8) (op : PrologOp) :
    (⟨offset, op.form⟩ : UnwindCode).slots.length = op.slotCount := by
  cases op with
  | push reg | setFrame reg distance => rfl
  | alloc size =>
    simp only [UnwindCode.slots, form, slotCount]
    split
    · rfl
    · split <;> rfl
  | save reg distance =>
    simp only [UnwindCode.slots, form, slotCount]
    cases reg.isXmm with
    | false => cases h : fitsScaled 8 distance <;> simp [h, CodeForm.operand, CodeForm.halves]
    | true => cases h : fitsScaled 16 distance <;> simp [h, CodeForm.operand, CodeForm.halves]

end PrologOp

namespace UnwindRecord

/-- A prolog that a record can describe, with the instructions that perform its operations. -/
structure Expressible (ops : List PrologOp) (is : List Instruction) : Prop where
  performed : List.Forall₂ PrologOp.PerformedBy ops is
  short : Instruction.totalLength is ≤ 255
  frame_once : (ops.filterMap PrologOp.frame?).length ≤ 1
  frame_offset : ∀ reg offset, .setFrame reg offset ∈ ops → 16 ∣ offset.toNat ∧ offset.toNat ≤ 240
  alloc_size : ∀ size, .alloc size ∈ ops → 0 < size.toNat ∧ 8 ∣ size.toNat

/-- The unwind codes of a prolog in the order of its operations. -/
def codesOf (ops : List PrologOp) (is : List Instruction) : List UnwindCode :=
  List.zipWith (fun op stop => ⟨.ofNat stop, op.form⟩) ops (Instruction.ends 0 is)

/-- What a scan of a whole prolog has found. -/
def scanOf (ops : List PrologOp) (is : List Instruction) : Scan where
  size := .ofNat (Instruction.totalLength is)
  frame := (ops.filterMap PrologOp.frame?).head?
  codes := (codesOf ops is).reverse

namespace Scan

/-- Whether a scan may go on with an operation, as far as its unwind code is concerned. -/
structure Admits (s : Scan) (op : PrologOp) : Prop where
  alloc_size : ∀ size, op = .alloc size → 0 < size.toNat ∧ 8 ∣ size.toNat
  frame_once : op.frame?.isSome → s.frame = none
  frame_offset : ∀ reg offset, op = .setFrame reg offset → 16 ∣ offset.toNat ∧ offset.toNat ≤ 240

private theorem frameAfter_eq_ok_iff {s : Scan} {op : PrologOp} {frame : Option (Register × UInt32)} :
    s.frameAfter op = .ok frame ↔ s.Admits op ∧ frame = op.frame?.or s.frame := by
  cases op with
  | push reg | save reg offset =>
    simp only [frameAfter, Except.ok.injEq, PrologOp.frame?, Option.none_or, eq_comm, iff_and_self]
    rintro rfl
    exact ⟨by simp, by simp [PrologOp.frame?], by simp⟩
  | alloc size =>
    have hzero : size = 0 ↔ size.toNat = 0 := by simp [← UInt32.toNat_inj]
    have hmod : size % 8 = 0 ↔ 8 ∣ size.toNat := by
      simp [← UInt32.toNat_inj, Nat.dvd_iff_mod_eq_zero]
    simp only [frameAfter, PrologOp.frame?, Option.none_or]
    split
    next h =>
      simp only [reduceCtorEq, false_iff, not_and]
      intro hadmits
      obtain ⟨hpos, hdvd⟩ := hadmits.alloc_size size rfl
      rcases h with h | h
      · have := hzero.1 h
        omega
      · exact absurd (hmod.2 hdvd) h
    next h =>
      simp only [not_or, not_not, hzero, hmod] at h
      simp only [Except.ok.injEq, eq_comm, iff_and_self]
      rintro -
      refine ⟨?_, by simp [PrologOp.frame?], by simp⟩
      rintro _ ⟨⟩
      omega
  | setFrame reg offset =>
    have hmod : offset % 16 = 0 ↔ 16 ∣ offset.toNat := by
      simp [← UInt32.toNat_inj, Nat.dvd_iff_mod_eq_zero]
    have hle : maxFrameOffset < offset ↔ 240 < offset.toNat := by
      simp [maxFrameOffset, UInt32.lt_iff_toNat_lt]
    simp only [frameAfter, PrologOp.frame?, Option.some_or]
    split
    next h =>
      simp only [reduceCtorEq, false_iff, not_and]
      intro hadmits
      simp [hadmits.frame_once rfl] at h
    next hnone =>
      split
      next h =>
        simp only [reduceCtorEq, false_iff, not_and]
        intro hadmits
        obtain ⟨hdvd, hbound⟩ := hadmits.frame_offset reg offset rfl
        rcases h with h | h
        · exact absurd (hmod.2 hdvd) h
        · have := hle.1 h
          omega
      next h =>
        simp only [not_or, not_not, hmod, hle] at h
        simp only [Except.ok.injEq, eq_comm, iff_and_self]
        rintro -
        refine ⟨by simp, fun _ => by simpa using hnone, ?_⟩
        rintro _ _ ⟨⟩
        omega

/-- One turn of a scan: it goes on exactly when the operation has an instruction, the prolog stays
    short and the operation has an unwind code. The slots always agree with their announced
    number. -/
theorem step_eq_ok_iff {s t : Scan} {op : PrologOp} :
    s.step op = .ok t ↔ ∃ i, op.PerformedBy i ∧ s.size.toNat + i.bytes.length ≤ 255 ∧ s.Admits op ∧
      t = ⟨.ofNat (s.size.toNat + i.bytes.length), op.frame?.or s.frame,
        ⟨.ofNat (s.size.toNat + i.bytes.length), op.form⟩ :: s.codes⟩ := by
  simp only [step, PrologOp.instructionLength_eq_ok_iff, bind_eq_ok_iff, check_eq_ok_iff, liftM_error_eq_ok_iff,
    liftM_fault_eq_ok_iff, pure_eq_ok_iff, frameAfter_eq_ok_iff, word32_eq_ok_iff, PrologOp.length_slots_form, ne_eq,
    not_true, not_false_eq_true, true_and]
  constructor
  · rintro ⟨_, ⟨i, hi, rfl⟩, size, hsize, hshort, frame, ⟨hadmits, rfl⟩, rfl⟩
    have hle : size.toNat ≤ 255 := by simpa [UInt32.lt_iff_toNat_lt] using hshort
    refine ⟨i, hi, by omega, hadmits, ?_⟩
    simp [hsize]
  · rintro ⟨i, hi, hle, hadmits, rfl⟩
    have hword : (UInt32.ofNat (s.size.toNat + i.bytes.length)).toNat = s.size.toNat + i.bytes.length :=
      UInt32.toNat_ofNat_of_lt' (Nat.lt_of_le_of_lt hle (by decide))
    refine ⟨_, ⟨i, hi, rfl⟩, _, hword.symm, ?_, _, ⟨hadmits, rfl⟩, ?_⟩
    · rw [UInt32.lt_iff_toNat_lt, hword]
      exact Nat.not_lt.2 hle
    · rw [hword]

end Scan

/-- Each operation has one instruction. -/
theorem Expressible.length_eq {ops : List PrologOp} {is : List Instruction} (h : Expressible ops is) :
    ops.length = is.length :=
  h.performed.length_eq

/-- The scan finds the length of the instructions, which fits its byte. -/
theorem toNat_size_scanOf {ops : List PrologOp} {is : List Instruction} (h : Expressible ops is) :
    (scanOf ops is).size.toNat = Instruction.totalLength is :=
  UInt32.toNat_ofNat_of_lt' (Nat.lt_of_le_of_lt h.short (by decide))

private theorem expressible_nil : Expressible [] [] :=
  ⟨.nil, by simp, by simp, by simp, by simp⟩

private theorem expressible_concat_iff {ops : List PrologOp} {op : PrologOp} {is' : List Instruction} :
    Expressible (ops ++ [op]) is' ↔ ∃ is i, is' = is ++ [i] ∧ Expressible ops is ∧ op.PerformedBy i ∧
      Instruction.totalLength is + i.bytes.length ≤ 255 ∧ (scanOf ops is).Admits op := by
  have hsingle : ([op].filterMap PrologOp.frame?).length = if op.frame?.isSome then 1 else 0 := by
    cases h : op.frame? <;> simp [h]
  constructor
  · rintro ⟨hperformed, hshort, honce, hoffset, hsize⟩
    obtain ⟨is, i, rfl, his, hi⟩ := forall₂_concat_left_iff.1 hperformed
    simp only [Instruction.totalLength_append, Instruction.totalLength_cons, Instruction.totalLength_nil,
      Nat.add_zero] at hshort
    rw [List.filterMap_append, List.length_append, hsingle] at honce
    refine ⟨is, i, rfl, ⟨his, by omega, by omega, ?_, ?_⟩, hi, hshort, ?_, ?_, ?_⟩
    · exact fun reg offset h => hoffset reg offset (List.mem_append_left _ h)
    · exact fun size h => hsize size (List.mem_append_left _ h)
    · rintro size rfl
      exact hsize size (by simp)
    · intro hframe
      rw [if_pos hframe] at honce
      have hnil : ops.filterMap PrologOp.frame? = [] := List.eq_nil_of_length_eq_zero (by omega)
      simp [scanOf, hnil]
    · rintro reg offset rfl
      exact hoffset reg offset (by simp)
  · rintro ⟨is, i, rfl, ⟨his, hshort, honce, hoffset, hsize⟩, hi, hle, hadmits⟩
    refine ⟨forall₂_concat_left_iff.2 ⟨is, i, rfl, his, hi⟩, by simpa using hle, ?_, ?_, ?_⟩
    · rw [List.filterMap_append, List.length_append, hsingle]
      split
      next hframe =>
        have hnone := hadmits.frame_once hframe
        simp only [scanOf, List.head?_eq_none_iff] at hnone
        simp [hnone]
      next => omega
    · intro reg offset h
      rcases List.mem_append.1 h with h | h
      · exact hoffset reg offset h
      · exact hadmits.frame_offset reg offset (List.mem_singleton.1 h).symm
    · intro size h
      rcases List.mem_append.1 h with h | h
      · exact hsize size h
      · exact hadmits.alloc_size size (List.mem_singleton.1 h).symm

private theorem codesOf_concat {ops : List PrologOp} {is : List Instruction} (h : ops.length = is.length)
    (op : PrologOp) (i : Instruction) :
    codesOf (ops ++ [op]) (is ++ [i]) =
      codesOf ops is ++ [⟨.ofNat (Instruction.totalLength is + i.bytes.length), op.form⟩] := by
  simp only [codesOf, Instruction.ends_append]
  rw [List.zipWith_append (by simpa using h)]
  simp [Instruction.ends]

private theorem scanOf_concat {ops : List PrologOp} {is : List Instruction} {op : PrologOp}
    (h : ops.length = is.length) (hadmits : (scanOf ops is).Admits op) (i : Instruction) :
    scanOf (ops ++ [op]) (is ++ [i]) =
      ⟨.ofNat (Instruction.totalLength is + i.bytes.length), op.frame?.or (scanOf ops is).frame,
        ⟨.ofNat (Instruction.totalLength is + i.bytes.length), op.form⟩ :: (scanOf ops is).codes⟩ := by
  have hframe : ((ops ++ [op]).filterMap PrologOp.frame?).head? = op.frame?.or (scanOf ops is).frame := by
    rw [List.filterMap_append, List.head?_append]
    cases hop : op.frame? with
    | none => simp [hop, scanOf]
    | some frame =>
      have hnone := hadmits.frame_once (by simp [hop])
      simp only [scanOf] at hnone
      simp [hop, hnone]
  simp only [scanOf, codesOf_concat h, List.reverse_append, hframe]
  simp

/-- A scan reads a whole prolog exactly when the prolog can be described, and then finds what
    `scanOf` says. -/
theorem foldlM_step_eq_ok_iff {ops : List PrologOp} {s : Scan} :
    ops.foldlM Scan.step {} = .ok s ↔ ∃ is, Expressible ops is ∧ s = scanOf ops is := by
  -- A scan conses each code to those before it, so the last operation is the one that is split off.
  induction ops using List.reverseRecOn generalizing s with
  | nil =>
    simp only [List.foldlM_nil, pure_eq_ok_iff]
    constructor
    · rintro rfl
      exact ⟨[], expressible_nil, rfl⟩
    · rintro ⟨is, his, rfl⟩
      cases his.performed
      rfl
  | append_singleton ops op ih =>
    simp only [List.foldlM_append, List.foldlM_cons, List.foldlM_nil, bind_eq_ok_iff, pure_eq_ok_iff, ih,
      Scan.step_eq_ok_iff, expressible_concat_iff]
    constructor
    · rintro ⟨_, ⟨is, his, rfl⟩, _, ⟨i, hi, hle, hadmits, rfl⟩, rfl⟩
      rw [toNat_size_scanOf his] at hle ⊢
      exact ⟨is ++ [i], ⟨is, i, rfl, his, hi, hle, hadmits⟩, (scanOf_concat his.length_eq hadmits i).symm⟩
    · rintro ⟨_, ⟨is, i, rfl, his, hi, hle, hadmits⟩, rfl⟩
      refine ⟨_, ⟨is, his, rfl⟩, _, ⟨i, hi, ?_, hadmits, rfl⟩, ?_⟩
      · rwa [toNat_size_scanOf his]
      · rw [toNat_size_scanOf his]
        exact scanOf_concat his.length_eq hadmits i

/-- The header's account of a frame register: its number, and its distance in units of sixteen
    bytes. -/
def headerFrame : Option (Register × UInt32) → Nibble × Nibble
  | some (reg, offset) => (nibble reg.id.toNat, nibble (offset.toNat / 16))
  | none => (0, 0)

/-- The record of a prolog. -/
def recordOf (ops : List PrologOp) (is : List Instruction) : UnwindRecord where
  prologSize := .ofNat (Instruction.totalLength is)
  frameRegister := (headerFrame (ops.filterMap PrologOp.frame?).head?).1
  frameOffset := (headerFrame (ops.filterMap PrologOp.frame?).head?).2
  codes := (codesOf ops is).reverse

/-- The slots of operations are counted one by one. -/
theorem slotCount_eq_sum (ops : List PrologOp) : slotCount ops = (ops.map PrologOp.slotCount).sum := by
  rw [slotCount, List.sum, List.foldr_map]

/-- A record has as many slots as are counted for its operations. -/
theorem length_slots_recordOf {ops : List PrologOp} {is : List Instruction} (h : Expressible ops is) :
    (recordOf ops is).slots.length = slotCount ops := by
  have hlengths : (codesOf ops is).map (fun code => code.slots.length) = ops.map PrologOp.slotCount := by
    simp only [codesOf, List.map_zipWith, PrologOp.length_slots_form]
    rw [← List.map_uncurry_zip_eq_zipWith]
    have hle : ops.length ≤ (Instruction.ends 0 is).length := by simp [h.length_eq]
    conv_rhs => rw [← List.map_fst_zip hle, List.map_map]
    rfl
  rw [slots, List.length_flatMap, recordOf, List.map_reverse, List.sum_reverse, hlengths, slotCount_eq_sum]

/-- No instruction is empty. -/
theorem length_le_totalLength {ops : List PrologOp} {is : List Instruction}
    (h : List.Forall₂ PrologOp.PerformedBy ops is) : ops.length ≤ Instruction.totalLength is := by
  induction h with
  | nil => simp
  | @cons op i ops is _ _ ih =>
    have hlength := (Instruction.length_bytes_bounds i).1
    rw [List.length_cons, Instruction.totalLength_cons]
    omega

/-- No operation has more slots than bytes. -/
theorem slotCount_le_totalLength {ops : List PrologOp} {is : List Instruction}
    (h : List.Forall₂ PrologOp.PerformedBy ops is) : slotCount ops ≤ Instruction.totalLength is := by
  induction h with
  | nil => simp [slotCount]
  | cons hop _ ih =>
    have hle := hop.slotCount_le_length
    simp only [slotCount_eq_sum, List.map_cons, List.sum_cons, Instruction.totalLength_cons] at ih ⊢
    omega

/-- The prologs that have a record, and their records. -/
theorem ofOps_eq_ok_iff {ops : List PrologOp} {record : UnwindRecord} :
    ofOps ops = .ok record ↔ ∃ is, Expressible ops is ∧ record = recordOf ops is := by
  have hrecord (is : List Instruction) (his : Expressible ops is) :
      ({ prologSize := .ofNat (scanOf ops is).size.toNat,
         frameRegister := (headerFrame (scanOf ops is).frame).1,
         frameOffset := (headerFrame (scanOf ops is).frame).2,
         codes := (scanOf ops is).codes } : UnwindRecord) = recordOf ops is := by
    rw [toNat_size_scanOf his]
    rfl
  have hslots (is : List Instruction) (his : Expressible ops is) :
      ¬ 255 < (recordOf ops is).slots.length := by
    have hle := slotCount_le_totalLength his.performed
    have hshort := his.short
    rw [length_slots_recordOf his]
    omega
  unfold ofOps
  simp only [bind_eq_ok_iff, foldlM_step_eq_ok_iff, check_eq_ok_iff, pure_eq_ok_iff]
  constructor
  · rintro ⟨_, ⟨is, his, rfl⟩, -, rfl⟩
    exact ⟨is, his, hrecord is his⟩
  · rintro ⟨is, his, rfl⟩
    refine ⟨_, ⟨is, his, rfl⟩, ?_, (hrecord is his).symm⟩
    have hshort := hslots is his
    rwa [← hrecord is his] at hshort

/-- A prolog that cannot be scanned any further is an error of the prolog, not a broken contract. -/
theorem Scan.step_ne_fault {s : Scan} {op : PrologOp} (hshort : s.size.toNat ≤ 255) (fault : Fault) :
    s.step op ≠ .error (.fault fault) := by
  intro hfault
  simp only [step, bind_eq_error_iff, liftM_error_eq_fault_iff, liftM_error_eq_ok_iff, false_or,
    liftM_fault_eq_fault_iff, word32_eq_error_iff, check_error_eq_fault_iff, PrologOp.length_slots_form,
    ne_eq, not_true, if_false, pure_eq_error_iff, and_false, exists_false, or_false] at hfault
  obtain ⟨length, hlength, hlong, -⟩ := hfault
  obtain ⟨i, -, rfl⟩ := PrologOp.instructionLength_eq_ok_iff.1 hlength
  have hle := (Instruction.length_bytes_bounds i).2
  omega

private theorem foldlM_step_ne_fault {ops : List PrologOp} {s : Scan} (hshort : s.size.toNat ≤ 255) (fault : Fault) :
    ops.foldlM Scan.step s ≠ .error (.fault fault) := by
  induction ops generalizing s with
  | nil => exact fun hfault => nomatch hfault
  | cons op ops ih =>
    intro hfault
    rw [List.foldlM_cons, bind_eq_error_iff] at hfault
    obtain hfault | ⟨t, hstep, hfault⟩ := hfault
    · exact Scan.step_ne_fault hshort fault hfault
    · obtain ⟨i, -, hle, -, rfl⟩ := Scan.step_eq_ok_iff.1 hstep
      refine ih ?_ hfault
      rwa [UInt32.toNat_ofNat_of_lt' (Nat.lt_of_le_of_lt hle (by decide))]

/-- A record is made or refused, and no contract is broken. -/
theorem ofOps_ne_fault (ops : List PrologOp) (fault : Fault) : ofOps ops ≠ .error (.fault fault) := by
  unfold ofOps
  intro hfault
  simp only [bind_eq_error_iff, check_error_eq_fault_iff, pure_eq_error_iff, and_false, exists_false, or_false] at hfault
  exact foldlM_step_ne_fault (Nat.zero_le _) fault hfault

end UnwindRecord

end StackUnwind
