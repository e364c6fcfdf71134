import StackUnwind.Proofs.UnwindRecord.Scan

namespace StackUnwind

/-- The number whose bytes, least significant first, are given. -/
def ofLittleEndian : List UInt8 → Nat
  | [] => 0
  | b :: bs => b.toNat + 256 * ofLittleEndian bs

/-- A number that fits its bytes is read back from them. -/
theorem ofLittleEndian_littleEndian (width n : Nat) :
    ofLittleEndian (littleEndian width n) = n % 256 ^ width := by
  induction width generalizing n with
  | zero => simp [littleEndian, ofLittleEndian, Nat.mod_one]
  | succ width ih =>
    rw [littleEndian, ofLittleEndian, ih, Nat.pow_succ, Nat.mul_comm _ 256, Nat.mod_mul]
    simp

/-- The double word whose halves are in two slots, low half first. -/
def joinHalves (low high : UInt16) : UInt32 := .ofNat (low.toNat + 65536 * high.toNat)

namespace CodeForm

private theorem joinHalves_halves (value : UInt32) :
    joinHalves (.ofNat value.toNat) (.ofNat (value.toNat / 2 ^ 16)) = value := by
  have hlt := value.toNat_lt
  rw [← UInt32.toNat_inj, joinHalves, UInt32.toNat_ofNat']
  simp only [UInt16.toNat_ofNat']
  omega

end CodeForm

namespace UnwindCode

/-- The codes that slots hold, provided the slots are whole codes of operations that are known. -/
def readAll : List UInt16 → Option (List UnwindCode)
  | [] => some []
  | head :: slots =>
    let code (form : CodeForm) : UnwindCode := ⟨.ofNat (head.toNat % 256), form⟩
    let info := nibble (head.toNat / 4096)
    match head.toNat / 256 % 16, slots with
    | 0, slots => (readAll slots).map (code (.pushNonvol info) :: ·)
    | 1, slots =>
      match info.val, slots with
      | 0, units :: slots => (readAll slots).map (code (.allocScaled units) :: ·)
      | 1, low :: high :: slots => (readAll slots).map (code (.allocWide (joinHalves low high)) :: ·)
      | _, _ => none
    | 2, slots => (readAll slots).map (code (.allocSmall info) :: ·)
    | 3, slots => (readAll slots).map (code .setFrame :: ·)
    | 4, units :: slots => (readAll slots).map (code (.saveScaled info units) :: ·)
    | 5, low :: high :: slots => (readAll slots).map (code (.saveWide info (joinHalves low high)) :: ·)
    | 8, units :: slots => (readAll slots).map (code (.saveXmmScaled info units) :: ·)
    | 9, low :: high :: slots => (readAll slots).map (code (.saveXmmWide info (joinHalves low high)) :: ·)
    | _, _ => none

/-- The fields of a code's first slot do not run into each other. -/
theorem exists_head (code : UnwindCode) :
    ∃ head : UInt16, code.slots = head :: code.form.operand ∧
      head.toNat / 256 % 16 = code.form.opcode.val ∧ nibble (head.toNat / 4096) = code.form.info ∧
      UInt8.ofNat (head.toNat % 256) = code.offset := by
  have hoffset := code.offset.toNat_lt
  have hopcode := code.form.opcode.isLt
  have hinfo := code.form.info.isLt
  refine ⟨_, rfl, ?_⟩
  rw [UInt16.toNat_ofNat_of_lt' (by simp only [UInt16.size]; omega)]
  refine ⟨by omega, ?_, ?_⟩
  · rw [Fin.ext_iff]
    simp only [nibble, Fin.val_ofNat]
    omega
  · rw [← UInt8.toNat_inj, UInt8.toNat_ofNat']
    omega

/-- A code is read back from its slots. -/
theorem readAll_append (code : UnwindCode) (slots : List UInt16) :
    readAll (code.slots ++ slots) = (readAll slots).map (code :: ·) := by
  obtain ⟨head, hslots, hopcode, hinfo, hoffset⟩ := exists_head code
  obtain ⟨offset, form⟩ := code
  rw [hslots, List.cons_append]
  cases form with
  | pushNonvol reg | allocSmall units | allocScaled units | setFrame | saveScaled reg units
  | saveXmmScaled reg units =>
    simp only [CodeForm.opcode, CodeForm.info] at hopcode hinfo
    rw [readAll.eq_def]
    simp only [hopcode, hinfo, hoffset, CodeForm.operand, List.nil_append, List.cons_append]
    rfl
  | allocWide value | saveWide reg value | saveXmmWide reg value =>
    simp only [CodeForm.opcode, CodeForm.info] at hopcode hinfo
    rw [readAll.eq_def]
    simp only [hopcode, hinfo, hoffset, CodeForm.operand, CodeForm.halves, List.nil_append, List.cons_append]
    conv_rhs => rw [← CodeForm.joinHalves_halves value]
    rfl

private theorem readAll_flatMap (codes : List UnwindCode) : readAll (codes.flatMap slots) = some codes := by
  induction codes with
  | nil => rfl
  | cons code codes ih => rw [List.flatMap_cons, readAll_append, ih, Option.map_some]

end UnwindCode

/-- What the bytes of a record say. -/
structure RecordImage where
  version : Nat
  flags : Nat
  /-- The length of the prolog. -/
  prologSize : Nat
  /-- The number of slots that the codes take. -/
  slotCount : Nat
  /-- The frame register, or zero for none. -/
  frameRegister : Nibble
  /-- The frame register's distance from the stack pointer, in units of sixteen bytes. -/
  frameOffset : Nibble
  /-- The unwind codes, last operation first. -/
  codes : List UnwindCode
  /-- What follows the counted slots. -/
  trailer : List UInt8
  deriving DecidableEq, Repr

namespace RecordImage

/-- A number of slots, least significant byte first, and the bytes after them. -/
def readSlots : Nat → List UInt8 → Option (List UInt16 × List UInt8)
  | 0, bytes => some ([], bytes)
  | count + 1, low :: high :: bytes =>
    (readSlots count bytes).map fun (slots, rest) =>
      (.ofNat (low.toNat + 256 * high.toNat) :: slots, rest)
  | _ + 1, _ => none

/-- What bytes say, provided they are a record. -/
def read : List UInt8 → Option RecordImage
  | first :: prologSize :: slotCount :: frame :: bytes => do
    let (slots, trailer) ← readSlots slotCount.toNat bytes
    let codes ← UnwindCode.readAll slots
    return {
      version := first.toNat % 8, flags := first.toNat / 8, prologSize := prologSize.toNat
      slotCount := slotCount.toNat, frameRegister := nibble frame.toNat
      frameOffset := nibble (frame.toNat / 16), codes, trailer }
  | _ => none

/-- The operation that a code describes. A frame register is described by the header. -/
def operation (image : RecordImage) : CodeForm → PrologOp
  | .pushNonvol reg => .push (.gp (.ofNat reg.val))
  | .allocSmall units => .alloc (.ofNat (8 * (units.val + 1)))
  | .allocScaled units => .alloc (.ofNat (8 * units.toNat))
  | .allocWide size => .alloc size
  | .setFrame => .setFrame (.gp (.ofNat image.frameRegister.val)) (.ofNat (16 * image.frameOffset.val))
  | .saveScaled reg units => .save (.gp (.ofNat reg.val)) (.ofNat (8 * units.toNat))
  | .saveWide reg offset => .save (.gp (.ofNat reg.val)) offset
  | .saveXmmScaled reg units => .save (.xmm (.ofNat reg.val)) (.ofNat (16 * units.toNat))
  | .saveXmmWide reg offset => .save (.xmm (.ofNat reg.val)) offset

/-- The operations that a record describes, each with the offset at which it is complete, in the
    order of the codes. -/
def steps (image : RecordImage) : List (Nat × PrologOp) :=
  image.codes.map fun code => (code.offset.toNat, image.operation code.form)

end RecordImage

namespace UnwindRecord

/-- The bytes after the slots. -/
def padding (slots : Nat) : List UInt8 := if slots % 2 = 1 then [0, 0] else []

/-- What the bytes of a record say when its slots can be counted. -/
def image (r : UnwindRecord) : RecordImage where
  version := version
  flags := r.flags.val
  prologSize := r.prologSize.toNat
  slotCount := r.slots.length
  frameRegister := r.frameRegister
  frameOffset := r.frameOffset
  codes := r.codes
  trailer := padding r.slots.length

end UnwindRecord

namespace RecordImage

private theorem readSlots_append (slots : List UInt16) (rest : List UInt8) :
    readSlots slots.length (slots.flatMap (fun slot => littleEndian 2 slot.toNat) ++ rest) =
      some (slots, rest) := by
  induction slots with
  | nil => rfl
  | cons slot slots ih =>
    have hlt := slot.toNat_lt
    have hslot : UInt16.ofNat ((UInt8.ofNat slot.toNat).toNat + 256 * (UInt8.ofNat (slot.toNat / 256)).toNat) =
        slot := by
      rw [← UInt16.toNat_inj, UInt16.toNat_ofNat']
      simp only [UInt8.toNat_ofNat']
      omega
    have hbytes : littleEndian 2 slot.toNat = [.ofNat slot.toNat, .ofNat (slot.toNat / 256)] := rfl
    rw [List.flatMap_cons, List.append_assoc, hbytes]
    simp only [List.length_cons, List.cons_append, List.nil_append, readSlots, ih, Option.map_some, hslot]

/-- A record is read back from its bytes. -/
theorem read_bytes {r : UnwindRecord} (hslots : r.slots.length ≤ 255) : read r.bytes = some r.image := by
  have hflags := r.flags.isLt
  have hregister := r.frameRegister.isLt
  have hdistance := r.frameOffset.isLt
  have hfirst : (UInt8.ofNat (1 + 8 * r.flags.val)).toNat = 1 + 8 * r.flags.val :=
    UInt8.toNat_ofNat_of_lt' (by simp only [UInt8.size]; omega)
  have hcount : (UInt8.ofNat r.slots.length).toNat = r.slots.length :=
    UInt8.toNat_ofNat_of_lt' (by simp only [UInt8.size]; omega)
  have hframe : (UInt8.ofNat (r.frameRegister.val + 16 * r.frameOffset.val)).toNat =
      r.frameRegister.val + 16 * r.frameOffset.val :=
    UInt8.toNat_ofNat_of_lt' (by simp only [UInt8.size]; omega)
  have hlow : nibble (r.frameRegister.val + 16 * r.frameOffset.val) = r.frameRegister := by
    rw [Fin.ext_iff]
    simp only [nibble, Fin.val_ofNat]
    omega
  have hhigh : nibble ((r.frameRegister.val + 16 * r.frameOffset.val) / 16) = r.frameOffset := by
    rw [Fin.ext_iff]
    simp only [nibble, Fin.val_ofNat]
    omega
  have hcodes : UnwindCode.readAll r.slots = some r.codes := UnwindCode.readAll_flatMap r.codes
  rw [UnwindRecord.bytes, List.append_assoc]
  simp only [UnwindRecord.version, List.cons_append, List.nil_append, read, hfirst, hcount, hframe, hlow, hhigh,
    readSlots_append, hcodes, bind, Option.bind, pure, UnwindRecord.image, UnwindRecord.padding]
  rw [show (1 + 8 * r.flags.val) % 8 = 1 by omega, show (1 + 8 * r.flags.val) / 8 = r.flags.val by omega]

end RecordImage

end StackUnwind
