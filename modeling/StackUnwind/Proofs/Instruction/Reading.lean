import StackUnwind.Proofs.Instruction.Size
import StackUnwind.Proofs.UnwindRecord.Image

namespace StackUnwind

namespace RegNumber

/-- The register with the given low bits and fourth bit of its number. -/
def ofBits (high low : Nat) : RegNumber := .ofNat 16 (8 * high + low)

private theorem ofBits_high_low (r : RegNumber) : ofBits r.high r.low = r := by
  rw [Fin.ext_iff, ofBits, Fin.val_ofNat, high, low, Nat.div_add_mod]
  exact Nat.mod_eq_of_lt r.isLt

private theorem high_le (r : RegNumber) : r.high ≤ 1 := by
  have hlt := r.isLt
  rw [high]
  omega

private theorem low_lt (r : RegNumber) : r.low < 8 := Nat.mod_lt _ (by decide)

end RegNumber

namespace Instruction

/-- The fields of a REX byte, which are all zero if there is none. -/
structure Rex where
  wide : Bool := false
  reg : Nat := 0
  rm : Nat := 0
  deriving DecidableEq, Repr

/-- What the last field of a ModRM byte, with the bytes that follow it, stands for. -/
inductive Place where
  | register (r : RegNumber)
  | memory (m : Memory)
  deriving DecidableEq, Repr

/-- Read a REX byte if there is one. No instruction has an index register for it to extend. -/
def readRex : List UInt8 → Option (Rex × List UInt8)
  | [] => none
  | b :: bytes =>
    if b.toNat / 16 = 4 then
      if b.toNat / 2 % 2 = 0 then some (⟨b.toNat / 8 % 2 == 1, b.toNat / 4 % 2, b.toNat % 2⟩, bytes) else none
    else some ({}, b :: bytes)

/-- Read an immediate or displacement, which must not be negative. -/
def readImmediate (width : Nat) (bytes : List UInt8) : Option (Immediate × List UInt8) :=
  let value := ofLittleEndian (bytes.take width)
  if width ≤ bytes.length ∧ value < 2 ^ (8 * width - 1) then some (.ofNat _ value, bytes.drop width) else none

/-- Read the byte that says that there is no index, which follows only if the base is `rsp` or `r12`. -/
def readSib (low : Nat) (bytes : List UInt8) : Option (List UInt8) :=
  if low = 4 then if bytes.head? = some 0x24 then some bytes.tail else none else some bytes

/-- The number of bytes of a displacement. Without one, `rbp` and `r13` are no base. -/
def dispWidth? (mode low : Nat) : Option Nat :=
  match mode with
  | 0 => if low = 5 then none else some 0
  | 1 => some 1
  | 2 => some 4
  | _ => none

/-- Read a ModRM byte and what belongs to it. -/
def readModRM (rex : Rex) : List UInt8 → Option (RegNumber × Place × List UInt8)
  | [] => none
  | b :: bytes =>
    let reg := RegNumber.ofBits rex.reg (b.toNat / 8 % 8)
    let low := b.toNat % 8
    let rm := RegNumber.ofBits rex.rm low
    if b.toNat / 64 = 3 then some (reg, .register rm, bytes)
    else do
      let width ← dispWidth? (b.toNat / 64) low
      let bytes ← readSib low bytes
      let (disp, bytes) ← readImmediate width bytes
      return (reg, .memory ⟨rm, disp⟩, bytes)

/-- Read the operands of an instruction between a register and memory. -/
def readMemory (rex : Rex) (bytes : List UInt8) : Option (RegNumber × Memory × List UInt8) := do
  match ← readModRM rex bytes with
  | (_, .register _, _) => none
  | (reg, .memory m, bytes) => return (reg, m, bytes)

/-- The operation that a field of ModRM stands for where it names no register. -/
def arithmetic? : Nat → Option (RegNumber → Immediate → Instruction)
  | 0 => some .add
  | 5 => some .sub
  | _ => none

def readArithmetic (rex : Rex) (width : Nat) (bytes : List UInt8) : Option (Instruction × List UInt8) := do
  match ← readModRM rex bytes with
  | (_, .memory _, _) => none
  | (extension, .register dst, bytes) =>
    let f ← arithmetic? extension.val
    let (imm, bytes) ← readImmediate width bytes
    return (f dst imm, bytes)

/-- Read the operand of an operation on `rax`, whose immediate is never short. -/
def readAccumulator (f : RegNumber → Immediate → Instruction) (bytes : List UInt8) :
    Option (Instruction × List UInt8) := do
  let (imm, bytes) ← readImmediate 4 bytes
  return (f 0 imm, bytes)

/-- Read the rest of an instruction with 64-bit operands. -/
def readWide (rex : Rex) (opcode : Nat) (bytes : List UInt8) : Option (Instruction × List UInt8) :=
  match opcode with
  | 0x05 => readAccumulator .add bytes
  | 0x2D => readAccumulator .sub bytes
  | 0x81 => readArithmetic rex 4 bytes
  | 0x83 => readArithmetic rex 1 bytes
  | 0x89 => do
    match ← readModRM rex bytes with
    | (src, .register dst, bytes) => return (.mov dst src, bytes)
    | (src, .memory dst, bytes) => return (.store dst src, bytes)
  | 0x8B => do
    let (dst, src, bytes) ← readMemory rex bytes
    return (.load dst src, bytes)
  | 0x8D => do
    let (dst, src, bytes) ← readMemory rex bytes
    return (.lea dst src, bytes)
  | _ => none

/-- Read the rest of an instruction with operands of the default size. -/
def readNarrow (rex : Rex) (opcode : Nat) (bytes : List UInt8) : Option (Instruction × List UInt8) :=
  match opcode / 8, opcode % 8 with
  | 0x0A, low => some (.push (.ofBits rex.rm low), bytes)
  | 0x0B, low => some (.pop (.ofBits rex.rm low), bytes)
  | 0x01, 7 =>
    match bytes with
    | 0x28 :: bytes => do
      let (dst, src, bytes) ← readMemory rex bytes
      return (.loadXmm dst src, bytes)
    | 0x29 :: bytes => do
      let (src, dst, bytes) ← readMemory rex bytes
      return (.storeXmm dst src, bytes)
    | _ => none
  | 0x12, 0 => if rex.rm = 0 then some (.nop, bytes) else none
  | 0x18, 3 => some (.ret, bytes)
  | 0x19, 4 => some (.int3, bytes)
  | _, _ => none

/-- Read one instruction from the left. How long it is follows from the bytes that are read. -/
def read (bytes : List UInt8) : Option (Instruction × List UInt8) := do
  match ← readRex bytes with
  | (_, []) => none
  | (rex, opcode :: bytes) =>
    if rex.wide then readWide rex opcode.toNat bytes else readNarrow rex opcode.toNat bytes

/-- Read up to `limit` instructions. -/
def readUpTo : (limit : Nat) → List UInt8 → Option (List Instruction)
  | _, [] => some []
  | 0, _ :: _ => none
  | limit + 1, b :: bytes => do
    let (i, rest) ← read (b :: bytes)
    return i :: (← readUpTo limit rest)

/-- Read machine code. There are no more instructions than bytes. -/
def readAll (code : List UInt8) : Option (List Instruction) := readUpTo code.length code

section Fields

variable {wide : Bool} {mode width : Nat} {imm : Immediate} {b : UInt8}

private theorem readRex_rexWide (reg rm : RegNumber) (rest : List UInt8) :
    readRex (rexWide reg rm :: rest) = some (⟨true, reg.high, rm.high⟩, rest) := by
  have hreg := reg.high_le
  have hrm := rm.high_le
  have hbyte : (rexWide reg rm).toNat = 0x48 + 4 * reg.high + rm.high :=
    UInt8.toNat_ofNat_of_lt' (by simp only [UInt8.size]; omega)
  have hwide : (rexWide reg rm).toNat / 8 % 2 = 1 := by omega
  rw [readRex, if_pos (by omega), if_pos (by omega), hwide]
  congr 3 <;> omega

private theorem readRex_rexNarrow (reg rm : RegNumber) (hb : b.toNat / 16 ≠ 4) (rest : List UInt8) :
    readRex (rexNarrow reg rm ++ b :: rest) = some (⟨false, reg.high, rm.high⟩, b :: rest) := by
  have hreg := reg.high_le
  have hrm := rm.high_le
  unfold rexNarrow
  split
  next h => rw [List.nil_append, readRex, if_neg hb, h.1, h.2]
  next h =>
    have hbyte : (UInt8.ofNat (0x40 + 4 * reg.high + rm.high)).toNat = 0x40 + 4 * reg.high + rm.high :=
      UInt8.toNat_ofNat_of_lt' (by simp only [UInt8.size]; omega)
    have hnarrow : (0x40 + 4 * reg.high + rm.high) / 8 % 2 = 0 := by omega
    rw [List.singleton_append, readRex, hbyte, if_pos (by omega), if_pos (by omega), hnarrow]
    congr 3 <;> omega

private theorem readImmediate_littleEndian (h : imm.val < 2 ^ (8 * width - 1)) (rest : List UInt8) :
    readImmediate width (littleEndian width imm.val ++ rest) = some (imm, rest) := by
  have hpow : (256 : Nat) ^ width = 2 ^ (8 * width) := by rw [Nat.pow_mul]
  have hlt : imm.val < 256 ^ width := by
    rw [hpow]
    exact Nat.lt_of_lt_of_le h (Nat.pow_le_pow_right (by decide) (Nat.sub_le ..))
  have htake : (littleEndian width imm.val ++ rest).take width = littleEndian width imm.val :=
    List.take_left' (length_littleEndian ..)
  have hdrop : (littleEndian width imm.val ++ rest).drop width = rest := List.drop_left' (length_littleEndian ..)
  have hle : width ≤ (littleEndian width imm.val ++ rest).length := by simp
  simp only [readImmediate, htake, hdrop, ofLittleEndian_littleEndian, Nat.mod_eq_of_lt hlt, hle, h, and_self, if_true,
    Fin.ofNat_val_eq_self]

private theorem readSib_sib (base : RegNumber) (rest : List UInt8) :
    readSib base.low (sib base ++ rest) = some rest := by
  unfold readSib sib
  split
  · rfl
  · rfl

private theorem toNat_modRM (mode reg : Nat) (rm : RegNumber) (hmode : mode < 4) (hreg : reg < 8) :
    (modRM mode reg rm.low).toNat = 64 * mode + 8 * reg + rm.low := by
  have hrm := rm.low_lt
  exact UInt8.toNat_ofNat_of_lt' (by simp only [UInt8.size]; omega)

/-- A ModRM byte that names two registers is read with the REX byte that extends them. -/
theorem readModRM_register (reg rm : RegNumber) (rest : List UInt8) :
    readModRM ⟨wide, reg.high, rm.high⟩ (modRM 3 reg.low rm.low :: rest) = some (reg, .register rm, rest) := by
  have hreg := reg.low_lt
  have hrm := rm.low_lt
  have hbyte := toNat_modRM 3 reg.low rm (by decide) hreg
  have hfield : (modRM 3 reg.low rm.low).toNat / 8 % 8 = reg.low := by omega
  have hlow : (modRM 3 reg.low rm.low).toNat % 8 = rm.low := by omega
  rw [readModRM, if_pos (by omega), hfield, hlow, RegNumber.ofBits_high_low, RegNumber.ofBits_high_low]

/-- A memory operand is read whose displacement has the width that its ModRM byte says. -/
theorem readModRM_sib (hmode : mode < 3) (reg : RegNumber) (m : Memory)
    (hwidth : dispWidth? mode m.base.low = some width) (hdisp : m.disp.val < 2 ^ (8 * width - 1)) (rest : List UInt8) :
    readModRM ⟨wide, reg.high, m.base.high⟩
        (modRM mode reg.low m.base.low :: (sib m.base ++ (littleEndian width m.disp.val ++ rest))) =
      some (reg, .memory m, rest) := by
  have hreg := reg.low_lt
  have hbase := m.base.low_lt
  have hbyte := toNat_modRM mode reg.low m.base (by omega) hreg
  have hfirst : (modRM mode reg.low m.base.low).toNat / 64 = mode := by omega
  have hfield : (modRM mode reg.low m.base.low).toNat / 8 % 8 = reg.low := by omega
  have hlow : (modRM mode reg.low m.base.low).toNat % 8 = m.base.low := by omega
  rw [readModRM, if_neg (by omega), hfirst, hfield, hlow, RegNumber.ofBits_high_low, RegNumber.ofBits_high_low, hwidth]
  simp only [Option.bind_eq_bind, Option.bind_some, readSib_sib, readImmediate_littleEndian hdisp]
  rfl

private theorem readModRM_memory (reg : RegNumber) (m : Memory) (rest : List UInt8) :
    readModRM ⟨wide, reg.high, m.base.high⟩ (memory reg.low m ++ rest) = some (reg, .memory m, rest) := by
  have hlt := m.disp.isLt
  unfold memory
  split
  next h =>
    obtain ⟨hzero, hbase⟩ := h
    have hwidth : dispWidth? 0 m.base.low = some 0 := if_neg hbase
    exact readModRM_sib (by decide) reg m hwidth (by omega) rest
  next =>
    split
    next hle =>
      rw [List.cons_append, List.append_assoc]
      exact readModRM_sib (by decide) reg m rfl (by omega) rest
    next =>
      rw [List.cons_append, List.append_assoc]
      exact readModRM_sib (by decide) reg m rfl (by omega) rest

private theorem readMemory_memory (reg : RegNumber) (m : Memory) (rest : List UInt8) :
    readMemory ⟨wide, reg.high, m.base.high⟩ (memory reg.low m ++ rest) = some (reg, m, rest) := by
  rw [readMemory, readModRM_memory]
  rfl

end Fields

/-- Reading a wide instruction passes over its REX byte and its opcode. -/
theorem read_wide (reg rm : RegNumber) (opcode : UInt8) (rest : List UInt8) :
    read (rexWide reg rm :: opcode :: rest) = readWide ⟨true, reg.high, rm.high⟩ opcode.toNat rest := by
  rw [read, readRex_rexWide]
  rfl

private theorem read_narrow (reg rm : RegNumber) {b : UInt8} (hb : b.toNat / 16 ≠ 4) (rest : List UInt8) :
    read (rexNarrow reg rm ++ b :: rest) = readNarrow ⟨false, reg.high, rm.high⟩ b.toNat rest := by
  rw [read, readRex_rexNarrow reg rm hb]
  rfl

section Operations

variable {f : RegNumber → Immediate → Instruction} {width : Nat} {imm : Immediate}

private theorem readArithmetic_register {extension : RegNumber} (hf : arithmetic? extension.val = some f)
    (dst : RegNumber)
    (himm : imm.val < 2 ^ (8 * width - 1)) (rest : List UInt8) :
    readArithmetic ⟨true, extension.high, dst.high⟩ width
        (modRM 3 extension.low dst.low :: (littleEndian width imm.val ++ rest)) = some (f dst imm, rest) := by
  rw [readArithmetic, readModRM_register]
  simp only [Option.bind_eq_bind, Option.bind_some, hf, readImmediate_littleEndian himm]
  rfl

/-- An operation with an immediate is read back if its opcode for `rax` and its extension elsewhere are read as that
    operation. The extension is the number of a low register. -/
theorem read_arithmetic {accumulator : UInt8} (extension : RegNumber) (hlow : extension.high = 0)
    (hf : arithmetic? extension.val = some f)
    (haccumulator : ∀ rex bytes, readWide rex accumulator.toNat bytes = readAccumulator f bytes)
    (dst : RegNumber) (imm : Immediate) (rest : List UInt8) :
    read (arithmetic accumulator extension.low dst imm ++ rest) = some (f dst imm, rest) := by
  have hlt := imm.isLt
  have hextension : rexWide 0 dst = rexWide extension dst := by
    rw [rexWide, rexWide, hlow]
    rfl
  unfold arithmetic
  split
  next hzero =>
    obtain rfl : dst = 0 := Fin.ext hzero
    rw [List.cons_append, List.cons_append, read_wide, haccumulator, readAccumulator,
      @readImmediate_littleEndian 4 imm (by omega) rest]
    rfl
  next =>
    rw [hextension]
    split
    next hle =>
      rw [List.cons_append, List.cons_append, List.cons_append, read_wide]
      exact readArithmetic_register hf dst (by omega) rest
    next =>
      rw [List.cons_append, List.cons_append, List.cons_append, read_wide]
      exact readArithmetic_register hf dst (by omega) rest

end Operations

private theorem read_wideMemory (opcode : UInt8) (reg : RegNumber) (m : Memory) (rest : List UInt8) :
    read (wideMemory opcode reg m ++ rest) =
      readWide ⟨true, reg.high, m.base.high⟩ opcode.toNat (memory reg.low m ++ rest) := by
  rw [wideMemory, List.cons_append, List.cons_append, read_wide]

private theorem read_xmmMemory (opcode : UInt8) (reg : RegNumber) (m : Memory) (rest : List UInt8) :
    read (xmmMemory opcode reg m ++ rest) =
      readNarrow ⟨false, reg.high, m.base.high⟩ 0x0F (opcode :: (memory reg.low m ++ rest)) := by
  rw [xmmMemory, List.append_assoc, List.append_assoc]
  exact read_narrow reg m.base (by decide) _

/-- An opcode that holds the low bits of a register's number. -/
theorem read_opcode_low (group : Nat) (hgroup : group < 32) (hrex : group / 2 ≠ 4) (r : RegNumber) (rest : List UInt8) :
    read (rexNarrow 0 r ++ [.ofNat (8 * group + r.low)] ++ rest) =
      readNarrow ⟨false, 0, r.high⟩ (8 * group + r.low) rest := by
  have hlow := r.low_lt
  have hbyte : (UInt8.ofNat (8 * group + r.low)).toNat = 8 * group + r.low :=
    UInt8.toNat_ofNat_of_lt' (by simp only [UInt8.size]; omega)
  have hread := read_narrow 0 r (b := .ofNat (8 * group + r.low)) (by omega) rest
  rw [hbyte] at hread
  rw [List.append_assoc]
  exact hread

/-- Reading from the left gives the instruction that was written and leaves what follows it. -/
theorem read_bytes_append (i : Instruction) (rest : List UInt8) : read (i.bytes ++ rest) = some (i, rest) := by
  cases i with
  | push src =>
    have hlow := src.low_lt
    have hgroup : (80 + src.low) / 8 = 10 := by omega
    have hfield : (80 + src.low) % 8 = src.low := by omega
    rw [bytes, read_opcode_low 10 (by decide) (by decide)]
    simp only [readNarrow, hgroup, hfield, RegNumber.ofBits_high_low]
  | pop dst =>
    have hlow := dst.low_lt
    have hgroup : (88 + dst.low) / 8 = 11 := by omega
    have hfield : (88 + dst.low) % 8 = dst.low := by omega
    rw [bytes, read_opcode_low 11 (by decide) (by decide)]
    simp only [readNarrow, hgroup, hfield, RegNumber.ofBits_high_low]
  | mov dst src =>
    rw [bytes, List.cons_append, List.cons_append, read_wide]
    change (readModRM _ _).bind _ = _
    rw [List.cons_append, readModRM_register]
    rfl
  | sub dst imm => exact read_arithmetic 5 rfl rfl (fun _ _ => rfl) dst imm rest
  | add dst imm => exact read_arithmetic 0 rfl rfl (fun _ _ => rfl) dst imm rest
  | lea dst src =>
    rw [bytes, read_wideMemory]
    change (readMemory _ _).bind _ = _
    rw [readMemory_memory]
    rfl
  | store dst src =>
    rw [bytes, read_wideMemory]
    change (readModRM _ _).bind _ = _
    rw [readModRM_memory]
    rfl
  | load dst src =>
    rw [bytes, read_wideMemory]
    change (readMemory _ _).bind _ = _
    rw [readMemory_memory]
    rfl
  | storeXmm dst src =>
    rw [bytes, read_xmmMemory]
    change (readMemory _ _).bind _ = _
    rw [readMemory_memory]
    rfl
  | loadXmm dst src =>
    rw [bytes, read_xmmMemory]
    change (readMemory _ _).bind _ = _
    rw [readMemory_memory]
    rfl
  | ret => rfl
  | nop => rfl
  | int3 => rfl

private theorem readUpTo_cons {limit : Nat} (i : Instruction) (rest : List UInt8) :
    readUpTo (limit + 1) (i.bytes ++ rest) = (readUpTo limit rest).map (i :: ·) := by
  obtain ⟨hpos, -⟩ := length_bytes_bounds i
  have hread := read_bytes_append i rest
  cases hbytes : i.bytes ++ rest with
  | nil =>
    rw [List.append_eq_nil_iff] at hbytes
    simp [hbytes.1] at hpos
  | cons b bytes =>
    rw [hbytes] at hread
    rw [readUpTo, hread]
    simp only [Option.bind_eq_bind, Option.bind_some, Option.pure_def]
    exact Option.map_eq_bind.symm

/-- Machine code is read back as the instructions it was written for, however many bytes each of them takes. -/
theorem readAll_flatMap_bytes (is : List Instruction) : readAll (is.flatMap bytes) = some is := by
  have hread (limit : Nat) (hlimit : (is.flatMap bytes).length ≤ limit) : readUpTo limit (is.flatMap bytes) = some is := by
    induction is generalizing limit with
    | nil => cases limit <;> rfl
    | cons i is ih =>
      obtain ⟨hpos, -⟩ := length_bytes_bounds i
      rw [List.flatMap_cons, List.length_append] at hlimit
      obtain ⟨limit, rfl⟩ := Nat.exists_eq_add_of_le' (Nat.le_trans hpos (Nat.le_of_add_right_le hlimit))
      rw [List.flatMap_cons, readUpTo_cons, ih limit (by omega)]
      rfl
  exact hread _ (Nat.le_refl _)

end Instruction

end StackUnwind
