import StackUnwind.UnitCode

/-!
Finished units: the code of a unit with its division into hot and cold code and the offsets of
all placed locations.
-/

namespace StackUnwind

/-- A finished unit, hot code first. -/
structure AssembledUnit where
  code : Array UInt8
  hotSize : UInt32
  totalSize : UInt32
  /-- Whether a cold section was begun. -/
  isSplit : Bool
  locations : LocationTable

namespace LocationTable

/-- The table of the labels that have an offset, the first of which has the given number. -/
def addLabels (table : LocationTable) (number : Nat) : List (Option UInt32) → LocationTable
  | [] => table
  | none :: labels => table.addLabels (number + 1) labels
  | some offset :: labels =>
    (table.insert ⟨.ofNat number⟩ offset).addLabels (number + 1) labels

end LocationTable

namespace AssembledUnit

/-- The code before the cold section. -/
def hotCode (unit : AssembledUnit) : Array UInt8 := unit.code.extract 0 unit.hotSize.toNat

/-- The code of the cold section. -/
def coldCode (unit : AssembledUnit) : Array UInt8 := unit.code.extract unit.hotSize.toNat

/-- The layout of a unit whose code is placed at an address in one piece. -/
def layout (unit : AssembledUnit) (base : UInt64) : Except Fault UnitLayout :=
  if unit.isSplit then do
    let coldBase ← word64 .add (base.toNat + unit.hotSize.toNat)
    UnitLayout.split base coldBase unit.hotSize unit.totalSize
  else
    .ok (.hotOnly base unit.totalSize)

/-- What is traced when a unit is finished. -/
def message (unit : AssembledUnit) : Message :=
  let coldSize := monus32 unit.totalSize unit.hotSize
  ⟨.debug, s!"assembled unit: {unit.hotSize} hot + {coldSize} cold bytes, "
    ++ s!"{unit.locations.size} locations"⟩

end AssembledUnit

namespace UnitCode

/-- Finish a unit, the size of which has to be a word. -/
def finish (unit : UnitCode) : Except CodegenError AssembledUnit := do
  let assembled ← (verdict (Encoder.assemble unit.encoder)).mapError .encode
  if 0x100000000 ≤ assembled.code.size then
    throw (.encode (.immediateOutOfRange (.ofNat 0xffffffff)))
  let totalSize := UInt32.ofNat assembled.code.size
  let hotSize := match unit.coldStart with
    | some location => (assembled.labelOffsets[location.id.toNat]?.join).getD totalSize
    | none => totalSize
  return {
    code := assembled.code, hotSize, totalSize, isSplit := unit.coldStart.isSome
    locations := LocationTable.empty.addLabels 0 assembled.labelOffsets.toList }

end UnitCode

end StackUnwind
