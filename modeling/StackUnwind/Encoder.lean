import StackUnwind.Instruction.Draft
import StackUnwind.Location
import StackUnwind.State

/-!
Machine code under construction: the bytes so far, and labels that remember how many bytes there
were when they were placed.
-/

namespace StackUnwind

/-- Machine code under construction. -/
structure Encoder where
  /-- The code so far. -/
  code : Array UInt8 := #[]
  /-- The offset of each label, in the order of creation, as far as it has been placed. A label and its placement are one
      entry. -/
  labels : Array (Option Nat) := #[]
  deriving DecidableEq, Repr

/-- Building machine code, which an error may stop. -/
abbrev EncoderM := EStateM EncodeError Encoder

/-- Finished machine code, with the offset of each label. -/
structure AssembledCode where
  code : Array UInt8
  labelOffsets : Array (Option UInt32)
  deriving DecidableEq, Repr

namespace Encoder

/-- A new label, not yet placed, and its number. -/
def newLabel (e : Encoder) : Nat × Encoder :=
  (e.labels.size, { e with labels := e.labels.push none })

/-- Place a label at the end of the code. -/
def place (label : Nat) : EncoderM Unit := do
  let e ← get
  match e.labels[label]? with
  | none => throw (.unknownLabel label)
  | some (some _) => throw .labelPlacedTwice
  | some none => set { e with labels := e.labels.setIfInBounds label (some e.code.size) }

/-- Append an instruction. -/
def append (e : Encoder) (instruction : Instruction) : Encoder :=
  { e with code := e.code ++ instruction.bytes.toArray }

/-- Append the instruction that a draft stands for. -/
def emit (draft : Draft) : EncoderM Unit := do
  let instruction ← draft.check
  modify fun e => e.append instruction

/-- The offset of a label as a word. -/
def offsetWord (offset : Nat) : Except EncodeError UInt32 :=
  if offset < 0x100000000 then .ok (.ofNat offset) else .error (.labelOutOfRange offset)

/-- The offsets of all labels as words. -/
def labelOffsets (e : Encoder) : Except EncodeError (Array (Option UInt32)) :=
  e.labels.mapM fun label => label.mapM offsetWord

/-- The code and the offsets of the labels. More may be appended afterwards. -/
def assemble : EncoderM AssembledCode := do
  let e ← get
  return ⟨e.code, ← e.labelOffsets⟩

end Encoder

end StackUnwind
