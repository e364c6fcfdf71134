import StackUnwind.UnwindError
import StackUnwind.Word

/-!
The final layout of a unit, and the ranges that spans become once their markers have offsets.
Markers are resolved from the start of the unit; a range counts from the start of its region.
-/

namespace StackUnwind

/-- Where the code of a unit ended up. -/
structure UnitLayout where
  /-- The address of the hot code. -/
  hotBase : UInt64
  /-- The address of the cold code of a split unit. -/
  coldBase : Option UInt64 := none
  /-- The number of bytes of hot code, which is also where cold code starts in the unit. -/
  hotSize : UInt32
  /-- The number of bytes of hot and cold code. -/
  totalSize : UInt32
  deriving DecidableEq, Repr

/-- A piece of a region, from `start` up to but not including `stop`. -/
structure Range where
  start : UInt32
  stop : UInt32
  deriving DecidableEq, Repr

/-- Knowledge of the final offsets of locations. -/
abbrev Oracle := Location → Option UInt32

/-- The offset of a marker; an absent one is at the boundary of its region. -/
def Oracle.resolve (oracle : Oracle) (marker : Option Location) (boundary : UInt32) :
    Except UnwindError UInt32 :=
  match marker with
  | none => .ok boundary
  | some location =>
    match oracle location with
    | some offset => .ok offset
    | none => .error (.unresolved location)

namespace Range

/-- The range between two offsets, which have to be in order. -/
def ofBounds (start stop : UInt32) : Except Fault Range :=
  if start ≤ stop then .ok ⟨start, stop⟩ else .error (.invertedRange start stop)

/-- The number of bytes in a range. -/
def size (range : Range) : UInt32 := monus32 range.stop range.start

/-- The range as traces show it. -/
def describe (range : Range) : String := s!"[{range.start}, {range.stop})"

end Range

namespace UnitLayout

/-- The layout of a unit without cold code. -/
def hotOnly (hotBase : UInt64) (size : UInt32) : UnitLayout :=
  { hotBase, hotSize := size, totalSize := size }

/-- The layout of a split unit. -/
def split (hotBase coldBase : UInt64) (hotSize totalSize : UInt32) : Except Fault UnitLayout :=
  if hotSize ≤ totalSize then .ok ⟨hotBase, some coldBase, hotSize, totalSize⟩
  else .error .splitBeyondUnit

/-- The range of a span of hot code, which has to end within the hot code. -/
def hotRange (layout : UnitLayout) (oracle : Oracle) (span : Span) :
    Except (Stop UnwindError) Range := do
  let start ← oracle.resolve span.start 0
  let stop ← oracle.resolve span.stop layout.hotSize
  if layout.hotSize < stop then
    throw (.fault (.hotRangePastEnd stop layout.hotSize))
  Range.ofBounds start stop

/-- The range of a span of cold code, which must not start in the hot code. -/
def coldRange (layout : UnitLayout) (oracle : Oracle) (span : Span) :
    Except (Stop UnwindError) Range := do
  let start ← oracle.resolve span.start layout.hotSize
  let stop ← oracle.resolve span.stop layout.totalSize
  if start < layout.hotSize then
    throw (.fault (.coldRangeInHot start layout.hotSize))
  Range.ofBounds (monus32 start layout.hotSize) (monus32 stop layout.hotSize)

/-- The range of the whole unit as one piece. -/
def wholeRange (layout : UnitLayout) : Range := ⟨0, layout.totalSize⟩

end UnitLayout

end StackUnwind
