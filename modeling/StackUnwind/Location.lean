import Std.Data.HashMap

/-!
Places in the code. A location is a marker handed out while code is written; it has an offset
only once the code is laid out. Offsets count from the start of the unit's hot code, and cold
code follows hot code, so a cold offset is at least the size of the hot code.
-/

namespace StackUnwind

/-- A marker for a place in the code. -/
structure Location where
  id : UInt32
  deriving DecidableEq, Hashable, Repr

/-- The two regions a unit's code is divided into. -/
inductive Region where
  | hot
  | cold
  deriving DecidableEq, Repr

namespace Region

def isCold : Region → Bool
  | hot => false
  | cold => true

/-- The region as traces show it. -/
def describe : Region → String
  | hot => "Hot"
  | cold => "Cold"

end Region

/-- The markers around a piece of a region. An absent start is the first byte of the region and
    an absent stop its last. -/
structure Span where
  start : Option Location := none
  stop : Option Location := none
  deriving DecidableEq, Repr

namespace Span

/-- All of a region. -/
def whole : Span := {}

end Span

/-- Where locations ended up: an offset for each location that was placed. -/
structure LocationTable where
  offsets : Std.HashMap Location UInt32 := {}

namespace LocationTable

def empty : LocationTable := {}

/-- The table in which `location` is at `offset`, wherever it was before. -/
def insert (table : LocationTable) (location : Location) (offset : UInt32) : LocationTable :=
  ⟨table.offsets.insert location offset⟩

def offset? (table : LocationTable) (location : Location) : Option UInt32 :=
  table.offsets[location]?

/-- The number of locations with an offset. -/
def size (table : LocationTable) : Nat := table.offsets.size

def isEmpty (table : LocationTable) : Bool := table.offsets.isEmpty

/-- An empty table binds no location. -/
@[simp] theorem offset?_empty (location : Location) : empty.offset? location = none := by
  simp [empty, offset?]

/-- An entry takes the place of an earlier one of the same location. -/
theorem offset?_insert (table : LocationTable) (a b : Location) (offset : UInt32) :
    (table.insert a offset).offset? b = if a = b then some offset else table.offset? b := by
  simp [insert, offset?, Std.HashMap.getElem?_insert]

end LocationTable

end StackUnwind
