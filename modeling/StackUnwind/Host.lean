import StackUnwind.Layout

/-!
Hosts. A host provides the storage for unwind records: it is asked for storage before the code is
laid out and given the records afterwards. It may refuse either, for whatever reason it keeps in
its state.
-/

namespace StackUnwind

/-- A request to reserve storage. -/
structure Reservation where
  isFunclet : Bool
  isCold : Bool
  /-- The number of bytes. -/
  size : UInt64
  deriving DecidableEq, Repr

/-- A finished record, given to the host with the code it covers. -/
structure Commit where
  kind : Kind
  /-- The address of the unit's hot code. -/
  hotBase : UInt64
  /-- The address of the unit's cold code, given only with the record of cold code. -/
  coldBase : Option UInt64
  /-- The code that the record covers, counted from the start of its region. -/
  range : Range
  payload : List UInt8
  deriving DecidableEq, Repr

/-- A host with states `σ`. -/
structure Host (σ : Type) where
  reserve : Reservation → EStateM UnwindError σ Unit
  commit : Commit → EStateM UnwindError σ Unit

end StackUnwind
