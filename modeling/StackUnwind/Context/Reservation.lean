import StackUnwind.Context
import StackUnwind.Exchange

/-!
Reservation of storage for the records of a unit, before its code is laid out. For each function
in order the host is asked for one hot record, and for one cold record right after it where the
plan has one.
-/

namespace StackUnwind

namespace Context

variable {σ : Type}

/-- Reserve storage for the record of one region of a function. -/
def reserveRegion (host : Host σ) (f : UnitFunction) (tracker : Tracker) (region : Region) :
    ExchangeM σ Unit := do
  let size := UInt64.ofNat (tracker.recorder.infoSize region)
  Exchange.trace s!"reserve {f.kind.name} {region.describe} unwind info, {size} bytes"
  Exchange.ask (host.reserve { isFunclet := f.isFunclet, isCold := region.isCold, size })
  Exchange.count (·.recordReservation size)

/-- Reserve storage for the records of a function. -/
def reserveFunction (c : Context) (host : Host σ) (f : UnitFunction) (tracker : Tracker) :
    ExchangeM σ Unit := do
  match ← c.plan f c.functions.hasColdRegion with
  | .hotOnly | .fakeSplit => reserveRegion host f tracker .hot
  | .hotAndCold =>
    reserveRegion host f tracker .hot
    reserveRegion host f tracker .cold

/-- Reserve storage for all records of a unit. -/
def reserve (c : Context) (host : Host σ) : ExchangeM σ Unit := do
  c.requireClosed
  c.entries.forM fun (f, tracker) => c.reserveFunction host f tracker

end Context

end StackUnwind
