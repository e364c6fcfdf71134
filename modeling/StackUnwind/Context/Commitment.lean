import StackUnwind.Context
import StackUnwind.Exchange

/-!
Commitment of the records of a unit, after its code is laid out. The same functions and regions
are walked as for reservation. The record of hot code is committed without the cold base, even
in a split unit; under fake splitting the root gets a single record over the whole unit.
-/

namespace StackUnwind

namespace Context

variable {σ : Type}

/-- The range of one region of a function. -/
def regionRange (layout : UnitLayout) (oracle : Oracle) (f : UnitFunction) :
    Region → Except (Stop UnwindError) Range
  | .hot => layout.hotRange oracle f.hot
  | .cold =>
    if f.maySplit then layout.coldRange oracle (f.cold.getD .whole)
    else throw (.fault .funcletSplit)

/-- The record of a function for a piece of code. -/
def recordInfo (tracker : Tracker) (region : Region) (codeLength : UInt32) :
    Except (Stop UnwindError) UnwindInfo :=
  (tracker.recorder.info region codeLength).mapError (·.map .record)

/-- Commit the record of one region of a function. -/
def commitRegion (host : Host σ) (oracle : Oracle) (layout : UnitLayout) (f : UnitFunction)
    (tracker : Tracker) (region : Region) : ExchangeM σ Unit := do
  let range ← regionRange layout oracle f region
  let info ← recordInfo tracker region range.size
  if info.bytes.length ≠ tracker.recorder.infoSize region then
    throw (.fault .recordSizeMismatch)
  let size := UInt64.ofNat info.bytes.length
  Exchange.trace <| s!"commit {f.kind.name} {region.describe} unwind info "
    ++ s!"{range.describe}, {size} bytes"
  Exchange.ask (host.commit {
    kind := f.kind, hotBase := layout.hotBase
    coldBase := if region.isCold then layout.coldBase else none
    range, payload := info.bytes })
  Exchange.count (·.recordCommit f.kind region size)

/-- Commit one record of a function over the whole unit. The cold base is withheld, so that the
    host sees a single piece of code. -/
def commitWhole (host : Host σ) (layout : UnitLayout) (f : UnitFunction) (tracker : Tracker) :
    ExchangeM σ Unit := do
  if layout.coldBase.isNone then
    throw (.fault .fakeSplitWithoutColdBase)
  if !f.maySplit then
    throw (.fault .funcletFakeSplit)
  let range := layout.wholeRange
  let info ← recordInfo tracker .hot range.size
  let size := UInt64.ofNat info.bytes.length
  Exchange.trace <| s!"commit fake-split {f.kind.name} unwind info "
    ++ s!"{range.describe}, {size} bytes"
  Exchange.ask (host.commit {
    kind := f.kind, hotBase := layout.hotBase, coldBase := none
    range, payload := info.bytes })
  Exchange.count (·.recordFakeSplitCommit size)

/-- Commit the records of a function. -/
def commitFunction (c : Context) (host : Host σ) (oracle : Oracle) (layout : UnitLayout)
    (f : UnitFunction) (tracker : Tracker) : ExchangeM σ Unit := do
  match ← c.plan f layout.coldBase.isSome with
  | .hotOnly => commitRegion host oracle layout f tracker .hot
  | .hotAndCold =>
    commitRegion host oracle layout f tracker .hot
    commitRegion host oracle layout f tracker .cold
  | .fakeSplit => commitWhole host layout f tracker

/-- The layout has to be one of this unit: with a cold base exactly when the unit has a cold
    region, and with no more hot code than code. -/
def requireLayout (c : Context) (layout : UnitLayout) : Except Fault Unit :=
  if layout.coldBase.isSome != c.functions.hasColdRegion then .error .coldBaseMismatch
  else if layout.totalSize < layout.hotSize then .error .hotLargerThanUnit
  else .ok ()

/-- Commit all records of a unit. -/
def commit (c : Context) (host : Host σ) (oracle : Oracle) (layout : UnitLayout) :
    ExchangeM σ Unit := do
  c.requireClosed
  c.requireLayout layout
  c.entries.forM fun (f, tracker) => c.commitFunction host oracle layout f tracker

end Context

end StackUnwind
