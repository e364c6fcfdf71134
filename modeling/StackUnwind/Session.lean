import StackUnwind.FunctionSet
import StackUnwind.Word

/-!
Sessions. A session names the function being compiled and counts what was reserved and committed
for it.
-/

namespace StackUnwind

/-- Counts of what a host accepted. -/
structure Stats where
  reservations : UInt64 := 0
  reservedBytes : UInt64 := 0
  commits : UInt64 := 0
  committedBytes : UInt64 := 0
  /-- Commits for cold code. -/
  coldCommits : UInt64 := 0
  /-- Commits for funclets. -/
  funcletCommits : UInt64 := 0
  /-- Commits for whole units under fake splitting. -/
  fakeSplitCommits : UInt64 := 0
  deriving DecidableEq, Repr

namespace Stats

/-- One more than a count. -/
def increment (count : UInt64) : Except Fault UInt64 := word64 .add (count.toNat + 1)

/-- Count a reservation of `size` bytes. -/
def recordReservation (stats : Stats) (size : UInt64) : Except Fault Stats := do
  let reservations ← increment stats.reservations
  let reservedBytes ← word64 .add (stats.reservedBytes.toNat + size.toNat)
  return { stats with reservations, reservedBytes }

/-- Count a commit of a record of `size` bytes. -/
def recordCommit (stats : Stats) (kind : Kind) (region : Region) (size : UInt64) :
    Except Fault Stats := do
  let commits ← increment stats.commits
  let committedBytes ← word64 .add (stats.committedBytes.toNat + size.toNat)
  let coldCommits ← if region.isCold then increment stats.coldCommits else .ok stats.coldCommits
  let funcletCommits ←
    if kind.isFunclet then increment stats.funcletCommits else .ok stats.funcletCommits
  return { stats with commits, committedBytes, coldCommits, funcletCommits }

/-- A commit of a whole unit counts as one of hot code of the root, too. -/
def recordFakeSplitCommit (stats : Stats) (size : UInt64) : Except Fault Stats := do
  let stats ← stats.recordCommit .root .hot size
  let fakeSplitCommits ← increment stats.fakeSplitCommits
  return { stats with fakeSplitCommits }

/-- The counts as a text. Commits of whole units are mentioned only where there are any. -/
def text (stats : Stats) : String :=
  "Unwind Statistics:\n"
    ++ s!"  Reservations: {stats.reservations} ({stats.reservedBytes} bytes)\n"
    ++ s!"  Commits: {stats.commits} ({stats.committedBytes} bytes)\n"
    ++ s!"  Cold commits: {stats.coldCommits}\n"
    ++ s!"  Funclet commits: {stats.funcletCommits}\n"
    ++ if 0 < stats.fakeSplitCommits then s!"  Fake split commits: {stats.fakeSplitCommits}\n"
      else ""

end Stats

/-- A session. -/
structure Session where
  stats : Stats := {}
  /-- The name of the function being compiled, once it is known. -/
  name? : Option String := none
  deriving DecidableEq, Repr

namespace Session

/-- The name of the function being compiled. -/
def name (session : Session) : String := session.name?.getD "<unnamed>"

def setName (session : Session) (name : String) : Session := { session with name? := some name }

/-- Forget the counts and the name. -/
def clear (_ : Session) : Session := {}

end Session

end StackUnwind
