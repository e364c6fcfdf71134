import StackUnwind.Host.Ledger

/-!
A host with limits. It accepts requests up to a number of each kind and keeps those it accepted;
it may also have no storage for records of cold code.
-/

namespace StackUnwind

/-- The limits of a host. -/
structure Quota where
  /-- The number of reservations that are accepted, if limited. -/
  reservations : Option Nat := none
  /-- The number of commits that are accepted, if limited. -/
  commits : Option Nat := none
  /-- Whether records of cold code are refused. -/
  rejectsCold : Bool := false
  deriving DecidableEq, Repr

/-- The state of a host with limits. What it accepted counts against the limits even when the
    ledger has been cleared since. -/
structure QuotaState where
  ledger : Ledger := {}
  reservations : Nat := 0
  commits : Nat := 0
  deriving DecidableEq, Repr

namespace Quota

/-- Whether one more request is accepted when `used` have been accepted. -/
def admits (limit : Option Nat) (used : Nat) : Bool :=
  match limit with
  | none => true
  | some limit => used < limit

/-- The host with the given limits. -/
def host (quota : Quota) : Host QuotaState where
  reserve r := do
    let s ← get
    if !admits quota.reservations s.reservations then
      throw (.reserveRefused "out of memory")
    set { s with ledger := s.ledger.reserve r, reservations := s.reservations + 1 }
  commit c := do
    let s ← get
    if quota.rejectsCold && c.coldBase.isSome then
      throw (.commitRefused "cold storage exhausted")
    if !admits quota.commits s.commits then
      throw (.commitRefused "out of memory")
    set { s with ledger := s.ledger.commit c, commits := s.commits + 1 }

end Quota

end StackUnwind
