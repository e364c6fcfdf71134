import StackUnwind.Bytes
import StackUnwind.Host

/-!
A host that accepts every request and keeps it.
-/

namespace StackUnwind

/-- The requests a host has accepted, in order. -/
structure Ledger where
  reservations : List Reservation := []
  commits : List Commit := []
  deriving DecidableEq, Repr

namespace Reservation

/-- A reservation as one line of a ledger. -/
def describe (r : Reservation) : String :=
  let owner := if r.isFunclet then "funclet" else "root"
  let region := if r.isCold then "cold" else "hot"
  s!"{owner} {region} {r.size} bytes"

end Reservation

namespace Commit

/-- A commit as one line of a ledger. -/
def describe (c : Commit) : String :=
  let cold := match c.coldBase with
    | some base => hexNumber base.toNat
    | none => "-"
  s!"{c.kind.name} {c.range.describe} hot={hexNumber c.hotBase.toNat} cold={cold} "
    ++ s!"payload={hexBytes c.payload}"

end Commit

namespace Ledger

/-- The ledger with one more reservation. -/
def reserve (ledger : Ledger) (r : Reservation) : Ledger :=
  { ledger with reservations := ledger.reservations ++ [r] }

/-- The ledger with one more commit. -/
def commit (ledger : Ledger) (c : Commit) : Ledger :=
  { ledger with commits := ledger.commits ++ [c] }

/-- The host that accepts everything. -/
def host : Host Ledger where
  reserve r := modify (·.reserve r)
  commit c := modify (·.commit c)

/-- The number of bytes reserved. -/
def reservedBytes (ledger : Ledger) : Except Fault UInt64 :=
  ledger.reservations.foldlM (fun total r => word64 .add (total.toNat + r.size.toNat)) 0

/-- Numbered lines, counting from the given number. -/
def numbered (first : Nat) : List String → String
  | [] => ""
  | line :: lines => s!"  #{first}: {line}\n" ++ numbered (first + 1) lines

/-- The ledger as a text, one line for each request. -/
def text (ledger : Ledger) : String :=
  "Reservations:\n" ++ numbered 0 (ledger.reservations.map Reservation.describe)
    ++ "Commits:\n" ++ numbered 0 (ledger.commits.map Commit.describe)

end Ledger

end StackUnwind
