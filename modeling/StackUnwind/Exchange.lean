import StackUnwind.Host
import StackUnwind.Message
import StackUnwind.Session

/-!
Requests to a host, with the session counting what the host accepts. What has been accepted and
traced before an error or a fault stays so.
-/

namespace StackUnwind

/-- The state of dealing with a host. -/
structure Exchange (σ : Type) where
  host : σ
  session : Session := {}
  /-- What has been traced, latest last. -/
  log : List Message := []

/-- Dealing with a host, which an error or a fault may stop. -/
abbrev ExchangeM (σ : Type) := EStateM (Stop UnwindError) (Exchange σ)

namespace Exchange

variable {σ : Type}

/-- Trace a message under the name of the session. -/
def trace (text : String) : ExchangeM σ Unit :=
  modify fun x => { x with log := x.log ++ [⟨.debug, s!"{x.session.name}: {text}"⟩] }

/-- Run the host, whose refusal is an error. -/
def ask (request : EStateM UnwindError σ Unit) : ExchangeM σ Unit :=
  onPart Exchange.host (fun x host => { x with host }) .error request

/-- Count in the session. -/
def count (update : Stats → Except Fault Stats) : ExchangeM σ Unit := do
  let x ← get
  let stats ← update x.session.stats
  set { x with session := { x.session with stats } }

end Exchange

end StackUnwind
