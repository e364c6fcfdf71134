import StackUnwind.Host.Ledger
import StackUnwind.Proofs.Exchange.Errand
import StackUnwind.Proofs.Session.Counts

namespace StackUnwind

namespace Stats

/-- Whether each count can still grow by `n`. -/
structure Room (stats : Stats) (n : Nat) : Prop where
  reservations : stats.reservations.toNat + n < 2 ^ 64
  reservedBytes : stats.reservedBytes.toNat + n < 2 ^ 64
  commits : stats.commits.toNat + n < 2 ^ 64
  committedBytes : stats.committedBytes.toNat + n < 2 ^ 64
  coldCommits : stats.coldCommits.toNat + n < 2 ^ 64
  funcletCommits : stats.funcletCommits.toNat + n < 2 ^ 64
  fakeSplitCommits : stats.fakeSplitCommits.toNat + n < 2 ^ 64

variable {stats : Stats} {n m : Nat}

/-- Room for more is room for less. -/
theorem Room.mono (h : stats.Room n) (hle : m ≤ n) : stats.Room m := by
  obtain ⟨hreservations, hreserved, hcommits, hcommitted, hcold, hfunclet, hfake⟩ := h
  constructor <;> omega

/-- A reservation for which there is room is counted and takes up its size. -/
theorem recordReservation_of_room {size : UInt64} (hsize : 1 ≤ size.toNat) (h : stats.Room (size.toNat + n)) :
    ∃ stats', stats.recordReservation size = .ok stats' ∧ stats'.Room n := by
  obtain ⟨hreservations, hreserved, hcommits, hcommitted, hcold, hfunclet, hfake⟩ := h
  obtain ⟨reservations, hcount⟩ := @exists_toNat_eq (stats.reservations.toNat + 1) (by omega)
  obtain ⟨reservedBytes, hbytes⟩ := @exists_toNat_eq (stats.reservedBytes.toNat + size.toNat) (by omega)
  refine ⟨_, recordReservation_eq_ok_iff.2 ⟨reservations, reservedBytes, hcount, hbytes, rfl⟩, ?_⟩
  constructor <;> simp only [← hcount, ← hbytes] <;> omega

/-- So is a commit. -/
theorem recordCommit_of_room (kind : Kind) (region : Region) {size : UInt64} (hsize : 1 ≤ size.toNat)
    (h : stats.Room (size.toNat + n)) :
    ∃ stats', stats.recordCommit kind region size = .ok stats' ∧ stats'.Room n := by
  obtain ⟨hreservations, hreserved, hcommits, hcommitted, hcold, hfunclet, hfake⟩ := h
  have hle (b : Bool) : (if b then 1 else 0) ≤ 1 := by cases b <;> decide
  have hcoldLe := hle region.isCold
  have hfuncletLe := hle kind.isFunclet
  obtain ⟨commits, hcount⟩ := @exists_toNat_eq (stats.commits.toNat + 1) (by omega)
  obtain ⟨committedBytes, hbytes⟩ := @exists_toNat_eq (stats.committedBytes.toNat + size.toNat) (by omega)
  obtain ⟨coldCommits, hcoldCount⟩ :=
    @exists_toNat_eq (stats.coldCommits.toNat + if region.isCold then 1 else 0) (by omega)
  obtain ⟨funcletCommits, hfuncletCount⟩ :=
    @exists_toNat_eq (stats.funcletCommits.toNat + if kind.isFunclet then 1 else 0) (by omega)
  refine ⟨_, recordCommit_eq_ok_iff.2 ⟨commits, committedBytes, coldCommits, funcletCommits, hcount, hbytes,
    hcoldCount, hfuncletCount, rfl⟩, ?_⟩
  constructor <;> simp only [← hcount, ← hbytes, ← hcoldCount, ← hfuncletCount] <;> omega

end Stats

namespace Host

/-- A host that accepts every request. -/
def accepting {σ : Type} (onReserve : σ → Reservation → σ) (onCommit : σ → Commit → σ) : Host σ where
  reserve r := modify (onReserve · r)
  commit c := modify (onCommit · c)

end Host

namespace Ledger

/-- The ledger accepts everything and writes it down. -/
theorem host_eq_accepting : host = Host.accepting reserve commit := rfl

/-- The ledger refuses nothing. -/
theorem acceptsAll_host : host.AcceptsAll := by
  intro request s
  cases request <;> exact ⟨_, rfl⟩

/-- Reservations are written down in order. -/
theorem foldl_reserve (ledger : Ledger) (rs : List Reservation) :
    rs.foldl reserve ledger = { ledger with reservations := ledger.reservations ++ rs } := by
  induction rs generalizing ledger with
  | nil => simp
  | cons r rs ih => simp [ih, reserve]

/-- So are commits. -/
theorem foldl_commit (ledger : Ledger) (cs : List Commit) :
    cs.foldl commit ledger = { ledger with commits := ledger.commits ++ cs } := by
  induction cs generalizing ledger with
  | nil => simp
  | cons c cs ih => simp [ih, commit]

end Ledger

namespace Exchange

variable {σ α β : Type} {host : Host σ} {accept : σ → α → σ}

/-- Whether dealing with a host succeeds as long as each count of the session can grow by `cost`, and makes
    the given requests in order. -/
def Delivers (accept : σ → α → σ) (work : ExchangeM σ Unit) (cost : Nat) (requests : List α) : Prop :=
  ∀ (x : Exchange σ) (room : Nat), x.session.stats.Room (cost + room) →
    ∃ y, work x = .ok () y ∧ y.host = requests.foldl accept x.host ∧ y.session.stats.Room room

private theorem delivers_pure : Delivers accept (pure () : ExchangeM σ Unit) 0 [] := by
  intro x room hroom
  rw [Nat.zero_add] at hroom
  exact ⟨x, rfl, rfl, hroom⟩

/-- A cost may be estimated higher. -/
theorem Delivers.mono {work : ExchangeM σ Unit} {cost cost' : Nat} {requests : List α}
    (h : Delivers accept work cost requests) (hle : cost ≤ cost') : Delivers accept work cost' requests := by
  intro x room hroom
  exact h x room (hroom.mono (Nat.add_le_add_right hle room))

/-- Work done after other work delivers its requests after those of the other, at the cost of both. -/
theorem Delivers.seq {first second : ExchangeM σ Unit} {cost cost' : Nat} {requests requests' : List α}
    (h : Delivers accept first cost requests) (h' : Delivers accept second cost' requests') :
    Delivers accept (first >>= fun _ => second) (cost + cost') (requests ++ requests') := by
  intro x room hroom
  rw [Nat.add_assoc] at hroom
  obtain ⟨y, hfirst, hhost, hleft⟩ := h x (cost' + room) hroom
  obtain ⟨z, hsecond, hhost', hleft'⟩ := h' y room hleft
  refine ⟨z, run_bind_eq_ok_iff.2 ⟨(), y, hfirst, hsecond⟩, ?_, hleft'⟩
  rw [List.foldl_append, ← hhost, hhost']

/-- An errand whose request is accepted and counted. -/
theorem delivers_errand {request : HostRequest} {a : α} {tally : Stats → Except Fault Stats} {cost : Nat}
    (text : String) (hanswer : ∀ s, host.answer request s = .ok () (accept s a))
    (htally : ∀ stats room, Stats.Room stats (cost + room) → ∃ stats', tally stats = .ok stats' ∧ stats'.Room room) :
    Delivers accept (serve host [.ok { request, text, tally }]) cost [a] := by
  intro x room hroom
  obtain ⟨stats, hstats, hleft⟩ := htally _ _ hroom
  have hrun := Errand.run_eq { request, text, tally } host x
  simp only [hanswer, hstats] at hrun
  rw [serve_singleton]
  exact ⟨_, hrun, rfl, hleft⟩

/-- Work done for each of a list delivers the requests of all of them in order. -/
theorem delivers_flatMap {steps : β → List (Except (Stop UnwindError) Errand)} {cost : Nat} {requests : β → List α}
    {bs : List β} (h : ∀ b ∈ bs, Delivers accept (serve host (steps b)) cost (requests b)) :
    Delivers accept (serve host (bs.flatMap steps)) (bs.length * cost) (bs.flatMap requests) := by
  induction bs with
  | nil =>
    rw [List.length_nil, Nat.zero_mul]
    exact delivers_pure
  | cons b bs ih =>
    have hrest := ih fun b' hmem => h b' (.tail _ hmem)
    rw [List.length_cons, Nat.succ_mul, Nat.add_comm, List.flatMap_cons, serve_append]
    exact (h b (.head _)).seq hrest

end Exchange

end StackUnwind
