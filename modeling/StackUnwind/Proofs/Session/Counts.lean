import StackUnwind.Proofs.Outcome
import StackUnwind.Session

namespace StackUnwind

/-- A number below the bound is one of a word. -/
theorem exists_toNat_eq {n : Nat} (h : n < 2 ^ 64) : ∃ w : UInt64, n = w.toNat :=
  ⟨.ofNat n, (UInt64.toNat_ofNat_of_lt' h).symm⟩

namespace Stats

variable {stats stats' : Stats} {region : Region} {kind : Kind} {size : UInt64} {fault : Fault}

/-- A reservation is counted exactly if neither counter overflows. -/
theorem recordReservation_eq_ok_iff :
    stats.recordReservation size = .ok stats' ↔
      ∃ reservations reservedBytes, stats.reservations.toNat + 1 = reservations.toNat ∧
        stats.reservedBytes.toNat + size.toNat = reservedBytes.toNat ∧
        stats' = { stats with reservations, reservedBytes } := by
  simp only [recordReservation, increment, bind_eq_ok_iff, word64_eq_ok_iff, pure_eq_ok_iff, exists_and_left]

/-- Nothing but an overflow keeps it from being counted. -/
theorem recordReservation_eq_error (h : stats.recordReservation size = .error fault) : fault = .overflow .add := by
  simp only [recordReservation, increment, bind_eq_error_iff, word64_eq_error_iff, pure_eq_error_iff, and_false,
    exists_false, or_false] at h
  obtain ⟨-, rfl⟩ | ⟨-, -, -, rfl⟩ := h
  · rfl
  · rfl

/-- A count that only some requests add to. -/
theorem bind_increment_if_eq_ok_iff {b : Bool} {count : UInt64} {rest : UInt64 → Except Fault Stats} :
    (if b then increment count >>= rest else .ok count >>= rest) = .ok stats' ↔
      ∃ count', count.toNat + (if b then 1 else 0) = count'.toNat ∧ rest count' = .ok stats' := by
  cases b with
  | false => simp [bind_eq_ok_iff, UInt64.toNat_inj]
  | true => simp [increment, bind_eq_ok_iff, word64_eq_ok_iff]

/-- A commit is counted exactly if no counter overflows. -/
theorem recordCommit_eq_ok_iff :
    stats.recordCommit kind region size = .ok stats' ↔
      ∃ commits committedBytes coldCommits funcletCommits,
        stats.commits.toNat + 1 = commits.toNat ∧ stats.committedBytes.toNat + size.toNat = committedBytes.toNat ∧
        stats.coldCommits.toNat + (if region.isCold then 1 else 0) = coldCommits.toNat ∧
        stats.funcletCommits.toNat + (if kind.isFunclet then 1 else 0) = funcletCommits.toNat ∧
        stats' = { stats with commits, committedBytes, coldCommits, funcletCommits } := by
  simp only [recordCommit, bind_eq_ok_iff, bind_increment_if_eq_ok_iff, pure_eq_ok_iff, exists_and_left]
  simp only [increment, word64_eq_ok_iff]

/-- A commit of a whole unit is counted as one of hot code, and once more by itself. -/
theorem recordFakeSplitCommit_eq_ok_iff :
    stats.recordFakeSplitCommit size = .ok stats' ↔
      ∃ stats'' fakeSplitCommits, stats.recordCommit .root .hot size = .ok stats'' ∧
        stats''.fakeSplitCommits.toNat + 1 = fakeSplitCommits.toNat ∧ stats' = { stats'' with fakeSplitCommits } := by
  simp only [recordFakeSplitCommit, bind_eq_ok_iff, increment, word64_eq_ok_iff, pure_eq_ok_iff, exists_and_left]

end Stats

end StackUnwind
