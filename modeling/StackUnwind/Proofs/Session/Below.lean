import StackUnwind.Proofs.Session.Counts

namespace StackUnwind

namespace Stats

variable {stats stats' next last : Stats} {kind : Kind} {region : Region} {size size' size'' : UInt64}

/-- The counts of a session: everything that they hold has been counted. -/
inductive Counted : Stats → Prop where
  | start : Counted {}
  | reservation {stats next : Stats} {size : UInt64} (h : Counted stats)
      (hrecord : stats.recordReservation size = .ok next) : Counted next
  | commit {stats next : Stats} {kind : Kind} {region : Region} {size : UInt64} (h : Counted stats)
      (hrecord : stats.recordCommit kind region size = .ok next) : Counted next
  | fakeSplitCommit {stats next : Stats} {size : UInt64} (h : Counted stats)
      (hrecord : stats.recordFakeSplitCommit size = .ok next) : Counted next

/-- Counts that leave as much room as others. More of the commits may be of whole units. -/
structure Below (stats' stats : Stats) : Prop where
  reservations : stats'.reservations.toNat ≤ stats.reservations.toNat
  reservedBytes : stats'.reservedBytes.toNat ≤ stats.reservedBytes.toNat
  commits : stats'.commits.toNat ≤ stats.commits.toNat
  committedBytes : stats'.committedBytes.toNat ≤ stats.committedBytes.toNat
  coldCommits : stats'.coldCommits.toNat ≤ stats.coldCommits.toNat
  funcletCommits : stats'.funcletCommits.toNat ≤ stats.funcletCommits.toNat
  fakeSplitCommits : stats'.fakeSplitCommits.toNat ≤ stats.commits.toNat

/-- Every commit of a whole unit counts as a commit, too. -/
theorem Counted.below_self (h : stats.Counted) : stats.Below stats := by
  refine ⟨le_rfl, le_rfl, le_rfl, le_rfl, le_rfl, le_rfl, ?_⟩
  induction h with
  | start => exact le_rfl
  | reservation _ hrecord ih =>
    obtain ⟨reservations, reservedBytes, -, -, rfl⟩ := recordReservation_eq_ok_iff.1 hrecord
    exact ih
  | commit _ hrecord ih =>
    obtain ⟨commits, committedBytes, coldCommits, funcletCommits, hcommits, -, -, -, rfl⟩ :=
      recordCommit_eq_ok_iff.1 hrecord
    dsimp only
    omega
  | fakeSplitCommit _ hrecord ih =>
    obtain ⟨_, fakeSplitCommits, hcommit, hfake, rfl⟩ := recordFakeSplitCommit_eq_ok_iff.1 hrecord
    obtain ⟨commits, committedBytes, coldCommits, funcletCommits, hcommits, -, -, -, rfl⟩ :=
      recordCommit_eq_ok_iff.1 hcommit
    dsimp only at hfake ⊢
    omega

namespace Below

/-- A reservation that can be counted can be counted below, too, if it is not larger there. -/
theorem recordReservation (h : stats'.Below stats) (hsize : size'.toNat ≤ size.toNat)
    (hrecord : stats.recordReservation size = .ok next) :
    ∃ next', stats'.recordReservation size' = .ok next' ∧ next'.Below next := by
  obtain ⟨reservations, reservedBytes, hcount, hbytes, rfl⟩ := recordReservation_eq_ok_iff.1 hrecord
  obtain ⟨hreservations, hreserved, hcommits, hcommitted, hcold, hfunclet, hfake⟩ := h
  have hcountLt := reservations.toNat_lt
  have hbytesLt := reservedBytes.toNat_lt
  obtain ⟨reservations', hcount'⟩ := @exists_toNat_eq (stats'.reservations.toNat + 1) (by omega)
  obtain ⟨reservedBytes', hbytes'⟩ := @exists_toNat_eq (stats'.reservedBytes.toNat + size'.toNat) (by omega)
  refine ⟨_, recordReservation_eq_ok_iff.2 ⟨reservations', reservedBytes', hcount', hbytes', rfl⟩, ?_⟩
  constructor
  case reservations =>
    dsimp only
    omega
  case reservedBytes =>
    dsimp only
    omega
  all_goals assumption

/-- Counting one more reservation leaves less room. -/
theorem of_recordReservation (h : stats'.Below stats) (hrecord : stats.recordReservation size = .ok next) :
    stats'.Below next := by
  obtain ⟨reservations, reservedBytes, hcount, hbytes, rfl⟩ := recordReservation_eq_ok_iff.1 hrecord
  obtain ⟨hreservations, hreserved, hcommits, hcommitted, hcold, hfunclet, hfake⟩ := h
  constructor
  case reservations =>
    dsimp only
    omega
  case reservedBytes =>
    dsimp only
    omega
  all_goals assumption

/-- A commit of no more bytes can be counted wherever the other one can be. -/
theorem recordCommit (h : stats'.Below stats) (hsize : size'.toNat ≤ size.toNat)
    (hrecord : stats.recordCommit kind region size = .ok next) :
    ∃ next', stats'.recordCommit kind region size' = .ok next' ∧ next'.Below next := by
  obtain ⟨commits, committedBytes, coldCommits, funcletCommits, hcount, hbytes, hcoldCount, hfuncletCount, rfl⟩ :=
    recordCommit_eq_ok_iff.1 hrecord
  obtain ⟨hreservations, hreserved, hcommits, hcommitted, hcold, hfunclet, hfake⟩ := h
  have hcountLt := commits.toNat_lt
  have hbytesLt := committedBytes.toNat_lt
  have hcoldLt := coldCommits.toNat_lt
  have hfuncletLt := funcletCommits.toNat_lt
  obtain ⟨commits', hcount'⟩ := @exists_toNat_eq (stats'.commits.toNat + 1) (by omega)
  obtain ⟨committedBytes', hbytes'⟩ := @exists_toNat_eq (stats'.committedBytes.toNat + size'.toNat) (by omega)
  obtain ⟨coldCommits', hcoldCount'⟩ :=
    @exists_toNat_eq (stats'.coldCommits.toNat + if region.isCold then 1 else 0) (by omega)
  obtain ⟨funcletCommits', hfuncletCount'⟩ :=
    @exists_toNat_eq (stats'.funcletCommits.toNat + if kind.isFunclet then 1 else 0) (by omega)
  refine ⟨_, recordCommit_eq_ok_iff.2 ⟨commits', committedBytes', coldCommits', funcletCommits', hcount', hbytes',
    hcoldCount', hfuncletCount', rfl⟩, hreservations, hreserved, ?_, ?_, ?_, ?_, ?_⟩
  all_goals
    dsimp only
    omega

/-- Counting one more commit of cold code leaves less room. -/
theorem of_recordCommit (h : stats'.Below stats) (hrecord : stats.recordCommit kind region size = .ok next) :
    stats'.Below next := by
  obtain ⟨commits, committedBytes, coldCommits, funcletCommits, hcount, hbytes, hcoldCount, hfuncletCount, rfl⟩ :=
    recordCommit_eq_ok_iff.1 hrecord
  obtain ⟨hreservations, hreserved, hcommits, hcommitted, hcold, hfunclet, hfake⟩ := h
  refine ⟨hreservations, hreserved, ?_, ?_, ?_, ?_, ?_⟩
  all_goals
    dsimp only
    omega

/-- There is always room to count a commit as one of a whole unit. -/
theorem recordFakeSplitCommit_of_recordCommit (h : stats'.Below stats) (hsize : size'.toNat ≤ size.toNat)
    (hrecord : stats.recordCommit .root .hot size = .ok next) :
    ∃ next', stats'.recordFakeSplitCommit size' = .ok next' ∧ next'.Below next := by
  obtain ⟨next', hrecord', hbelow⟩ := h.recordCommit hsize hrecord
  obtain ⟨commits, committedBytes, coldCommits, funcletCommits, hcount, -, -, -, rfl⟩ :=
    recordCommit_eq_ok_iff.1 hrecord
  obtain ⟨commits', committedBytes', coldCommits', funcletCommits', -, -, -, -, rfl⟩ :=
    recordCommit_eq_ok_iff.1 hrecord'
  have hfake := h.fakeSplitCommits
  have hcountLt := commits.toNat_lt
  obtain ⟨fakeSplitCommits, hfake'⟩ := @exists_toNat_eq (stats'.fakeSplitCommits.toNat + 1) (by omega)
  refine ⟨_, recordFakeSplitCommit_eq_ok_iff.2 ⟨_, fakeSplitCommits, hrecord', hfake', rfl⟩, ?_⟩
  obtain ⟨hreservations, hreserved, hcommits, hcommitted, hcold, hfunclet, -⟩ := hbelow
  refine ⟨hreservations, hreserved, hcommits, hcommitted, hcold, hfunclet, ?_⟩
  dsimp only
  omega

/-- So can one of a whole unit. -/
theorem recordFakeSplitCommit (h : stats'.Below stats) (hsize : size'.toNat ≤ size.toNat)
    (hrecord : stats.recordFakeSplitCommit size = .ok next) :
    ∃ next', stats'.recordFakeSplitCommit size' = .ok next' ∧ next'.Below next := by
  obtain ⟨_, fakeSplitCommits, hcommit, -, rfl⟩ := recordFakeSplitCommit_eq_ok_iff.1 hrecord
  obtain ⟨next', hrecord', hreservations, hreserved, hcommits, hcommitted, hcold, hfunclet, hfake⟩ :=
    h.recordFakeSplitCommit_of_recordCommit hsize hcommit
  exact ⟨next', hrecord', hreservations, hreserved, hcommits, hcommitted, hcold, hfunclet, hfake⟩

end Below

end Stats

end StackUnwind
