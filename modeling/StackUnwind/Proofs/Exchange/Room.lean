import StackUnwind.Proofs.Exchange.Delivery
import StackUnwind.Proofs.Exchange.Faults

namespace StackUnwind

/-- The number of bytes that a request is about. -/
def HostRequest.size : HostRequest → UInt64
  | .reserve r => r.size
  | .commit k => .ofNat k.payload.length

namespace Stats

variable {stats : Stats} {onePiece : Bool} {request : HostRequest} {size : UInt64} {n : Nat} {fault : Fault}

private theorem recordFakeSplitCommit_of_room (hsize : 1 ≤ size.toNat) (h : stats.Room (size.toNat + n)) :
    ∃ stats', stats.recordFakeSplitCommit size = .ok stats' ∧ stats'.Room n := by
  obtain ⟨stats', hrecord, hroom⟩ := recordCommit_of_room .root .hot hsize h
  obtain ⟨_, _, _, _, -, -, -, -, heq⟩ := recordCommit_eq_ok_iff.1 hrecord
  have hsame : stats'.fakeSplitCommits = stats.fakeSplitCommits := by rw [heq]
  have hfake := h.fakeSplitCommits
  obtain ⟨fakeSplitCommits, hcount⟩ := @exists_toNat_eq (stats'.fakeSplitCommits.toNat + 1) (by rw [hsame]; omega)
  refine ⟨_, recordFakeSplitCommit_eq_ok_iff.2 ⟨stats', fakeSplitCommits, hrecord, hcount, rfl⟩, ?_⟩
  refine ⟨hroom.reservations, hroom.reservedBytes, hroom.commits, hroom.committedBytes, hroom.coldCommits,
    hroom.funcletCommits, ?_⟩
  rw [hsame] at hcount
  simp only [← hcount]
  omega

/-- An accepted request adds no more to any count than its size. -/
theorem count_of_room (hsize : 1 ≤ request.size.toNat) (h : stats.Room (request.size.toNat + n)) :
    ∃ stats', stats.count onePiece request = .ok stats' ∧ stats'.Room n := by
  cases request with
  | reserve r => exact recordReservation_of_room hsize h
  | commit k =>
    simp only [count]
    split
    · exact recordFakeSplitCommit_of_room hsize h
    · exact recordCommit_of_room _ _ hsize h

private theorem increment_eq_error {count : UInt64} (h : increment count = .error fault) : fault = .overflow .add :=
  (word64_eq_error_iff.1 h).2

private theorem bind_increment_if_eq_error {b : Bool} {count : UInt64} {rest : UInt64 → Except Fault Stats}
    (h : (if b then increment count >>= rest else .ok count >>= rest) = .error fault) :
    fault = .overflow .add ∨ ∃ count', rest count' = .error fault := by
  cases b with
  | false => exact .inr ⟨count, h⟩
  | true =>
    obtain h | ⟨count', -, h⟩ := bind_eq_error_iff.1 h
    · exact .inl (increment_eq_error h)
    · exact .inr ⟨count', h⟩

private theorem recordCommit_eq_error {kind : Kind} {region : Region}
    (h : stats.recordCommit kind region size = .error fault) :
    fault = .overflow .add := by
  obtain h | ⟨commits, -, h⟩ := bind_eq_error_iff.1 h
  · exact increment_eq_error h
  obtain h | ⟨committedBytes, -, h⟩ := bind_eq_error_iff.1 h
  · exact (word64_eq_error_iff.1 h).2
  obtain h | ⟨coldCommits, h⟩ := bind_increment_if_eq_error h
  · exact h
  obtain h | ⟨funcletCommits, h⟩ := bind_increment_if_eq_error h
  · exact h
  · cases h

/-- Counts can only overflow. -/
theorem count_eq_error (h : stats.count onePiece request = .error fault) : fault = .overflow .add := by
  cases request with
  | reserve r => exact recordReservation_eq_error h
  | commit k =>
    simp only [count] at h
    split at h
    · obtain h | ⟨stats', -, h⟩ := bind_eq_error_iff.1 h
      · exact recordCommit_eq_error h
      · obtain h | ⟨count, -, h⟩ := bind_eq_error_iff.1 h
        · exact increment_eq_error h
        · cases h
    · exact recordCommit_eq_error h

/-- There is room in a new session for what a word can count. -/
theorem room_iff_of_zero : Room {} n ↔ n < 2 ^ 64 := by
  constructor
  · intro h
    exact Nat.zero_add n ▸ h.commits
  · intro h
    rw [← Nat.zero_add n] at h
    exact ⟨h, h, h, h, h, h, h⟩

end Stats

/-- A ledger keeps the commits among the requests, in order. -/
theorem Ledger.commits_after_host (ledger : Ledger) (made : List HostRequest) :
    (host.after ledger made).commits = ledger.commits ++ made.filterMap HostRequest.commit? := by
  induction made generalizing ledger with
  | nil => exact (List.append_nil _).symm
  | cons request made ih =>
    cases request with
    | reserve r =>
      have hanswer : host.answer (.reserve r) ledger = .ok () (ledger.reserve r) := rfl
      rw [Host.after_cons_of_ok hanswer, ih]
      rfl
    | commit k =>
      have hanswer : host.answer (.commit k) ledger = .ok () (ledger.commit k) := rfl
      rw [Host.after_cons_of_ok hanswer, ih, List.filterMap_cons]
      exact List.append_assoc ledger.commits [k] _

/-- Whether an errand adds no more than `cost` to any count, and overflows where there is no room. -/
structure Errand.Costs (e : Errand) (cost : Nat) : Prop where
  tally_of_room : ∀ stats room, Stats.Room stats (cost + room) → ∃ stats', e.tally stats = .ok stats' ∧ stats'.Room room
  tally_eq_error : ∀ stats fault, e.tally stats = .error fault → fault = .overflow .add

variable {σ : Type} {host : Host σ} {steps : List (Except (Stop UnwindError) Errand)} {cost : Nat}

private theorem Errand.Costs.run {e : Errand} {x : Exchange σ} {s : σ} (h : e.Costs cost)
    (hanswer : host.answer e.request x.host = .ok () s) :
    (∃ y, e.run host x = .ok () y ∧ y.host = s ∧
      ∀ room, x.session.stats.Room (cost + room) → y.session.stats.Room room) ∨
    (∃ y, e.run host x = .error (.fault (.overflow .add)) y) ∧ ¬ x.session.stats.Room cost := by
  simp only [run_eq, hanswer]
  cases htally : e.tally x.session.stats with
  | error fault =>
    obtain rfl := h.tally_eq_error _ _ htally
    refine .inr ⟨⟨_, rfl⟩, fun hroom => ?_⟩
    obtain ⟨stats, hstats, -⟩ := h.tally_of_room _ 0 hroom
    rw [htally] at hstats
    cases hstats
  | ok stats =>
    refine .inl ⟨_, rfl, rfl, fun room hroom => ?_⟩
    obtain ⟨stats', hstats, hleft⟩ := h.tally_of_room _ room hroom
    rw [htally] at hstats
    cases hstats
    exact hleft

/-- With a host that accepts everything, errands come to their end, or are stopped by the first that cannot be made
    up. A count overflows only if there is no room for all of them. -/
theorem Exchange.serve_of_acceptsAll (haccepts : host.AcceptsAll) (hcosts : ∀ e, .ok e ∈ steps → e.Costs cost)
    (x : Exchange σ) :
    (∃ y, ∃ es : List Errand, serve host steps x = .ok () y ∧ steps = es.map .ok ∧
      y.host = host.after x.host (es.map Errand.request) ∧
      ∀ room, x.session.stats.Room (steps.length * cost + room) → y.session.stats.Room room) ∨
    ∃ stop y, serve host steps x = .error stop y ∧
      (.error stop ∈ steps ∨ stop = .fault (.overflow .add) ∧ ¬ x.session.stats.Room (steps.length * cost)) := by
  -- Each errand leaves a state with less room, so the induction is over all states.
  induction steps generalizing x with
  | nil => exact .inl ⟨x, [], rfl, rfl, rfl, fun room h => h.mono (Nat.le_add_left ..)⟩
  | cons step steps ih =>
    cases step with
    | error stop => exact .inr ⟨stop, x, rfl, .inl (.head _)⟩
    | ok e =>
      obtain ⟨s, hanswer⟩ := haccepts e.request x.host
      rw [serve_cons_ok, List.length_cons, Nat.succ_mul, Nat.add_comm _ cost]
      simp only [bind, EStateM.bind]
      obtain ⟨y, hrun, rfl, hleft⟩ | ⟨⟨y, hrun⟩, hnone⟩ := (hcosts e (.head _)).run hanswer
      · rw [hrun]
        obtain ⟨z, es, hz, rfl, hhost, hroom⟩ | ⟨stop, z, hz, hstop⟩ := ih (fun e' hmem => hcosts e' (.tail _ hmem)) y
        · refine .inl ⟨z, e :: es, hz, rfl, ?_, fun room h => hroom room (hleft _ (Nat.add_assoc .. ▸ h))⟩
          rw [hhost, List.map_cons, Host.after_cons_of_ok hanswer]
        · refine .inr ⟨stop, z, hz, hstop.imp (List.mem_cons_of_mem _) fun ⟨hoverflow, hnone⟩ => ⟨hoverflow, ?_⟩⟩
          exact fun h => hnone (hleft _ h)
      · rw [hrun]
        exact .inr ⟨_, y, rfl, .inr ⟨rfl, fun h => hnone (h.mono (Nat.le_add_right ..))⟩⟩

end StackUnwind
