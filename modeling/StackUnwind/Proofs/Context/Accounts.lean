import StackUnwind.Host.Quota
import StackUnwind.Proofs.Context.Slots
import StackUnwind.Proofs.Exchange.Acceptance

namespace StackUnwind

namespace Context

variable {c : Context} {f : UnitFunction} {tracker : Tracker} {region : Region} {oracle : Oracle} {layout : UnitLayout}
  {e : Errand} {call : HostCall} {steps : List (Except (Stop UnwindError) Errand)}

/-- Whether the root of a unit is reported for all of its code in one piece. -/
def onePiece (c : Context) : Bool := c.settings.fakeSplittingActive c.functions.hasColdRegion

/-- The root of a unit that is committed in one piece is committed whole. -/
theorem planOf_of_onePiece (hmem : f ∈ c.functions.toList) (h : c.onePiece = true) (hkind : f.kind = .root) :
    c.planOf f = .fakeSplit := by
  obtain ⟨hfake, hcold⟩ := Bool.and_eq_true_iff.1 h
  rw [FunctionSet.hasColdRegion, ← eq_root_of_kind hmem hkind] at hcold
  rw [planOf, if_pos hcold, if_pos hfake]

/-- Only in such a unit is a function committed whole. -/
theorem onePiece_of_planOf (hmem : f ∈ c.functions.toList) (h : c.planOf f = .fakeSplit) : c.onePiece = true := by
  have hcold : f.cold.isSome = true := isSome_cold_of_planOf (by rw [h]; decide)
  rw [onePiece, FunctionSet.hasColdRegion, ← eq_root_of_cold hmem hcold, hcold]
  rw [planOf, if_pos hcold] at h
  split at h
  next hfake => rw [Settings.fakeSplittingActive, hfake]; rfl
  next => cases h

private theorem toNat_size_of_recordInfo {codeLength : UInt32} {info : UnwindInfo}
    (h : recordInfo tracker region codeLength = .ok info) :
    (UInt64.ofNat info.bytes.length).toNat = info.bytes.length := by
  obtain ⟨-, -, hlength⟩ := Recorder.of_info_eq_ok (recordInfo_eq_ok_iff.1 h)
  exact UInt64.toNat_ofNat_of_lt' (by simp only [UInt64.size]; omega)

private theorem tallies_reserveErrand : (reserveErrand f tracker region).Tallies c.onePiece := by
  intro stats stats' accepted hcounts htally
  exact hcounts.of_recordReservation htally

private theorem tallies_commitErrand (hmem : f ∈ c.functions.toList) (hplan : c.planOf f ≠ .fakeSplit)
    (hregion : region.isCold → layout.coldBase.isSome) (h : commitErrand oracle layout f tracker region = .ok e) :
    e.Tallies c.onePiece := by
  obtain ⟨range, info, -, hinfo, -, rfl⟩ := commitErrand_eq_ok_iff.1 h
  have hsize := toNat_size_of_recordInfo hinfo
  intro stats stats' accepted hcounts htally
  have hrecord : stats.recordCommit f.kind region (.ofNat info.bytes.length) = .ok stats' := htally
  refine hcounts.of_recordCommit hrecord hsize ?_ ?_
  · cases region with
    | hot => rfl
    | cold => exact (hregion rfl).symm
  · rw [if_neg, Nat.add_zero]
    rintro ⟨hone, hkind⟩
    exact hplan (planOf_of_onePiece hmem hone hkind)

private theorem tallies_wholeErrand (hmem : f ∈ c.functions.toList) (hplan : c.planOf f = .fakeSplit)
    (h : wholeErrand layout f tracker = .ok e) : e.Tallies c.onePiece := by
  have hroot : f.kind = .root := by
    rw [eq_root_of_cold hmem (isSome_cold_of_planOf (by rw [hplan]; decide)), c.functions.root_kind]
  simp only [wholeErrand, bind_eq_ok_iff, pure_eq_ok_iff] at h
  obtain ⟨info, hinfo, rfl⟩ := h
  have hsize := toNat_size_of_recordInfo hinfo
  intro stats stats' accepted hcounts htally
  obtain ⟨stats'', fakeSplitCommits, hrecord, hfake, rfl⟩ := Stats.recordFakeSplitCommit_eq_ok_iff.1 htally
  rw [← hroot] at hrecord
  refine hcounts.of_recordCommit hrecord hsize rfl ?_
  rw [← hfake, if_pos ⟨onePiece_of_planOf hmem hplan, hroot⟩]

/-- Whatever a call does at the host is counted as what it is. -/
theorem tallies_of_mem_schedule (h : c.schedule call = .ok steps) (hmem : .ok e ∈ steps) : e.Tallies c.onePiece := by
  cases call with
  | reserve =>
    obtain ⟨-, rfl⟩ := schedule_reserve_eq_ok_iff.1 h
    obtain ⟨_, hmem, ⟨⟩⟩ := List.mem_map.1 hmem
    obtain ⟨⟨f, tracker⟩, -, hmem⟩ := List.mem_flatMap.1 hmem
    obtain ⟨region, -, rfl⟩ := List.mem_map.1 hmem
    exact tallies_reserveErrand
  | commit oracle layout =>
    obtain ⟨⟨-, hbase, -⟩, rfl⟩ := schedule_commit_eq_ok_iff.1 h
    obtain ⟨⟨f, tracker⟩, hentry, hmem⟩ := List.mem_flatMap.1 hmem
    obtain ⟨hf, -⟩ := mem_of_mem_entries hentry
    have hmem : .ok e ∈ c.commitSteps oracle layout f tracker := hmem
    rw [commitSteps] at hmem
    cases hplan : c.planOf f with
    | hotOnly =>
      rw [hplan, List.mem_singleton] at hmem
      exact tallies_commitErrand hf (by rw [hplan]; decide) (by simp [Region.isCold]) hmem.symm
    | hotAndCold =>
      obtain ⟨span, hcold⟩ := Option.isSome_iff_exists.1 (isSome_cold_of_planOf (by rw [hplan]; decide))
      have hsome := isSome_coldBase_of_cold hf hbase hcold
      rw [hplan, List.mem_pair] at hmem
      obtain hmem | hmem := hmem
      · exact tallies_commitErrand hf (by rw [hplan]; decide) (fun _ => hsome) hmem.symm
      · exact tallies_commitErrand hf (by rw [hplan]; decide) (fun _ => hsome) hmem.symm
    | fakeSplit =>
      rw [hplan, List.mem_singleton] at hmem
      exact tallies_wholeErrand hf hplan hmem.symm

variable {σ : Type} {host : Host σ} {x : Exchange σ} {earlier : List HostRequest} {calls : List HostCall}

/-- The requests of several calls, each made in the state that the previous one left. -/
def allRequests (c : Context) (host : Host σ) (calls : List HostCall) (x : Exchange σ) : List HostRequest :=
  (c.callStates host calls x).flatMap fun (call, y) => c.requests host call y

private theorem callStates_append (c : Context) (host : Host σ) (calls more : List HostCall) (x : Exchange σ) :
    c.callStates host (calls ++ more) x =
      c.callStates host calls x ++ c.callStates host more (c.callAll host calls x) := by
  induction calls generalizing x with
  | nil => rfl
  | cons call calls ih =>
    rw [List.cons_append, callStates, callStates, ih, List.cons_append]
    rfl

private theorem perform_ends (hcounts : x.session.stats.Counts c.onePiece earlier)
    (hfaultless : ∀ fault, verdict (c.perform host call x) ≠ .error (.fault fault)) :
    host.Ends x.host (c.agenda call) (c.requests host call x) (verdict (c.perform host call x)) ∧
      (endState (c.perform host call x)).host = host.after x.host (c.requests host call x) ∧
      (endState (c.perform host call x)).session.stats.Counts c.onePiece
        (earlier ++ host.accepted x.host (c.requests host call x)) := by
  cases hschedule : c.schedule call with
  | error fault =>
    rw [perform_of_schedule_eq_error hschedule] at hfaultless
    exact absurd rfl (hfaultless fault)
  | ok steps =>
    rw [perform_of_schedule_eq_ok hschedule] at hfaultless ⊢
    rw [requests_eq_asked hschedule, ← map_request_schedule hschedule]
    exact Exchange.serve_ends (fun e hmem => tallies_of_mem_schedule hschedule hmem) hcounts hfaultless

private theorem callAll_ends (hcounts : x.session.stats.Counts c.onePiece earlier)
    (hfaultless : ∀ call y fault, (call, y) ∈ c.callStates host calls x →
      verdict (c.perform host call y) ≠ .error (.fault fault)) :
    (∀ call y, (call, y) ∈ c.callStates host calls x →
      host.Ends y.host (c.agenda call) (c.requests host call y) (verdict (c.perform host call y))) ∧
    (c.callAll host calls x).host = host.after x.host (c.allRequests host calls x) ∧
    (c.callAll host calls x).session.stats.Counts c.onePiece
      (earlier ++ host.accepted x.host (c.allRequests host calls x)) := by
  -- What is accepted during the first call counts as accepted earlier for the others.
  induction calls generalizing x earlier with
  | nil =>
    refine ⟨fun _ _ hmem => absurd hmem List.not_mem_nil, rfl, ?_⟩
    rw [allRequests, callStates, List.flatMap_nil, Host.accepted, List.append_nil]
    exact hcounts
  | cons call calls ih =>
    rw [callStates] at hfaultless
    obtain ⟨hends, hstate, hcount⟩ := perform_ends hcounts fun fault => hfaultless call x fault (.head _)
    obtain ⟨hends', hstate', hcount'⟩ := ih hcount fun call y fault hmem => hfaultless call y fault (.tail _ hmem)
    have hall : c.callAll host (call :: calls) x = c.callAll host calls (endState (c.perform host call x)) := rfl
    have hrequests : c.allRequests host (call :: calls) x =
        c.requests host call x ++ c.allRequests host calls (endState (c.perform host call x)) := rfl
    rw [hall, hrequests, Host.after_append, Host.accepted_append, ← List.append_assoc, ← hstate]
    refine ⟨?_, hstate', hcount'⟩
    intro call' y hmem
    obtain ⟨rfl, rfl⟩ | hmem := by simpa only [callStates, List.mem_cons, Prod.mk.injEq] using hmem
    · exact hends
    · exact hends' call' y hmem

/-- Unless there is a fault, a call asks the host for the records of the unit in order, up to and including the first
    request that is refused, or up to the first record that there is an obstacle to, and returns that error. Between
    calls the counts are those of what the host has accepted since they were cleared. -/
theorem calls_accounted (hclear : x.session.stats = {})
    (hfaultless : ∀ call y fault, (call, y) ∈ c.callStates host calls x →
      verdict (c.perform host call y) ≠ .error (.fault fault)) :
    c.slots.map (fun slot => (slot.function, slot.region)) =
      (c.functions.root, .hot) ::
        ((if c.functions.hasColdRegion ∧ c.settings.fakeSplitting = false then [(c.functions.root, .cold)] else []) ++
          c.functions.funclets.map fun f => (f, .hot)) ∧
    (∀ oracle layout slot, (∀ k, c.commitOf oracle layout slot = .ok k → ∀ e, ¬ c.Obstacle oracle slot e) ∧
      ∀ e, c.commitOf oracle layout slot = .error (.error e) → c.Obstacle oracle slot e) ∧
    (∀ call y, (call, y) ∈ c.callStates host calls x →
      host.Ends y.host (c.agenda call) (c.requests host call y) (verdict (c.perform host call y))) ∧
    ∀ before, before <+: calls →
      let made := c.allRequests host before x
      (c.callAll host.watched before (x.watching [])).host = (host.after x.host made, made) ∧
        (c.callAll host before x).session.stats.Counts c.onePiece (host.accepted x.host made) := by
  have hcounts : x.session.stats.Counts c.onePiece [] := by
    rw [hclear]
    exact Stats.counts_nil
  refine ⟨map_slots c, ?_, (callAll_ends hcounts hfaultless).1, ?_⟩
  · intro oracle layout slot
    exact ⟨fun k h e => not_obstacle_of_commitOf_eq_ok h, fun e => obstacle_of_commitOf_eq_error⟩
  · rintro before ⟨more, rfl⟩
    rw [callStates_append] at hfaultless
    obtain ⟨-, hstate, hcount⟩ :=
      callAll_ends hcounts fun call y fault hmem => hfaultless call y fault (List.mem_append_left _ hmem)
    refine ⟨?_, hcount⟩
    rw [callAll_watched, ← hstate, List.nil_append]
    rfl

/-- The storage is used up after the first record, and the last time a marker has no offset. -/
theorem calls_accounted_splitSample :
    let host := Quota.host { commits := some 1 }
    let commitment := .commit (sampleOracle 70 190) sampleLayout
    let unplaced := .commit (fun _ => none) sampleLayout
    let calls := [.reserve, commitment, unplaced]
    let hot : Commit := ⟨.root, 0x1000, none, ⟨0, 70⟩, [1, 5, 2, 0, 5, 50, 1, 80]⟩
    let cold : Commit := ⟨.root, 0x1000, some 0x2000, ⟨0, 90⟩, [33, 0, 0, 0]⟩
    let reservations := [⟨false, false, 8⟩, ⟨false, true, 4⟩, ⟨true, false, 4⟩]
    let x : Exchange QuotaState := { host := {} }
    (∀ call y fault, (call, y) ∈ splitSample.callStates host calls x →
      verdict (splitSample.perform host call y) ≠ .error (.fault fault)) ∧
    ∃ y z, (commitment, y) ∈ splitSample.callStates host calls x ∧
      host.Ends y.host (splitSample.agenda commitment) [.commit hot, .commit cold]
        (.error (.error (.commitRefused "out of memory"))) ∧
      (unplaced, z) ∈ splitSample.callStates host calls x ∧
      host.Ends z.host (splitSample.agenda unplaced) [] (.error (.error (.unresolved ⟨0⟩))) ∧
      (splitSample.callAll host calls x).session.stats.Counts false
        (reservations.map .reserve ++ [.commit hot]) := by
  intro host commitment unplaced calls hot cold reservations x
  let y := endState (splitSample.perform host .reserve x)
  let z := endState (splitSample.perform host commitment y)
  have hfirst : verdict (splitSample.perform host .reserve x) = .ok () := by decide +kernel
  have hsecond : verdict (splitSample.perform host commitment y) =
      .error (.error (.commitRefused "out of memory")) := by decide +kernel
  have hthird : verdict (splitSample.perform host unplaced z) = .error (.error (.unresolved ⟨0⟩)) := by decide +kernel
  have hstates : splitSample.callStates host calls x = [(.reserve, x), (commitment, y), (unplaced, z)] := rfl
  have hrequests : splitSample.requests host commitment y = [.commit hot, .commit cold] := by decide +kernel
  have hrequests' : splitSample.requests host unplaced z = [] := by decide +kernel
  have haccepted : host.accepted x.host (splitSample.allRequests host calls x) =
      reservations.map .reserve ++ [.commit hot] := by decide +kernel
  have hone : splitSample.onePiece = false := rfl
  clear_value y z
  have hfaultless : ∀ call y fault, (call, y) ∈ splitSample.callStates host calls x →
      verdict (splitSample.perform host call y) ≠ .error (.fault fault) := by
    intro call y' fault hmem
    rw [hstates] at hmem
    simp only [List.mem_cons, List.not_mem_nil, or_false, Prod.mk.injEq] at hmem
    obtain ⟨rfl, rfl⟩ | ⟨rfl, rfl⟩ | ⟨rfl, rfl⟩ := hmem
    · simp [hfirst]
    · simp [hsecond]
    · simp [hthird]
  obtain ⟨-, -, hends, hcounts⟩ := calls_accounted rfl hfaultless
  have hmem : (commitment, y) ∈ splitSample.callStates host calls x := by simp [hstates]
  have hmem' : (unplaced, z) ∈ splitSample.callStates host calls x := by simp [hstates]
  refine ⟨hfaultless, y, z, hmem, ?_, hmem', ?_, ?_⟩
  · rw [← hrequests, ← hsecond]
    exact hends _ _ hmem
  · rw [← hrequests', ← hthird]
    exact hends _ _ hmem'
  · obtain ⟨-, hcount⟩ := hcounts calls List.prefix_rfl
    rwa [haccepted, hone] at hcount

end Context

end StackUnwind
