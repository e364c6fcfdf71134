import StackUnwind.Proofs.Context.Described
import StackUnwind.Proofs.Exchange.Delivery

namespace StackUnwind

namespace Stats

variable {stats : Stats} {r : Reservation} {rs : List Reservation}

/-- Whether reservations can be counted on top of what has been counted. -/
structure HasRoomFor (stats : Stats) (rs : List Reservation) : Prop where
  reservations : stats.reservations.toNat + rs.length < 2 ^ 64
  reservedBytes : stats.reservedBytes.toNat + (rs.map fun r => r.size.toNat).sum < 2 ^ 64

/-- Room for several reservations is room for the first and, once it has been counted, for the others. -/
theorem hasRoomFor_cons_iff :
    stats.HasRoomFor (r :: rs) ↔ ∃ stats', stats.recordReservation r.size = .ok stats' ∧ stats'.HasRoomFor rs := by
  simp only [recordReservation_eq_ok_iff]
  constructor
  · rintro ⟨hcount, hbytes⟩
    rw [List.length_cons] at hcount
    rw [List.map_cons, List.sum_cons] at hbytes
    obtain ⟨reservations, hreservations⟩ := @exists_toNat_eq (stats.reservations.toNat + 1) (by omega)
    obtain ⟨reservedBytes, hreservedBytes⟩ := @exists_toNat_eq (stats.reservedBytes.toNat + r.size.toNat) (by omega)
    refine ⟨_, ⟨reservations, reservedBytes, hreservations, hreservedBytes, rfl⟩, ?_⟩
    constructor
    · rw [← hreservations]
      omega
    · rw [← hreservedBytes]
      omega
  · rintro ⟨_, ⟨reservations, reservedBytes, hreservations, hreservedBytes, rfl⟩, hcount, hbytes⟩
    dsimp only at hcount hbytes
    constructor
    · rw [List.length_cons]
      omega
    · rw [List.map_cons, List.sum_cons]
      omega

end Stats

namespace Exchange

variable {σ : Type} {host : Host σ}

/-- With a host that accepts everything, only the counts can stop a reservation. -/
theorem serve_reservations (haccepts : host.AcceptsAll) {es : List Errand} {rs : List Reservation}
    (h : List.Forall₂ (fun e r => e.request = .reserve r ∧ e.tally = fun stats => stats.recordReservation r.size) es rs)
    (x : Exchange σ) :
    (x.session.stats.HasRoomFor rs ∧ ∃ y, serve host (es.map .ok) x = .ok () y) ∨
      (¬ x.session.stats.HasRoomFor rs ∧ ∃ y, serve host (es.map .ok) x = .error (.fault (.overflow .add)) y) := by
  -- There is room for all errands exactly when there is room for the first and, after it, for the others.
  induction h generalizing x with
  | nil => exact .inl ⟨⟨x.session.stats.reservations.toNat_lt, x.session.stats.reservedBytes.toNat_lt⟩, x, rfl⟩
  | @cons e r es rs he htail ih =>
    obtain ⟨-, htally⟩ := he
    obtain ⟨s, hanswer⟩ := haccepts e.request x.host
    rw [List.map_cons, serve_cons_ok, Stats.hasRoomFor_cons_iff]
    cases hcount : x.session.stats.recordReservation r.size with
    | error fault =>
      obtain rfl := Stats.recordReservation_eq_error hcount
      refine .inr ⟨by simp, ?_⟩
      simp only [bind, EStateM.bind, Errand.run_eq, hanswer, htally, hcount]
      exact ⟨_, rfl⟩
    | ok stats =>
      obtain ⟨y, hrun, rfl⟩ : ∃ y, e.run host x = .ok () y ∧ y.session.stats = stats := by
        simp only [Errand.run_eq, hanswer, htally, hcount]
        exact ⟨_, rfl, rfl⟩
      simp only [bind, EStateM.bind, hrun, Except.ok.injEq, exists_eq_left']
      exact ih y

end Exchange

/-- Whether storage is what a commit takes. -/
structure Reservation.Fits (r : Reservation) (k : Commit) : Prop where
  isFunclet : r.isFunclet ↔ k.kind ≠ .root
  isCold : r.isCold ↔ k.coldBase.isSome
  size : r.size.toNat = k.payload.length

/-- A recorder announces the size of its records before the code is laid out. -/
theorem Commit.Carries.fits {k : Commit} {layout : UnitLayout} {f : UnitFunction} {tracker : Tracker} {region : Region}
    (h : k.Carries layout f tracker region) (hregion : region.isCold = k.coldBase.isSome) :
    (tracker.reservation f region).Fits k := by
  obtain ⟨-, hlength, hle⟩ := Recorder.of_info_eq_ok h.payload
  constructor
  · rw [h.kind]
    cases hkind : f.kind <;> simp [Tracker.reservation, UnitFunction.isFunclet, Kind.isFunclet, hkind]
  · rw [Tracker.reservation, hregion]
  · rw [hlength] at hle
    rw [Tracker.reservation, hlength]
    exact UInt64.toNat_ofNat_of_lt' (by simp only [UInt64.size]; omega)

namespace Context

variable {c : Context} {f : UnitFunction} {tracker : Tracker} {layout : UnitLayout} {oracle : Oracle}

private theorem Described.fits {ks : List Commit} (h : c.Described oracle layout f tracker ks) :
    List.Forall₂ Reservation.Fits ((c.regions f).map (tracker.reservation f)) ks := by
  cases h with
  | hotOnly hcold hot =>
    rw [regions_of_cold_eq_none hcold]
    exact .cons (hot.fits (by rw [hot.coldBase]; rfl)) .nil
  | hotAndCold hcold hfake hot cold =>
    rw [regions_of_split hcold hfake]
    exact .cons (hot.fits (by rw [hot.coldBase]; rfl)) (.cons (cold.fits (by rw [cold.isSome_coldBase]; rfl)) .nil)
  | fakeSplit hcold hfake whole =>
    rw [regions_of_fakeSplit hcold hfake]
    exact .cons (whole.fits (by rw [whole.coldBase]; rfl)) .nil

/-- The entries are those of the functions, in order. -/
theorem map_fst_entries (c : Context) : c.entries.map Prod.fst = c.functions.toList :=
  List.map_fst_zip (Nat.le_of_eq c.length_trackers.symm)

private theorem length_regions_funclet (hmem : f ∈ c.functions.funclets) : (c.regions f).length = 1 := by
  obtain ⟨-, hcold⟩ := c.functions.funclets_hot f hmem
  rw [regions_of_cold_eq_none hcold]
  rfl

private theorem length_regions_root (c : Context) : (c.regions c.functions.root).length =
    1 + if c.functions.hasColdRegion ∧ c.settings.fakeSplitting = false then 1 else 0 := by
  rw [FunctionSet.hasColdRegion, regions, planOf]
  cases c.functions.root.cold <;> cases c.settings.fakeSplitting <;> rfl

/-- There is one record for each function, and one more for a root with cold code that is not hidden. -/
theorem length_reservations (c : Context) : c.reservations.length =
    c.functions.size + if c.functions.hasColdRegion ∧ c.settings.fakeSplitting = false then 1 else 0 := by
  have hfunclets : (c.functions.funclets.map fun f => (c.regions f).length) = c.functions.funclets.map fun _ => 1 :=
    List.map_congr_left fun f hmem => length_regions_funclet hmem
  have hsum : c.reservations.length = (c.functions.toList.map fun f => (c.regions f).length).sum := by
    simp only [reservations, List.length_flatMap, List.length_map, ← map_fst_entries, List.map_map]
    rfl
  rw [hsum, FunctionSet.size, FunctionSet.toList, List.map_cons, List.sum_cons, hfunclets, length_regions_root,
    List.map_const', List.sum_replicate_nat, List.length_cons]
  omega

private theorem forall₂_reserveErrands (c : Context) :
    List.Forall₂ (fun e r => e.request = .reserve r ∧ e.tally = fun stats => stats.recordReservation r.size)
      c.reserveErrands c.reservations := by
  have hentries : List.Forall₂ Eq c.entries c.entries := List.forall₂_same.2 fun _ _ => rfl
  refine List.rel_flatMap hentries ?_
  rintro ⟨f, tracker⟩ _ rfl
  rw [List.forall₂_map_left_iff, List.forall₂_map_right_iff, List.forall₂_same]
  exact fun region _ => ⟨rfl, rfl⟩

private theorem map_request_reserveErrands (c : Context) :
    c.reserveErrands.map Errand.request = c.reservations.map .reserve := by
  refine List.forall₂_eq_eq_eq ▸ List.forall₂_map_left_iff.2 (List.forall₂_map_right_iff.2 ?_)
  exact (forall₂_reserveErrands c).imp fun _ _ h => h.1

variable {σ : Type} {host : Host σ} {x y : Exchange σ}

/-- With a host that accepts everything, storage for every record is asked for, unless the counters of the session
    overflow. -/
theorem reserve_requests (hclosed : ∀ t ∈ c.trackers, t.phase.isBracket = false) (haccepts : host.AcceptsAll)
    (x : Exchange σ) :
    (∃ y, c.reserve host x = .ok () y ∧ c.requests host .reserve x = c.reservations.map .reserve) ∨
      (¬ x.session.stats.HasRoomFor c.reservations ∧
        (∃ y, c.reserve host x = .error (.fault (.overflow .add)) y) ∧
        c.requests host .reserve x <+: c.reservations.map .reserve) := by
  have hschedule := schedule_reserve_eq_ok_iff.2 ⟨hclosed, rfl⟩
  have hperform : c.perform host .reserve = c.reserve host := rfl
  rw [perform_of_schedule_eq_ok hschedule] at hperform
  rw [← hperform, requests_eq_asked hschedule, ← map_request_reserveErrands]
  obtain ⟨-, y, hserve⟩ | ⟨hroom, y, hserve⟩ := Exchange.serve_reservations haccepts (forall₂_reserveErrands c) x
  · obtain ⟨es, hes, hasked⟩ := Exchange.exists_errands_of_serve hserve
    obtain rfl := List.map_injective_iff.2 (fun _ _ => Except.ok.inj) hes
    exact .inl ⟨y, hserve, hasked⟩
  · obtain ⟨es, hprefix, hasked⟩ := Exchange.exists_asked_eq host (c.reserveErrands.map .ok) x
    have hprefix : es <+: c.reserveErrands := (List.prefix_map_iff_of_injective fun _ _ => Except.ok.inj).1 hprefix
    rw [hasked]
    exact .inr ⟨hroom, ⟨y, hserve⟩, hprefix.map _⟩

/-- A commit asks for one record for each reservation, which fits it. -/
theorem commit_fits (h : c.commit host oracle layout x = .ok () y) :
    ∃ ks : List Commit, c.requests host (.commit oracle layout) x = ks.map .commit ∧
      List.Forall₂ Reservation.Fits c.reservations ks := by
  have hperform : c.perform host (.commit oracle layout) x = .ok () y := h
  obtain ⟨es, hschedule, hrequests⟩ := exists_errands_of_perform hperform
  obtain ⟨⟨-, hbase, -⟩, hsteps⟩ := schedule_commit_eq_ok_iff.1 hschedule
  obtain ⟨kss, hkss, hdescribed⟩ :=
    exists_described_flatMap (fun entry hentry => (mem_of_mem_entries hentry).1) hbase hsteps.symm
  refine ⟨kss.flatten, hrequests.trans hkss, List.rel_flatten (List.forall₂_map_left_iff.2 ?_)⟩
  exact hdescribed.imp fun _ _ h => h.fits

/-- However often and in whatever order a unit is reserved and committed, the host is asked for nothing but what each
    call asks for. Each reservation makes the same requests, unless the counts overflow, and each commitment that comes
    to its end makes one commit for each of these requests, in the same order, that takes exactly the storage asked
    for. -/
theorem reservation_symmetric (hclosed : ∀ t ∈ c.trackers, t.phase.isBracket = false) (haccepts : host.AcceptsAll)
    (calls : List HostCall) (x : Exchange σ) :
    c.reservations.length =
      c.functions.size + (if c.functions.hasColdRegion ∧ c.settings.fakeSplitting = false then 1 else 0) ∧
    (c.callAll host.watched calls (x.watching [])).host.2 =
      ((c.callStates host calls x).flatMap fun (call, y) => c.requests host call y) ∧
    (∀ y, (.reserve, y) ∈ c.callStates host calls x →
      (∃ z, c.reserve host y = .ok () z ∧ c.requests host .reserve y = c.reservations.map .reserve) ∨
      (¬ y.session.stats.HasRoomFor c.reservations ∧
        (∃ z, c.reserve host y = .error (.fault (.overflow .add)) z) ∧
        c.requests host .reserve y <+: c.reservations.map .reserve)) ∧
    ∀ oracle layout y z, (.commit oracle layout, y) ∈ c.callStates host calls x →
      c.commit host oracle layout y = .ok () z →
      ∃ ks : List Commit, c.requests host (.commit oracle layout) y = ks.map .commit ∧
        List.Forall₂ Reservation.Fits c.reservations ks := by
  refine ⟨length_reservations c, ?_, fun y _ => reserve_requests hclosed haccepts y, ?_⟩
  · rw [callAll_watched, List.nil_append]
    rfl
  · intro oracle layout y z _ hcommit
    exact commit_fits hcommit

/-- The sample is reserved, committed and reserved again. -/
theorem reservation_symmetric_splitSample :
    let commitment := .commit (sampleOracle 70 190) sampleLayout
    let reservations := [⟨false, false, 8⟩, ⟨false, true, 4⟩, ⟨true, false, 4⟩]
    ∃ y z y' z', splitSample.callStates Ledger.host [.reserve, commitment, .reserve] { host := {} } =
        [(.reserve, { host := {} }), (commitment, y), (.reserve, y')] ∧
      splitSample.perform Ledger.host commitment y = .ok () z ∧
      splitSample.perform Ledger.host .reserve y' = .ok () z' ∧
      splitSample.requests Ledger.host .reserve y' = reservations.map .reserve ∧
      ∃ ks : List Commit, splitSample.requests Ledger.host commitment y = ks.map .commit ∧
        List.Forall₂ Reservation.Fits reservations ks := by
  intro commitment reservations
  have hclosed : ∀ t ∈ splitSample.trackers, t.phase.isBracket = false := by decide
  have hreservations : splitSample.reservations = reservations := by decide
  obtain ⟨-, -, hreserve, hcommit⟩ :=
    reservation_symmetric hclosed Ledger.acceptsAll_host [.reserve, commitment, .reserve] { host := {} }
  let y := endState (splitSample.perform Ledger.host .reserve { host := {} })
  let y' := endState (splitSample.perform Ledger.host commitment y)
  obtain ⟨⟨⟩, z, hz⟩ := exists_of_succeeds (r := splitSample.perform Ledger.host commitment y) (by decide +kernel)
  have hroom : y'.session.stats.HasRoomFor splitSample.reservations := ⟨by decide +kernel, by decide +kernel⟩
  have hfits := hcommit _ _ _ _ (.tail _ (.head _)) hz
  obtain ⟨z', hz', hrequests⟩ | ⟨hnone, -⟩ := hreserve y' (.tail _ (.tail _ (.head _)))
  · rw [hreservations] at hfits hrequests
    exact ⟨y, z, y', z', rfl, hz, hz', hrequests, hfits⟩
  · exact absurd hroom hnone

end Context

end StackUnwind
