import StackUnwind.Proofs.Context.Comparison

namespace StackUnwind

namespace Context

/-- The same unit with fake splitting asked for or not. -/
def faking (c : Context) (fake : Bool) : Context := { c with settings := { fakeSplitting := fake } }

variable {c : Context} {f : UnitFunction} {oracle : Oracle} {layout : UnitLayout} {e : Errand} {span : Span}

private theorem cold_eq_none_of_mem (hmem : f ∈ c.functions.toList) (h : c.functions.hasColdRegion = false) :
    f.cold = none := by
  by_contra hcold
  rw [FunctionSet.hasColdRegion, ← eq_root_of_cold hmem (Option.isSome_iff_ne_none.2 hcold)] at h
  exact hcold (Option.isSome_eq_false_iff.1 h |> Option.isNone_iff_eq_none.1)

private theorem regions_faking (hcold : f.cold = none) : (c.faking true).regions f = (c.faking false).regions f := by
  rw [regions_of_cold_eq_none hcold, regions_of_cold_eq_none hcold]

private theorem commitSteps_faking (hcold : f.cold = none) (oracle : Oracle) (layout : UnitLayout) (tracker : Tracker) :
    (c.faking true).commitSteps oracle layout f tracker = (c.faking false).commitSteps oracle layout f tracker := by
  rw [commitSteps_of_cold_eq_none hcold, commitSteps_of_cold_eq_none hcold]

private theorem schedule_faking (h : c.functions.hasColdRegion = false) (call : HostCall) :
    (c.faking true).schedule call = (c.faking false).schedule call := by
  have hcold (entry : UnitFunction × Tracker) (hentry : entry ∈ c.entries) : entry.1.cold = none :=
    cold_eq_none_of_mem (mem_of_mem_entries hentry).1 h
  cases call with
  | reserve =>
    rw [schedule, schedule]
    refine bind_congr fun _ => congrArg pure (List.flatMap_congr ?_)
    rintro ⟨f, tracker⟩ hentry
    dsimp only
    rw [regions_faking (hcold _ hentry)]
  | commit oracle layout =>
    rw [schedule, schedule]
    refine bind_congr fun _ => bind_congr fun _ => congrArg pure (List.flatMap_congr fun entry hentry => ?_)
    exact commitSteps_faking (hcold entry hentry) oracle layout entry.2

variable {σ : Type} {host : Host σ} {x y : Exchange σ}

private theorem perform_faking (h : c.functions.hasColdRegion = false) (host : Host σ) (call : HostCall) :
    (c.faking true).perform host call = (c.faking false).perform host call := by
  rw [perform_eq, perform_eq, schedule_faking h]

private theorem requests_faking (h : c.functions.hasColdRegion = false) (host : Host σ) (call : HostCall)
    (x : Exchange σ) :
    (c.faking true).requests host call x = (c.faking false).requests host call x := by
  rw [requests, requests, perform_faking h]

/-- What is done for each function is the same for all but the first one, the root. -/
theorem exists_flatMap_faking {α : Type} (work : Context → UnitFunction × Tracker → List α)
    (hwork : ∀ entry, entry.1.cold = none → work (c.faking true) entry = work (c.faking false) entry) :
    ∃ (tracker : Tracker) (rest : List (UnitFunction × Tracker)), c.trackers[0]? = some tracker ∧
      (∀ entry ∈ rest, entry.1 ∈ c.functions.funclets) ∧ ∀ fake,
      c.entries.flatMap (work (c.faking fake)) =
        work (c.faking fake) (c.functions.root, tracker) ++ rest.flatMap (work (c.faking false)) := by
  obtain ⟨tracker, trackers, htrackers⟩ : ∃ tracker trackers, c.trackers = tracker :: trackers := by
    apply List.exists_cons_of_length_pos
    rw [c.length_trackers]
    exact Nat.succ_pos _
  have hentries : c.entries = (c.functions.root, tracker) :: c.functions.funclets.zip trackers := by
    rw [entries, FunctionSet.toList, htrackers, List.zip_cons_cons]
  have hfunclet (entry : UnitFunction × Tracker) (hentry : entry ∈ c.functions.funclets.zip trackers) :
      entry.1 ∈ c.functions.funclets := (List.of_mem_zip hentry).1
  refine ⟨tracker, c.functions.funclets.zip trackers, by rw [htrackers]; rfl, hfunclet, fun fake => ?_⟩
  rw [hentries, List.flatMap_cons]
  congr 1
  refine List.flatMap_congr fun entry hentry => ?_
  cases fake with
  | false => rfl
  | true => exact hwork entry (c.functions.funclets_hot entry.1 (hfunclet entry hentry)).2

/-- What is done for each region that storage is reserved for is done once more for the root without fake splitting,
    right after its hot code. -/
theorem exists_map_regions_faking {α : Type} (work : UnitFunction → Tracker → Region → α)
    (hcold : c.functions.root.cold = some span) :
    ∃ (tracker : Tracker) (rest : List α), c.trackers[0]? = some tracker ∧
      (c.entries.flatMap fun entry => ((c.faking false).regions entry.1).map (work entry.1 entry.2)) =
        work c.functions.root tracker .hot :: work c.functions.root tracker .cold :: rest ∧
      (c.entries.flatMap fun entry => ((c.faking true).regions entry.1).map (work entry.1 entry.2)) =
        work c.functions.root tracker .hot :: rest ∧
      ∀ a ∈ rest, ∃ f tracker region, a = work f tracker region := by
  obtain ⟨tracker, rest, htracker, -, hwork⟩ := exists_flatMap_faking
    (fun d entry => (d.regions entry.1).map (work entry.1 entry.2))
    fun entry hentry => by rw [regions_faking (c := c) hentry]
  have hsplit : (c.faking false).regions c.functions.root = [.hot, .cold] := regions_of_split hcold rfl
  have hfake : (c.faking true).regions c.functions.root = [.hot] := regions_of_fakeSplit hcold rfl
  refine ⟨tracker, _, htracker, (hwork false).trans (by rw [hsplit]; rfl), (hwork true).trans (by rw [hfake]; rfl), ?_⟩
  intro a ha
  obtain ⟨entry, -, ha⟩ := List.mem_flatMap.1 ha
  obtain ⟨region, -, rfl⟩ := List.mem_map.1 ha
  exact ⟨entry.1, entry.2, region, rfl⟩

private theorem reserve_faking (haccepts : host.AcceptsAll) (hcounted : x.session.stats.Counted)
    (hcold : c.functions.root.cold = some span) (h : (c.faking false).reserve host x = .ok () y) :
    ∃ y', (c.faking true).reserve host x = .ok () y' ∧
      (c.faking true).requests host .reserve x = ((c.faking false).requests host .reserve x).eraseIdx 1 := by
  have hperform : (c.faking false).perform host .reserve x = .ok () y := h
  obtain ⟨es, hschedule, htally, hrequests⟩ := exists_tallyAll_of_perform haccepts hperform
  obtain ⟨hclosed, hes⟩ := schedule_reserve_eq_ok_iff.1 hschedule
  obtain rfl := List.map_injective_iff.2 (fun _ _ => Except.ok.inj) hes
  obtain ⟨tracker, es, -, hsplit, hfake, hreserves⟩ := exists_map_regions_faking reserveErrand hcold
  have hsplit : (c.faking false).reserveErrands = _ := hsplit
  have hfake : (c.faking true).reserveErrands = _ := hfake
  have hbelow (e : Errand) (he : e ∈ es) : e.Below e := by
    obtain ⟨f, tracker, region, rfl⟩ := hreserves e he
    exact below_reserveErrand le_rfl
  rw [hsplit, Errand.tallyAll_cons_eq_ok_iff] at htally
  obtain ⟨s, hhot, htally⟩ := htally
  obtain ⟨t, hsecond, hrest⟩ := Errand.tallyAll_cons_eq_ok_iff.1 htally
  obtain ⟨s', hhot', hs'⟩ := below_reserveErrand le_rfl _ _ _ hcounted.below_self hhot
  obtain ⟨next, hrest', -⟩ :=
    Errand.tallyAll_below (List.forall₂_same.2 hbelow) (hs'.of_recordReservation hsecond) hrest
  have htally' : Errand.tallyAll (c.faking true).reserveErrands x.session.stats = .ok next := by
    rw [hfake, Errand.tallyAll_cons_eq_ok_iff]
    exact ⟨s', hhot', hrest'⟩
  have hschedule' : (c.faking true).schedule .reserve = .ok ((c.faking true).reserveErrands.map .ok) :=
    schedule_reserve_eq_ok_iff.2 ⟨hclosed, rfl⟩
  obtain ⟨y', hreserve, -, hrequests'⟩ := perform_of_tallyAll haccepts hschedule' htally'
  refine ⟨y', hreserve, ?_⟩
  rw [hrequests, hrequests', hsplit, hfake]
  rfl

/-- A root with a record of its hot code has one of the whole unit, too, and leaves no less room with it. -/
theorem exists_wholeErrand_below {tracker : Tracker} (hroot : f.kind = .root)
    (h : commitErrand oracle layout f tracker .hot = .ok e) :
    ∃ whole, wholeErrand layout f tracker = .ok whole ∧ whole.Below e := by
  obtain ⟨range, info, -, hinfo, hlength, rfl⟩ := commitErrand_eq_ok_iff.1 h
  rw [recordInfo_eq_ok_iff] at hinfo
  cases hwhole : tracker.recorder.info .hot layout.wholeRange.size with
  | error stop => exact absurd hwhole (Recorder.info_ne_error hinfo)
  | ok info' =>
    obtain ⟨-, hlength', -⟩ := Recorder.of_info_eq_ok hwhole
    rw [wholeErrand, recordInfo_eq_ok_iff.2 hwhole]
    refine ⟨_, rfl, fun stats' stats next hbelow htally => ?_⟩
    have hrecord : stats.recordCommit .root .hot (.ofNat info.bytes.length) = .ok next := hroot ▸ htally
    refine hbelow.recordFakeSplitCommit_of_recordCommit ?_ hrecord
    rw [hlength, hlength']

/-- What is remembered of a prolog gives the same record for any amount of code. -/
theorem payload_eq_of_x64 {tracker : Tracker} {log : PrologLog} {k k' : Commit}
    (hrecorder : tracker.recorder = .x64 log)
    (h : k.Carries layout f tracker .hot) (h' : k'.Carries layout f tracker .hot) : k'.payload = k.payload := by
  have hpayload := h.payload
  have hpayload' := h'.payload
  rw [hrecorder, Recorder.info_hot_eq_ok_iff] at hpayload hpayload'
  obtain ⟨record, hrecord, hinfo⟩ := hpayload
  obtain ⟨record', hrecord', hinfo'⟩ := hpayload'
  obtain rfl := Except.ok.inj (hrecord.symm.trans hrecord')
  exact (congrArg UnwindInfo.bytes hinfo').trans (congrArg UnwindInfo.bytes hinfo).symm

private theorem below_of_mem_commitSteps {tracker : Tracker} (hcold : f.cold = none)
    (hmem : .ok e ∈ c.commitSteps oracle layout f tracker) : e.Below e := by
  rw [commitSteps_of_cold_eq_none hcold, List.mem_singleton] at hmem
  obtain ⟨range, info, -, -, -, rfl⟩ := commitErrand_eq_ok_iff.1 hmem.symm
  exact below_recordErrand le_rfl

/-- With fake splitting the root has one commit in place of two. -/
theorem exists_schedule_faking (hcold : c.functions.root.cold = some span) {es : List Errand}
    (h : (c.faking false).schedule (.commit oracle layout) = .ok (es.map .ok)) :
    ∃ tracker hot cold whole others, c.trackers[0]? = some tracker ∧ es = hot :: cold :: others ∧
      commitErrand oracle layout c.functions.root tracker .hot = .ok hot ∧
      commitErrand oracle layout c.functions.root tracker .cold = .ok cold ∧
      wholeErrand layout c.functions.root tracker = .ok whole ∧ whole.Below hot ∧
      (c.faking true).schedule (.commit oracle layout) = .ok ((whole :: others).map .ok) ∧ (∀ e ∈ others, e.Below e) ∧
      ∃ ks : List Commit, others.map Errand.request = ks.map .commit := by
  obtain ⟨hready, hsteps⟩ := schedule_commit_eq_ok_iff.1 h
  obtain ⟨tracker, rest, htracker, hrest, hwork⟩ := exists_flatMap_faking (c := c)
    (fun d entry => d.commitSteps oracle layout entry.1 entry.2) fun entry hentry =>
      commitSteps_faking hentry oracle layout entry.2
  have hsplit := hsteps.trans (hwork false)
  rw [commitSteps_of_split hcold rfl] at hsplit
  obtain ⟨hot, tail, rfl, hhot, htail⟩ := List.map_eq_cons_iff.1 hsplit
  obtain ⟨cold, others, rfl, hcoldErrand, hothers⟩ := List.map_eq_cons_iff.1 htail
  obtain ⟨whole, hwhole, hbelow⟩ := exists_wholeErrand_below c.functions.root_kind hhot.symm
  have hfake := hwork true
  rw [commitSteps_of_fakeSplit hcold rfl, hwhole] at hfake
  obtain ⟨kss, hkss, -⟩ := exists_described_flatMap (c := c.faking false)
    (fun entry hentry => List.mem_cons_of_mem _ (hrest entry hentry)) hready.2.1 hothers.symm
  refine ⟨tracker, hot, cold, whole, others, htracker, rfl, hhot.symm, hcoldErrand.symm, hwhole, hbelow,
    schedule_commit_eq_ok_iff.2 ⟨hready, ?_⟩, fun e he => ?_, kss.flatten, hkss⟩
  · rw [List.map_cons, hothers]
    exact hfake.symm
  · have hmem : .ok e ∈ others.map (@Except.ok (Stop UnwindError) Errand) := List.mem_map_of_mem he
    rw [hothers] at hmem
    obtain ⟨entry, hentry, hmem⟩ := List.mem_flatMap.1 hmem
    exact below_of_mem_commitSteps (c.functions.funclets_hot _ (hrest entry hentry)).2 hmem

/-- One commit of the whole unit can be counted wherever one of its hot code and one of its cold code can be. -/
theorem exists_tallyAll_faking {tracker : Tracker} {hot cold whole : Errand} {others : List Errand} {stats next : Stats}
    (hcounted : stats.Counted) (hcold : commitErrand oracle layout f tracker .cold = .ok cold) (hbelow : whole.Below hot)
    (hothers : ∀ e ∈ others, e.Below e) (h : Errand.tallyAll (hot :: cold :: others) stats = .ok next) :
    ∃ next', Errand.tallyAll (whole :: others) stats = .ok next' := by
  obtain ⟨s, hfirst, htally⟩ := Errand.tallyAll_cons_eq_ok_iff.1 h
  obtain ⟨t, hsecond, hlast⟩ := Errand.tallyAll_cons_eq_ok_iff.1 htally
  obtain ⟨s', hfirst', hs'⟩ := hbelow _ _ _ hcounted.below_self hfirst
  obtain ⟨range, info, -, -, -, rfl⟩ := commitErrand_eq_ok_iff.1 hcold
  obtain ⟨next', hlast', -⟩ :=
    Errand.tallyAll_below (List.forall₂_same.2 hothers) (hs'.of_recordCommit hsecond) hlast
  exact ⟨next', Errand.tallyAll_cons_eq_ok_iff.2 ⟨s', hfirst', hlast'⟩⟩

/-- With fake splitting the root's two commits become one of the whole unit, and the others stay what they are. -/
theorem commit_faking (haccepts : host.AcceptsAll) (hcounted : x.session.stats.Counted)
    (hcold : c.functions.root.cold = some span) (h : (c.faking false).commit host oracle layout x = .ok () y) :
    ∃ y' tracker hot cold whole rest, (c.faking true).commit host oracle layout x = .ok () y' ∧
      c.trackers[0]? = some tracker ∧
      (c.faking false).requests host (.commit oracle layout) x = (hot :: cold :: rest).map .commit ∧
      (c.faking true).requests host (.commit oracle layout) x = (whole :: rest).map .commit ∧
      hot.IsHot oracle layout c.functions.root tracker ∧ cold.IsCold oracle layout c.functions.root tracker span ∧
      whole.IsWhole layout c.functions.root tracker := by
  have hperform : (c.faking false).perform host (.commit oracle layout) x = .ok () y := h
  obtain ⟨es, hschedule, htally, hrequests⟩ := exists_tallyAll_of_perform haccepts hperform
  obtain ⟨⟨-, hbase, -⟩, -⟩ := schedule_commit_eq_ok_iff.1 hschedule
  obtain ⟨tracker, hot, cold, whole, others, htracker, rfl, hhot, hcoldErrand, hwhole, hbelow, hschedule', hothers, ks,
    hks⟩ := exists_schedule_faking hcold hschedule
  obtain ⟨next, htally'⟩ := exists_tallyAll_faking hcounted hcoldErrand hbelow hothers htally
  obtain ⟨y', hcommit, -, hrequests'⟩ := perform_of_tallyAll haccepts hschedule' htally'
  obtain ⟨k, hkRequest, hk⟩ := exists_isHot hhot
  obtain ⟨k', hkRequest', hk'⟩ :=
    exists_isCold hcold (isSome_coldBase_of_cold (c := c.faking false) (.head _) hbase hcold) hcoldErrand
  obtain ⟨k'', hkRequest'', hk''⟩ := exists_isWhole hwhole
  refine ⟨y', tracker, k, k', k'', ks, hcommit, htracker, ?_, ?_, hk, hk', hk''⟩
  · rw [hrequests, List.map_cons, List.map_cons, hkRequest, hkRequest', hks, List.map_cons, List.map_cons]
  · rw [hrequests', List.map_cons, hkRequest'', hks, List.map_cons]

/-- Fake splitting makes no difference to a unit without cold code, whatever the host does. In a unit with cold code
    it takes the root's cold reservation away, and the root's two commits become one of the whole unit. All others are
    what they are without it, and commitment that comes to its end without it does so with it. -/
theorem faking_changes_root (c : Context) :
    (c.functions.hasColdRegion = false → ∀ {σ : Type} (host : Host σ) (call : HostCall) (x : Exchange σ),
      (c.faking true).perform host call x = (c.faking false).perform host call x ∧
      (c.faking true).requests host call x = (c.faking false).requests host call x) ∧
    ∀ span, c.functions.root.cold = some span → ∃ tracker, c.trackers[0]? = some tracker ∧
      (c.faking false).reservations[1]? = some (tracker.reservation c.functions.root .cold) ∧
      (c.faking true).reservations = (c.faking false).reservations.eraseIdx 1 ∧
      ∀ {σ : Type} (host : Host σ) (x : Exchange σ), host.AcceptsAll → x.session.stats.Counted →
        ((∀ t ∈ c.trackers, t.phase.isBracket = false) →
          (∃ y y', (c.faking false).reserve host x = .ok () y ∧ (c.faking true).reserve host x = .ok () y' ∧
            (c.faking false).requests host .reserve x = (c.faking false).reservations.map .reserve ∧
            (c.faking true).requests host .reserve x = ((c.faking false).requests host .reserve x).eraseIdx 1) ∨
          (¬ x.session.stats.HasRoomFor (c.faking false).reservations ∧
            ∃ y, (c.faking false).reserve host x = .error (.fault (.overflow .add)) y)) ∧
        ∀ oracle layout y, (c.faking false).commit host oracle layout x = .ok () y →
          ∃ y' hot cold whole rest, (c.faking true).commit host oracle layout x = .ok () y' ∧
            (c.faking false).requests host (.commit oracle layout) x = (hot :: cold :: rest).map .commit ∧
            (c.faking true).requests host (.commit oracle layout) x = (whole :: rest).map .commit ∧
            hot.IsHot oracle layout c.functions.root tracker ∧ cold.IsCold oracle layout c.functions.root tracker span ∧
            whole.kind = .root ∧ whole.range = ⟨0, layout.totalSize⟩ ∧ whole.hotBase = hot.hotBase ∧
            whole.coldBase = none ∧ whole.Carries layout c.functions.root tracker .hot ∧
            ∀ log, tracker.recorder = .x64 log → whole.payload = hot.payload := by
  refine ⟨fun hnone σ host call x => ?_, fun span hcold => ?_⟩
  · rw [perform_faking hnone, requests_faking hnone]
    exact ⟨rfl, rfl⟩
  obtain ⟨tracker, rest, htracker, hsplit, hfake, -⟩ :=
    exists_map_regions_faking (fun f tracker => tracker.reservation f) hcold
  have hsplit : (c.faking false).reservations = _ := hsplit
  have hfake : (c.faking true).reservations = _ := hfake
  refine ⟨tracker, htracker, by rw [hsplit]; rfl, by rw [hsplit, hfake]; rfl, fun host x haccepts hcounted => ⟨?_, ?_⟩⟩
  · intro hclosed
    obtain ⟨y, hreserve, hrequests⟩ | ⟨hroom, hreserve, -⟩ := reserve_requests (c := c.faking false) hclosed haccepts x
    · obtain ⟨y', hreserve', hrequests'⟩ := reserve_faking haccepts hcounted hcold hreserve
      exact .inl ⟨y, y', hreserve, hreserve', hrequests, hrequests'⟩
    · exact .inr ⟨hroom, hreserve⟩
  · intro oracle layout y hcommit
    obtain ⟨y', tracker', hot, cold, whole, rest, hcommit', htracker', hrequests, hrequests', hhot, hcoldCommit,
      hwhole⟩ :=
      commit_faking haccepts hcounted hcold hcommit
    obtain rfl := Option.some.inj (htracker.symm.trans htracker')
    refine ⟨y', hot, cold, whole, rest, hcommit', hrequests, hrequests', hhot, hcoldCommit, ?_, hwhole.range, ?_,
      hwhole.coldBase, hwhole.toCarries, fun log hlog => payload_eq_of_x64 hlog hhot.toCarries hwhole.toCarries⟩
    · rw [hwhole.kind, c.functions.root_kind]
    · rw [hwhole.hotBase, hhot.hotBase]

/-- The sample has fake splitting off. With it, there is one record of all its code in place of the first two. -/
theorem faking_changes_root_splitSample :
    (splitSample.faking true).reservations = [⟨false, false, 8⟩, ⟨true, false, 4⟩] ∧
    ∃ y, (splitSample.faking true).commit Ledger.host (sampleOracle 70 190) sampleLayout { host := {} } = .ok () y ∧
      (splitSample.faking true).requests Ledger.host (.commit (sampleOracle 70 190) sampleLayout) { host := {} } = [
        .commit ⟨.root, 0x1000, none, ⟨0, 200⟩, [1, 5, 2, 0, 5, 50, 1, 80]⟩,
        .commit ⟨.filter, 0x1000, none, ⟨70, 100⟩, [1, 0, 0, 0]⟩] := by
  obtain ⟨⟨⟩, y, hcommit⟩ := exists_of_succeeds (r := (splitSample.faking false).commit Ledger.host (sampleOracle 70 190)
    sampleLayout { host := {} }) (by decide +kernel)
  obtain ⟨-, hsplit⟩ := faking_changes_root splitSample
  obtain ⟨tracker, htracker, -, hreservations, hhost⟩ := hsplit _ rfl
  obtain ⟨-, hcommits⟩ := hhost Ledger.host { host := {} } Ledger.acceptsAll_host .start
  obtain ⟨y', hot, cold, whole, rest, hcommit', hrequests, hrequests', -, -, hkind, hrange, hhotBase, hcoldBase, -,
    hpayload⟩ := hcommits _ _ y hcommit
  have hplain : (splitSample.faking false).requests Ledger.host (.commit (sampleOracle 70 190) sampleLayout)
      { host := {} } = [
        .commit ⟨.root, 0x1000, none, ⟨0, 70⟩, [1, 5, 2, 0, 5, 50, 1, 80]⟩,
        .commit ⟨.root, 0x1000, some 0x2000, ⟨0, 90⟩, [33, 0, 0, 0]⟩,
        .commit ⟨.filter, 0x1000, none, ⟨70, 100⟩, [1, 0, 0, 0]⟩] := by decide +kernel
  rw [hplain] at hrequests
  simp only [List.map_cons, List.cons.injEq, HostRequest.commit.injEq] at hrequests
  obtain ⟨rfl, -, hrest⟩ := hrequests
  have hpayload := hpayload _ (congrArg Tracker.recorder (Option.some.inj htracker.symm))
  have hwhole : whole = ⟨.root, 0x1000, none, ⟨0, 200⟩, [1, 5, 2, 0, 5, 50, 1, 80]⟩ := by
    cases whole
    simp only at hkind hrange hhotBase hcoldBase hpayload
    rw [hkind, hrange, hhotBase, hcoldBase, hpayload]
    rfl
  refine ⟨hreservations.trans (by decide), y', hcommit', ?_⟩
  rw [hrequests', List.map_cons, ← hrest, hwhole]

end Context

end StackUnwind
