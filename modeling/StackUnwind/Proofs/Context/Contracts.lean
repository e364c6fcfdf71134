import StackUnwind.Proofs.Context.Accounts
import StackUnwind.Proofs.Context.Bounds
import StackUnwind.Proofs.Exchange.Faults

namespace StackUnwind

namespace Context

variable {σ : Type} {c : Context} {f : UnitFunction} {tracker : Tracker} {region : Region} {oracle : Oracle}
  {layout : UnitLayout} {slot : Slot} {call : HostCall} {e : Errand} {steps : List (Except (Stop UnwindError) Errand)}
  {host : Host σ} {s : σ} {x : Exchange σ} {fault : Fault}

/-- A contract that is broken before a call makes any request: a bracket is open, or the layout is none of the unit. -/
inductive Unfit (c : Context) : HostCall → Fault → Prop where
  | prologOpen {call : HostCall} {t : Tracker} (hmem : t ∈ c.trackers) (hphase : t.phase = .inProlog) :
      Unfit c call .prologOpen
  | epilogOpen {call : HostCall} {t : Tracker} (hprolog : ∀ t ∈ c.trackers, t.phase ≠ .inProlog)
      (hmem : t ∈ c.trackers) (hphase : t.phase = .inEpilog) : Unfit c call .epilogOpen
  | coldBase {oracle : Oracle} {layout : UnitLayout} (hclosed : ∀ t ∈ c.trackers, t.phase.isBracket = false)
      (hbase : layout.coldBase.isSome ≠ c.functions.hasColdRegion) : Unfit c (.commit oracle layout) .coldBaseMismatch
  | size {oracle : Oracle} {layout : UnitLayout} (hclosed : ∀ t ∈ c.trackers, t.phase.isBracket = false)
      (hbase : layout.coldBase.isSome = c.functions.hasColdRegion) (hsize : layout.totalSize < layout.hotSize) :
      Unfit c (.commit oracle layout) .hotLargerThanUnit

private theorem requireClosed_eq_error_iff :
    c.requireClosed = .error fault ↔
      (∃ t ∈ c.trackers, t.phase = .inProlog) ∧ fault = .prologOpen ∨
      (∀ t ∈ c.trackers, t.phase ≠ .inProlog) ∧ (∃ t ∈ c.trackers, t.phase = .inEpilog) ∧ fault = .epilogOpen := by
  have hprolog : c.trackers.any Tracker.inProlog = true ↔ ∃ t ∈ c.trackers, t.phase = .inProlog := by
    simp [Tracker.inProlog]
  have hepilog : c.trackers.any Tracker.inEpilog = true ↔ ∃ t ∈ c.trackers, t.phase = .inEpilog := by
    simp [Tracker.inEpilog]
  have hnone : (∀ t ∈ c.trackers, t.phase ≠ .inProlog) ↔ ¬ ∃ t ∈ c.trackers, t.phase = .inProlog := by
    simp
  rw [requireClosed, hnone, ← hprolog, ← hepilog]
  split
  next h => simpa [h] using eq_comm
  next h =>
    split
    next h' => simpa [h, h'] using eq_comm
    next h' => simp [h, h']

private theorem requireLayout_eq_error_iff :
    c.requireLayout layout = .error fault ↔
      layout.coldBase.isSome ≠ c.functions.hasColdRegion ∧ fault = .coldBaseMismatch ∨
      layout.coldBase.isSome = c.functions.hasColdRegion ∧ layout.totalSize < layout.hotSize ∧
        fault = .hotLargerThanUnit := by
  unfold requireLayout
  split
  next hne => simp [bne_iff_ne.1 hne, eq_comm]
  next heq =>
    have hbase : layout.coldBase.isSome = c.functions.hasColdRegion := by simpa using heq
    split
    next hlt => simp [hbase, hlt, eq_comm]
    next hnot => simp [hbase, hnot]

/-- A call has no schedule exactly if it finds a broken contract at once. -/
theorem schedule_eq_error_iff : c.schedule call = .error fault ↔ c.Unfit call fault := by
  have hopen : c.requireClosed = .error fault → c.Unfit call fault := by
    rw [requireClosed_eq_error_iff]
    rintro (⟨⟨t, hmem, hphase⟩, rfl⟩ | ⟨hprolog, ⟨t, hmem, hphase⟩, rfl⟩)
    · exact .prologOpen hmem hphase
    · exact .epilogOpen hprolog hmem hphase
  cases call with
  | reserve =>
    simp only [schedule, bind_eq_error_iff, pure_eq_error_iff, and_false, exists_false, or_false]
    refine ⟨hopen, fun h => requireClosed_eq_error_iff.2 ?_⟩
    cases h with
    | prologOpen hmem hphase => exact .inl ⟨⟨_, hmem, hphase⟩, rfl⟩
    | epilogOpen hprolog hmem hphase => exact .inr ⟨hprolog, ⟨_, hmem, hphase⟩, rfl⟩
  | commit oracle layout =>
    simp only [schedule, bind_eq_error_iff, pure_eq_error_iff, and_false, exists_false, or_false,
      requireLayout_eq_error_iff]
    constructor
    · rintro (h | ⟨⟨⟩, hclosed, ⟨hbase, rfl⟩ | ⟨hbase, hsize, rfl⟩⟩)
      · exact hopen h
      · exact .coldBase (requireClosed_eq_ok_iff.1 hclosed) hbase
      · exact .size (requireClosed_eq_ok_iff.1 hclosed) hbase hsize
    · intro h
      cases h with
      | prologOpen hmem hphase => exact .inl (requireClosed_eq_error_iff.2 (.inl ⟨⟨_, hmem, hphase⟩, rfl⟩))
      | epilogOpen hprolog hmem hphase =>
        exact .inl (requireClosed_eq_error_iff.2 (.inr ⟨hprolog, ⟨_, hmem, hphase⟩, rfl⟩))
      | coldBase hclosed hbase => exact .inr ⟨(), requireClosed_eq_ok_iff.2 hclosed, .inl ⟨hbase, rfl⟩⟩
      | size hclosed hbase hsize => exact .inr ⟨(), requireClosed_eq_ok_iff.2 hclosed, .inr ⟨hbase, hsize, rfl⟩⟩

private theorem exists_unfit_iff : (∃ fault, c.Unfit call fault) ↔ ¬ ∃ steps, c.schedule call = .ok steps := by
  simp only [← schedule_eq_error_iff]
  cases c.schedule call <;> simp

/-- For a reservation it matters only whether a bracket is open. -/
theorem exists_unfit_reserve_iff :
    (∃ fault, c.Unfit .reserve fault) ↔ ∃ t ∈ c.trackers, t.phase.isBracket = true := by
  rw [exists_unfit_iff]
  simp only [schedule_reserve_eq_ok_iff, exists_and_left, exists_eq, and_true, not_forall, Bool.not_eq_false,
    exists_prop]

private theorem exists_unfit_commit_iff :
    (∃ fault, c.Unfit (.commit oracle layout) fault) ↔
      (∃ t ∈ c.trackers, t.phase.isBracket = true) ∨ layout.coldBase.isSome ≠ c.functions.hasColdRegion ∨
        layout.totalSize < layout.hotSize := by
  rw [exists_unfit_iff]
  simp only [schedule_commit_eq_ok_iff, exists_and_left, exists_eq, and_true, not_and_or, not_forall,
    Bool.not_eq_false, exists_prop, UInt32.not_le]

private theorem mem_of_mem_slots (hmem : slot ∈ c.slots) :
    slot.function ∈ c.functions.toList ∧ (slot.region = .cold → slot.function.cold.isSome) := by
  obtain ⟨⟨f, tracker⟩, hentry, hslot⟩ := List.mem_flatMap.1 hmem
  obtain ⟨region, hregion, rfl⟩ := List.mem_map.1 hslot
  refine ⟨(mem_of_mem_entries hentry).1, ?_⟩
  rintro rfl
  refine @isSome_cold_of_planOf c f fun hplan => ?_
  simp [regions, hplan] at hregion

/-- Only the markers around its code can break a contract when a record is made up. A record of the whole unit needs
    none, a funclet has no cold code, and no recorder refuses what it recorded. -/
theorem commitOf_eq_fault_iff (hmem : slot ∈ c.slots) :
    c.commitOf oracle layout slot = .error (.fault fault) ↔
      c.planOf slot.function ≠ .fakeSplit ∧
        layout.Misplaced oracle (slot.function.span slot.region) slot.region fault := by
  obtain ⟨hfunction, hcold⟩ := mem_of_mem_slots hmem
  have hinfo (codeLength : UInt32) : recordInfo slot.tracker slot.region codeLength ≠ .error (.fault fault) := by
    unfold recordInfo
    cases hrecord : slot.tracker.recorder.info slot.region codeLength with
    | ok info => simp [Except.mapError]
    | error stop =>
      cases stop with
      | error e => simp [Except.mapError, Stop.map]
      | fault fault' => exact absurd hrecord (Recorder.info_ne_fault _ _ _ fault')
  have hrange : regionRange layout oracle slot.function slot.region = .error (.fault fault) ↔
      layout.Misplaced oracle (slot.function.span slot.region) slot.region fault := by
    cases hregion : slot.region with
    | hot => exact UnitLayout.hotRange_eq_fault_iff
    | cold =>
      rw [regionRange, if_pos (maySplit_of_cold hfunction (hcold hregion))]
      exact UnitLayout.coldRange_eq_fault_iff
  simp only [commitOf, bind_eq_error_iff, hinfo, pure_eq_error_iff, and_false, exists_false, or_false]
  rw [slotRange]
  cases hplan : c.planOf slot.function with
  | fakeSplit => simp
  | hotOnly | hotAndCold => simpa using hrange

/-- Whether a commitment gets as far as a record: everything before it has been committed and accepted. -/
def Reaches (c : Context) (host : Host σ) (s : σ) (oracle : Oracle) (layout : UnitLayout) (slot : Slot) : Prop :=
  ∃ (before after : List Slot) (ks : List Commit), c.slots = before ++ slot :: after ∧
    before.map (c.commitOf oracle layout) = ks.map .ok ∧ host.accepted s (ks.map .commit) = ks.map .commit

private theorem map_commit_of_map_commitOf {slots : List Slot} {ks : List Commit}
    (h : slots.map (c.commitOf oracle layout) = ks.map .ok) :
    slots.map (fun slot => (c.commitOf oracle layout slot).map HostRequest.commit) = (ks.map .commit).map .ok := by
  calc slots.map (fun slot => (c.commitOf oracle layout slot).map HostRequest.commit)
      = (slots.map (c.commitOf oracle layout)).map (·.map HostRequest.commit) := by rw [List.map_map]; rfl
    _ = (ks.map .commit).map .ok := by rw [h, List.map_map, List.map_map]; rfl

private theorem exists_commits_of_map_commit {slots : List Slot} {made : List HostRequest}
    (h : slots.map (fun slot => (c.commitOf oracle layout slot).map HostRequest.commit) = made.map .ok) :
    ∃ ks : List Commit, slots.map (c.commitOf oracle layout) = ks.map .ok ∧ made = ks.map .commit := by
  induction slots generalizing made with
  | nil =>
    obtain rfl := List.map_eq_nil_iff.1 h.symm
    exact ⟨[], rfl, rfl⟩
  | cons slot slots ih =>
    obtain ⟨request, made, rfl, hhead, htail⟩ := List.map_eq_cons_iff.1 h.symm
    obtain ⟨ks, hks, rfl⟩ := ih htail.symm
    cases hcommit : c.commitOf oracle layout slot with
    | error stop => simp [hcommit, Except.map] at hhead
    | ok k =>
      obtain rfl : request = .commit k := by simpa [hcommit, Except.map] using hhead
      exact ⟨k :: ks, by rw [List.map_cons, hcommit, hks]; rfl, rfl⟩

private theorem exists_reaches_iff :
    (∃ made rest, c.agenda (.commit oracle layout) = made.map .ok ++ .error (.fault fault) :: rest ∧
      host.accepted s made = made) ↔
    ∃ slot, c.Reaches host s oracle layout slot ∧ c.planOf slot.function ≠ .fakeSplit ∧
      layout.Misplaced oracle (slot.function.span slot.region) slot.region fault := by
  constructor
  · rintro ⟨made, rest, hagenda, haccepted⟩
    obtain ⟨before, tail, hslots, hbefore, htail⟩ := List.map_eq_append_iff.1 hagenda
    obtain ⟨slot, after, rfl, hslot, -⟩ := List.map_eq_cons_iff.1 htail
    obtain ⟨ks, hks, rfl⟩ := exists_commits_of_map_commit hbefore
    have hmem : slot ∈ c.slots := by simp [hslots]
    have hfault : c.commitOf oracle layout slot = .error (.fault fault) := by
      cases hcommit : c.commitOf oracle layout slot with
      | ok k => simp [hcommit, Except.map] at hslot
      | error stop => simpa [hcommit, Except.map] using hslot
    exact ⟨slot, ⟨before, after, ks, hslots, hks, haccepted⟩, (commitOf_eq_fault_iff hmem).1 hfault⟩
  · rintro ⟨slot, ⟨before, after, ks, hslots, hks, haccepted⟩, hmisplaced⟩
    have hmem : slot ∈ c.slots := by simp [hslots]
    refine ⟨ks.map .commit, after.map fun slot => (c.commitOf oracle layout slot).map .commit, ?_, haccepted⟩
    rw [agenda, hslots, List.map_append, List.map_cons, map_commit_of_map_commitOf hks,
      (commitOf_eq_fault_iff hmem).2 hmisplaced]
    rfl

/-- The count of an errand is that of its request. -/
theorem tally_of_mem_schedule (h : c.schedule call = .ok steps) (hmem : .ok e ∈ steps) (stats : Stats) :
    e.tally stats = stats.count c.onePiece e.request := by
  cases call with
  | reserve =>
    obtain ⟨-, rfl⟩ := schedule_reserve_eq_ok_iff.1 h
    obtain ⟨_, hmem, ⟨⟩⟩ := List.mem_map.1 hmem
    obtain ⟨⟨f, tracker⟩, -, hmem⟩ := List.mem_flatMap.1 hmem
    obtain ⟨region, -, rfl⟩ := List.mem_map.1 hmem
    rfl
  | commit oracle layout =>
    obtain ⟨⟨-, hbase, -⟩, rfl⟩ := schedule_commit_eq_ok_iff.1 h
    obtain ⟨⟨f, tracker⟩, hentry, hmem⟩ := List.mem_flatMap.1 hmem
    have hf : f ∈ c.functions.toList := (mem_of_mem_entries hentry).1
    have hmem : .ok e ∈ c.commitSteps oracle layout f tracker := hmem
    have hrecord (region : Region) (hplan : c.planOf f ≠ .fakeSplit) (hregion : region.isCold → layout.coldBase.isSome)
        (hcommit : commitErrand oracle layout f tracker region = .ok e) :
        e.tally stats = stats.count c.onePiece e.request := by
      obtain ⟨range, info, -, -, -, rfl⟩ := commitErrand_eq_ok_iff.1 hcommit
      have hpart : ¬ (c.onePiece = true ∧ f.kind = .root) := fun ⟨hone, hkind⟩ => hplan (planOf_of_onePiece hf hone hkind)
      cases region with
      | hot => simp [recordErrand, Stats.count, hpart, Region.isCold]
      | cold => simp [recordErrand, Stats.count, hpart, Region.isCold, hregion rfl]
    rw [commitSteps] at hmem
    cases hplan : c.planOf f with
    | hotOnly =>
      rw [hplan, List.mem_singleton] at hmem
      exact hrecord .hot (by simp [hplan]) (by simp [Region.isCold]) hmem.symm
    | hotAndCold =>
      obtain ⟨span, hcold⟩ := Option.isSome_iff_exists.1 (@isSome_cold_of_planOf c f (by simp [hplan]))
      have hsome := isSome_coldBase_of_cold hf hbase hcold
      rw [hplan, List.mem_pair] at hmem
      obtain hmem | hmem := hmem
      · exact hrecord .hot (by simp [hplan]) (fun _ => hsome) hmem.symm
      · exact hrecord .cold (by simp [hplan]) (fun _ => hsome) hmem.symm
    | fakeSplit =>
      have hroot : f.kind = .root := by
        rw [eq_root_of_cold hf (@isSome_cold_of_planOf c f (by simp [hplan])), c.functions.root_kind]
      rw [hplan, List.mem_singleton] at hmem
      have hwhole : wholeErrand layout f tracker = .ok e := hmem.symm
      simp only [wholeErrand, bind_eq_ok_iff, pure_eq_ok_iff] at hwhole
      obtain ⟨info, -, rfl⟩ := hwhole
      simp [Stats.count, onePiece_of_planOf hf hplan, hroot]

/-- A contract that is broken for a call: one that it finds at once, or one about the markers of a record that it
    reaches. A record of the whole unit has no markers to be wrong. -/
inductive Broken (c : Context) (host : Host σ) (s : σ) : HostCall → Fault → Prop where
  | unfit {call : HostCall} {fault : Fault} (h : c.Unfit call fault) : Broken c host s call fault
  | misplaced {oracle : Oracle} {layout : UnitLayout} {slot : Slot} {fault : Fault}
      (hready : ∀ fault, ¬ c.Unfit (.commit oracle layout) fault) (hreaches : c.Reaches host s oracle layout slot)
      (hplan : c.planOf slot.function ≠ .fakeSplit)
      (h : layout.Misplaced oracle (slot.function.span slot.region) slot.region fault) :
      Broken c host s (.commit oracle layout) fault

private theorem perform_eq_fault_iff (hfit : Exchange.CountsFit host c.onePiece (c.agenda call) x) :
    verdict (c.perform host call x) = .error (.fault fault) ↔ c.Broken host x.host call fault := by
  cases hschedule : c.schedule call with
  | error fault' =>
    have hunfit := schedule_eq_error_iff.1 hschedule
    rw [perform_of_schedule_eq_error hschedule, verdict, Except.error.injEq, Stop.fault.injEq]
    constructor
    · rintro rfl
      exact .unfit hunfit
    · intro h
      cases h with
      | unfit h =>
        rw [schedule_eq_error_iff.2 h] at hschedule
        exact (Except.error.inj hschedule).symm
      | misplaced hready => exact absurd hunfit (hready fault')
  | ok steps =>
    have hready (fault : Fault) : ¬ c.Unfit call fault := by
      intro h
      cases hschedule.symm.trans (schedule_eq_error_iff.2 h)
    rw [← map_request_schedule hschedule] at hfit
    rw [perform_of_schedule_eq_ok hschedule,
      Exchange.serve_eq_fault_iff (fun e stats hmem => tally_of_mem_schedule hschedule hmem stats) hfit,
      map_request_schedule hschedule]
    constructor
    · intro h
      cases call with
      | reserve =>
        obtain ⟨made, rest, hagenda, -⟩ := h
        have hmem : .error (.fault fault) ∈ c.agenda .reserve := by simp [hagenda]
        obtain ⟨slot, -, hslot⟩ := List.mem_map.1 hmem
        cases hslot
      | commit oracle layout =>
        obtain ⟨slot, hreaches, hplan, hmisplaced⟩ := exists_reaches_iff.1 h
        exact .misplaced hready hreaches hplan hmisplaced
    · intro h
      cases h with
      | unfit h => exact absurd h (hready fault)
      | misplaced _ hreaches hplan hmisplaced => exact exists_reaches_iff.2 ⟨_, hreaches, hplan, hmisplaced⟩

private theorem exists_broken_reserve_iff :
    (∃ fault, c.Broken host s .reserve fault) ↔ ∃ t ∈ c.trackers, t.phase.isBracket = true := by
  rw [← exists_unfit_reserve_iff]
  refine exists_congr fun fault => ⟨fun h => ?_, .unfit⟩
  cases h with
  | unfit h => exact h

private theorem exists_broken_commit_iff :
    (∃ fault, c.Broken host s (.commit oracle layout) fault) ↔
      (∃ t ∈ c.trackers, t.phase.isBracket = true) ∨ layout.coldBase.isSome ≠ c.functions.hasColdRegion ∨
        layout.totalSize < layout.hotSize ∨
        ∃ slot fault, c.Reaches host s oracle layout slot ∧ c.planOf slot.function ≠ .fakeSplit ∧
          layout.Misplaced oracle (slot.function.span slot.region) slot.region fault := by
  have hunfit := @exists_unfit_commit_iff c oracle layout
  by_cases hready : ∃ fault, c.Unfit (.commit oracle layout) fault
  · refine iff_of_true ?_ ?_
    · obtain ⟨fault, h⟩ := hready
      exact ⟨fault, .unfit h⟩
    · obtain h | h | h := hunfit.1 hready
      · exact .inl h
      · exact .inr (.inl h)
      · exact .inr (.inr (.inl h))
  · obtain ⟨hclosed, hbase, hsize⟩ := by simpa only [not_or] using hunfit.not.1 hready
    simp only [hclosed, hbase, hsize, false_or]
    constructor
    · rintro ⟨fault, h⟩
      cases h with
      | unfit h => exact absurd ⟨fault, h⟩ hready
      | misplaced _ hreaches hplan h => exact ⟨_, fault, hreaches, hplan, h⟩
    · rintro ⟨slot, fault, hreaches, hplan, h⟩
      exact ⟨fault, .misplaced (not_exists.1 hready) hreaches hplan h⟩

/-- The faults of broken contracts inside of the drivers, which the shape of a unit and of its records rules out. -/
def ruledOut : List Fault :=
  [.funcletSplit, .funcletFakeSplit, .fakeSplitWithoutColdBase, .recordSizeMismatch, .slotCountMismatch]

private theorem not_broken_of_mem_ruledOut (hmem : fault ∈ ruledOut) : ¬ c.Broken host s call fault := by
  intro h
  cases h with
  | unfit h => cases h <;> simp [ruledOut] at hmem
  | @misplaced _ _ slot _ _ _ _ h =>
    generalize slot.region = region at h
    cases h <;> simp [ruledOut] at hmem

/-- As long as no count overflows, a call ends in a fault exactly for a broken contract. A reservation breaks one only
    while a bracket is open; a commitment also with a layout of another unit, or with the markers of a record that it
    reaches. What is not about markers is found before any request. -/
theorem fault_iff_contract_broken (c : Context) (host : Host σ) (call : HostCall) (x : Exchange σ)
    (hfit : Exchange.CountsFit host c.onePiece (c.agenda call) x) :
    (∀ fault, verdict (c.perform host call x) = .error (.fault fault) ↔ c.Broken host x.host call fault) ∧
    ((∃ fault, c.Broken host x.host .reserve fault) ↔ ∃ t ∈ c.trackers, t.phase.isBracket = true) ∧
    (∀ oracle layout, (∃ fault, c.Broken host x.host (.commit oracle layout) fault) ↔
      (∃ t ∈ c.trackers, t.phase.isBracket = true) ∨ layout.coldBase.isSome ≠ c.functions.hasColdRegion ∨
        layout.totalSize < layout.hotSize ∨
        ∃ slot fault, c.Reaches host x.host oracle layout slot ∧ c.planOf slot.function ≠ .fakeSplit ∧
          layout.Misplaced oracle (slot.function.span slot.region) slot.region fault) ∧
    (∀ fault, c.Unfit call fault → c.perform host call x = .error (.fault fault) x ∧ c.requests host call x = []) ∧
    ∀ fault ∈ ruledOut, verdict (c.perform host call x) ≠ .error (.fault fault) := by
  refine ⟨fun fault => perform_eq_fault_iff hfit, exists_broken_reserve_iff, fun oracle layout =>
    exists_broken_commit_iff, fun fault h => ?_, fun fault hmem h => ?_⟩
  · have hschedule := schedule_eq_error_iff.2 h
    exact ⟨perform_of_schedule_eq_error hschedule, requests_of_schedule_eq_error hschedule⟩
  · exact not_broken_of_mem_ruledOut hmem ((perform_eq_fault_iff hfit).1 h)

/-- The hot code of the sample is committed before its cold code is found to start in the hot code. -/
theorem fault_iff_contract_broken_coldSample :
    let call := HostCall.commit (sampleOracle 90 190) sampleLayout
    let x : Exchange Ledger := { host := {} }
    Exchange.CountsFit Ledger.host coldSample.onePiece (coldSample.agenda call) x ∧
      coldSample.Broken Ledger.host x.host call (.coldRangeInHot 90 100) ∧
      verdict (coldSample.perform Ledger.host call x) = .error (.fault (.coldRangeInHot 90 100)) ∧
      ∀ fault ∈ ruledOut, verdict (coldSample.perform Ledger.host call x) ≠ .error (.fault fault) := by
  intro call x
  have hfit : Exchange.CountsFit Ledger.host coldSample.onePiece (coldSample.agenda call) x :=
    @Exchange.countsFit_of_foldlM _ _ _ _ _ { commits := 1, committedBytes := 4 } (by decide +kernel)
  have hbroken : coldSample.Broken Ledger.host x.host call (.coldRangeInHot 90 100) := by
    let root := coldSample.functions.root
    let tracker := Tracker.fresh .x86
    let hot : Commit := ⟨.root, 0x1000, none, ⟨0, 100⟩, [100, 0, 0, 0]⟩
    have hreaches : coldSample.Reaches Ledger.host x.host (sampleOracle 90 190) sampleLayout ⟨root, tracker, .cold⟩ :=
      ⟨[⟨root, tracker, .hot⟩], [], [hot], rfl, by decide +kernel, by decide +kernel⟩
    have hstop : (sampleOracle 90 190).Places (some ⟨1⟩) 200 190 := rfl
    refine .misplaced ?_ hreaches (by decide) (.coldInHot rfl hstop (by decide))
    rw [← not_exists, exists_unfit_commit_iff]
    decide
  obtain ⟨hfault, -, -, -, hruledOut⟩ := fault_iff_contract_broken coldSample Ledger.host call x hfit
  exact ⟨hfit, hbroken, (hfault _).2 hbroken, hruledOut⟩

end Context

end StackUnwind
