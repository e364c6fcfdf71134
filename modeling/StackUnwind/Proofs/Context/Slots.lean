import StackUnwind.Proofs.Context.Symmetry

namespace StackUnwind

/-- A record that a unit gets: of which function, with its tracker, and of which of its regions. -/
structure Slot where
  function : UnitFunction
  tracker : Tracker
  region : Region

/-- The code of a function in a region. -/
def UnitFunction.span (f : UnitFunction) : Region → Span
  | .hot => f.hot
  | .cold => f.cold.getD .whole

namespace Context

variable {c : Context} {f : UnitFunction} {tracker : Tracker} {oracle : Oracle} {layout : UnitLayout} {slot : Slot}
  {region : Region} {call : HostCall} {k : Commit} {e : UnwindError}

def slots (c : Context) : List Slot :=
  c.entries.flatMap fun (f, tracker) => (c.regions f).map (Slot.mk f tracker)

/-- Each slot has one of the trackers of the unit. -/
theorem tracker_of_mem_slots (hmem : slot ∈ c.slots) : slot.tracker ∈ c.trackers := by
  obtain ⟨⟨f, tracker⟩, hentry, hslot⟩ := List.mem_flatMap.1 hmem
  obtain ⟨region, -, rfl⟩ := List.mem_map.1 hslot
  exact (mem_of_mem_entries hentry).2

/-- The code that a record covers. -/
def slotRange (c : Context) (oracle : Oracle) (layout : UnitLayout) (slot : Slot) : Except (Stop UnwindError) Range :=
  match c.planOf slot.function with
  | .fakeSplit => .ok layout.wholeRange
  | .hotOnly | .hotAndCold => regionRange layout oracle slot.function slot.region

/-- The commit of a record, if its range is known and it can be encoded. -/
def commitOf (c : Context) (oracle : Oracle) (layout : UnitLayout) (slot : Slot) :
    Except (Stop UnwindError) Commit := do
  let range ← c.slotRange oracle layout slot
  let info ← recordInfo slot.tracker slot.region range.size
  return {
    kind := slot.function.kind, hotBase := layout.hotBase
    coldBase := if slot.region.isCold then layout.coldBase else none
    range, payload := info.bytes }

/-- What a call asks the host for if nothing is refused, as far as it can be made up. -/
def agenda (c : Context) : HostCall → List (Except (Stop UnwindError) HostRequest)
  | .reserve => c.slots.map fun slot => .ok (.reserve (slot.tracker.reservation slot.function slot.region))
  | .commit oracle layout => c.slots.map fun slot => (c.commitOf oracle layout slot).map .commit

/-- The order of the records: those of the root and then one for each funclet. -/
theorem map_slots (c : Context) :
    c.slots.map (fun slot => (slot.function, slot.region)) =
      (c.functions.root, .hot) ::
        ((if c.functions.hasColdRegion ∧ c.settings.fakeSplitting = false then [(c.functions.root, .cold)] else []) ++
          c.functions.funclets.map fun f => (f, .hot)) := by
  have hentries : c.slots.map (fun slot => (slot.function, slot.region)) =
      c.functions.toList.flatMap fun f => (c.regions f).map fun region => (f, region) := by
    rw [← map_fst_entries, List.flatMap_map, slots, List.map_flatMap]
    simp only [List.map_map]
    rfl
  have hfunclets : (c.functions.funclets.flatMap fun f => (c.regions f).map fun region => (f, region)) =
      c.functions.funclets.map fun f => (f, .hot) := by
    rw [← List.flatMap_pure_eq_map]
    refine List.flatMap_congr fun f hmem => ?_
    obtain ⟨-, hcold⟩ := c.functions.funclets_hot f hmem
    rw [regions_of_cold_eq_none hcold]
    rfl
  rw [hentries, FunctionSet.toList, List.flatMap_cons, hfunclets, FunctionSet.hasColdRegion, regions, planOf]
  cases c.functions.root.cold <;> cases c.settings.fakeSplitting <;> rfl

/-- A slot of a function that is not committed whole has the range of its region. -/
theorem slotRange_of_planOf (hplan : c.planOf slot.function ≠ .fakeSplit) :
    c.slotRange oracle layout slot = regionRange layout oracle slot.function slot.region := by
  unfold slotRange
  split
  next hfake => exact absurd hfake hplan
  next => rfl
  next => rfl

private theorem map_request_commitErrand (hplan : c.planOf f ≠ .fakeSplit) :
    (commitErrand oracle layout f tracker region).map Errand.request =
      (c.commitOf oracle layout ⟨f, tracker, region⟩).map .commit := by
  rw [commitErrand, commitOf, slotRange_of_planOf hplan]
  cases regionRange layout oracle f region with
  | error stop => rfl
  | ok range =>
    cases hinfo : recordInfo tracker region range.size with
    | error stop => simp only [bind, Except.bind, hinfo, Except.map]
    | ok info =>
      obtain ⟨-, hlength, -⟩ := Recorder.of_info_eq_ok (recordInfo_eq_ok_iff.1 hinfo)
      simp only [bind, Except.bind, hinfo, hlength, ne_eq, not_true, if_false]
      rfl

private theorem map_request_wholeErrand (hplan : c.planOf f = .fakeSplit) :
    (wholeErrand layout f tracker).map Errand.request = (c.commitOf oracle layout ⟨f, tracker, .hot⟩).map .commit := by
  rw [wholeErrand, commitOf, slotRange, hplan]
  simp only [bind, Except.bind]
  cases recordInfo tracker .hot layout.wholeRange.size <;> rfl

private theorem map_request_commitSteps :
    (c.commitSteps oracle layout f tracker).map (·.map Errand.request) =
      (c.regions f).map fun region => (c.commitOf oracle layout ⟨f, tracker, region⟩).map .commit := by
  rw [commitSteps, regions]
  cases hplan : c.planOf f with
  | hotOnly =>
    rw [List.map_singleton, List.map_singleton, map_request_commitErrand (by rw [hplan]; decide)]
  | hotAndCold =>
    simp only [List.map_cons, List.map_nil]
    rw [map_request_commitErrand (by rw [hplan]; decide), map_request_commitErrand (by rw [hplan]; decide)]
  | fakeSplit => rw [List.map_singleton, List.map_singleton, map_request_wholeErrand hplan]

/-- The errands of a call make the requests that are planned. -/
theorem map_request_schedule {steps : List (Except (Stop UnwindError) Errand)} (h : c.schedule call = .ok steps) :
    steps.map (·.map Errand.request) = c.agenda call := by
  cases call with
  | reserve =>
    obtain ⟨-, rfl⟩ := schedule_reserve_eq_ok_iff.1 h
    simp only [agenda, slots, reserveErrands, List.map_flatMap, List.map_map]
    rfl
  | commit oracle layout =>
    obtain ⟨-, rfl⟩ := schedule_commit_eq_ok_iff.1 h
    simp only [agenda, slots, List.map_flatMap, List.map_map, map_request_commitSteps]
    rfl

/-- The markers around the code that a record covers. A record of the whole unit has none. -/
def markers (c : Context) (slot : Slot) : List Location :=
  match c.planOf slot.function with
  | .fakeSplit => []
  | .hotOnly | .hotAndCold => (slot.function.span slot.region).markers

/-- The markers of a slot are those of its region, unless the function is committed whole. -/
theorem mem_markers {location : Location} (hmem : location ∈ c.markers slot) :
    c.planOf slot.function ≠ .fakeSplit ∧ location ∈ (slot.function.span slot.region).markers := by
  unfold markers at hmem
  cases hplan : c.planOf slot.function <;> rw [hplan] at hmem
  case fakeSplit => cases hmem
  case hotOnly | hotAndCold => exact ⟨RegionPlan.noConfusion, hmem⟩

/-- What is in the way of a record: a marker without an offset, or a prolog that cannot be encoded. -/
inductive Obstacle (c : Context) (oracle : Oracle) (slot : Slot) : UnwindError → Prop where
  | marker {location : Location} (hmem : location ∈ c.markers slot) (hnone : oracle location = none) :
      Obstacle c oracle slot (.unresolved location)
  | record {codeLength : UInt32} {cause : RecordError}
      (hinfo : slot.tracker.recorder.info slot.region codeLength = .error (.error cause)) :
      Obstacle c oracle slot (.record cause)

private theorem exists_of_regionRange_eq_error (h : regionRange layout oracle f region = .error (.error e)) :
    ∃ location ∈ (f.span region).markers, oracle location = none ∧ e = .unresolved location := by
  cases region with
  | hot => exact UnitLayout.exists_of_hotRange_eq_error h
  | cold =>
    rw [regionRange] at h
    split at h
    next => exact UnitLayout.exists_of_coldRange_eq_error h
    next => cases h

private theorem ne_none_of_regionRange_eq_ok {range : Range} {location : Location}
    (h : regionRange layout oracle f region = .ok range) (hmem : location ∈ (f.span region).markers) :
    oracle location ≠ none := by
  cases region with
  | hot =>
    obtain ⟨hstart, hstop, -⟩ := UnitLayout.hotRange_eq_ok_iff.1 h
    exact Span.ne_none_of_places hstart hstop hmem
  | cold =>
    rw [regionRange] at h
    split at h
    next =>
      obtain ⟨start, stop, hstart, hstop, -⟩ := UnitLayout.coldRange_eq_ok_iff.1 h
      exact Span.ne_none_of_places hstart hstop hmem
    next => cases h

/-- A record that cannot be committed is not committed because of an obstacle. -/
theorem obstacle_of_commitOf_eq_error (h : c.commitOf oracle layout slot = .error (.error e)) :
    c.Obstacle oracle slot e := by
  simp only [commitOf, bind_eq_error_iff, pure_eq_error_iff, and_false, exists_false, or_false] at h
  obtain hrange | ⟨range, -, hinfo⟩ := h
  · obtain ⟨location, hmem, hnone, rfl⟩ : ∃ location ∈ c.markers slot, oracle location = none ∧
        e = .unresolved location := by
      unfold slotRange at hrange
      unfold markers
      cases hplan : c.planOf slot.function <;> rw [hplan] at hrange
      case fakeSplit => cases hrange
      case hotOnly | hotAndCold => exact exists_of_regionRange_eq_error hrange
    exact .marker hmem hnone
  · obtain ⟨cause, hfails, rfl⟩ := recordInfo_eq_error_iff.1 hinfo
    exact .record hfails

/-- Nothing stands in the way of a commit that can be made up. -/
theorem not_obstacle_of_commitOf_eq_ok (h : c.commitOf oracle layout slot = .ok k) : ¬ c.Obstacle oracle slot e := by
  simp only [commitOf, bind_eq_ok_iff, recordInfo_eq_ok_iff] at h
  obtain ⟨range, hrange, info, hinfo, -⟩ := h
  rintro (⟨hmem, hnone⟩ | hfails)
  · obtain ⟨hplan, hmem⟩ := mem_markers hmem
    rw [slotRange_of_planOf hplan] at hrange
    exact ne_none_of_regionRange_eq_ok hrange hmem hnone
  · exact Recorder.info_ne_error hinfo hfails

end Context

end StackUnwind
