import StackUnwind.Context.Reservation
import StackUnwind.Proofs.Context.Plan
import StackUnwind.Proofs.Exchange.Errand

namespace StackUnwind

/-- A way to deal with a host about the records of a unit. -/
inductive HostCall where
  | reserve
  | commit (oracle : Oracle) (layout : UnitLayout)

/-- The storage that a function needs for its record of a region. -/
def Tracker.reservation (t : Tracker) (f : UnitFunction) (region : Region) : Reservation :=
  { isFunclet := f.isFunclet, isCold := region.isCold, size := .ofNat (t.recorder.infoSize region) }

namespace Context

def perform {σ : Type} (c : Context) (host : Host σ) : HostCall → ExchangeM σ Unit
  | .reserve => c.reserve host
  | .commit oracle layout => c.commit host oracle layout

/-- The regions of a function that storage is reserved for. -/
def regions (c : Context) (f : UnitFunction) : List Region :=
  match c.planOf f with
  | .hotOnly | .fakeSplit => [.hot]
  | .hotAndCold => [.hot, .cold]

/-- The storage for all records of a unit. -/
def reservations (c : Context) : List Reservation :=
  c.entries.flatMap fun (f, tracker) => (c.regions f).map (tracker.reservation f)

def reserveErrand (f : UnitFunction) (tracker : Tracker) (region : Region) : Errand :=
  let r := tracker.reservation f region
  { request := .reserve r
    text := s!"reserve {f.kind.name} {region.describe} unwind info, {r.size} bytes"
    tally := (·.recordReservation r.size) }

/-- The commit of a finished record of a region. -/
def recordErrand (layout : UnitLayout) (f : UnitFunction) (region : Region) (range : Range) (payload : List UInt8) :
    Errand :=
  let size := UInt64.ofNat payload.length
  { request := .commit {
      kind := f.kind, hotBase := layout.hotBase
      coldBase := if region.isCold then layout.coldBase else none
      range, payload }
    text := s!"commit {f.kind.name} {region.describe} unwind info " ++ s!"{range.describe}, {size} bytes"
    tally := (·.recordCommit f.kind region size) }

def commitErrand (oracle : Oracle) (layout : UnitLayout) (f : UnitFunction) (tracker : Tracker) (region : Region) :
    Except (Stop UnwindError) Errand := do
  let range ← regionRange layout oracle f region
  let info ← recordInfo tracker region range.size
  if info.bytes.length ≠ tracker.recorder.infoSize region then
    throw (.fault .recordSizeMismatch)
  return recordErrand layout f region range info.bytes

def wholeErrand (layout : UnitLayout) (f : UnitFunction) (tracker : Tracker) : Except (Stop UnwindError) Errand := do
  let info ← recordInfo tracker .hot layout.wholeRange.size
  let size := UInt64.ofNat info.bytes.length
  return {
    request := .commit {
      kind := f.kind, hotBase := layout.hotBase, coldBase := none
      range := layout.wholeRange, payload := info.bytes }
    text := s!"commit fake-split {f.kind.name} unwind info " ++ s!"{layout.wholeRange.describe}, {size} bytes"
    tally := (·.recordFakeSplitCommit size) }

/-- The commits of a function, one after another. -/
def commitSteps (c : Context) (oracle : Oracle) (layout : UnitLayout) (f : UnitFunction) (tracker : Tracker) :
    List (Except (Stop UnwindError) Errand) :=
  match c.planOf f with
  | .hotOnly => [commitErrand oracle layout f tracker .hot]
  | .hotAndCold => [commitErrand oracle layout f tracker .hot, commitErrand oracle layout f tracker .cold]
  | .fakeSplit => [wholeErrand layout f tracker]

/-- What a call does at the host, if the unit may be dealt with. -/
def schedule (c : Context) : HostCall → Except Fault (List (Except (Stop UnwindError) Errand))
  | .reserve => do
    c.requireClosed
    return c.entries.flatMap fun (f, tracker) => (c.regions f).map fun region => .ok (reserveErrand f tracker region)
  | .commit oracle layout => do
    c.requireClosed
    c.requireLayout layout
    return c.entries.flatMap fun (f, tracker) => c.commitSteps oracle layout f tracker

section Cases

variable {c : Context} {f : UnitFunction} {tracker : Tracker} {oracle : Oracle} {layout : UnitLayout} {span : Span}

/-- A commit can be made up when the range resolves, the recorder gives a record and the record has its announced size.
    -/
theorem commitErrand_eq_ok_iff {region : Region} {e : Errand} :
    commitErrand oracle layout f tracker region = .ok e ↔
      ∃ range info, regionRange layout oracle f region = .ok range ∧
        recordInfo tracker region range.size = .ok info ∧
        info.bytes.length = tracker.recorder.infoSize region ∧ e = recordErrand layout f region range info.bytes := by
  simp only [commitErrand, bind_eq_ok_iff, check_eq_ok_iff, pure_eq_ok_iff, not_not, exists_and_left]

/-- A function without cold code has a record of its hot region only. -/
theorem regions_of_cold_eq_none (hcold : f.cold = none) : c.regions f = [.hot] := by
  simp [regions, planOf, hcold]

/-- One that is split has a record of each region. -/
theorem regions_of_split (hcold : f.cold = some span) (hfake : c.settings.fakeSplitting = false) :
    c.regions f = [.hot, .cold] := by
  simp [regions, planOf, hcold, hfake]

/-- One whose split is faked has one record, as if it were all hot. -/
theorem regions_of_fakeSplit (hcold : f.cold = some span) (hfake : c.settings.fakeSplitting = true) :
    c.regions f = [.hot] := by
  simp [regions, planOf, hcold, hfake]

/-- What a function without cold code commits. -/
theorem commitSteps_of_cold_eq_none (hcold : f.cold = none) :
    c.commitSteps oracle layout f tracker = [commitErrand oracle layout f tracker .hot] := by
  simp [commitSteps, planOf, hcold]

/-- What a function that is split commits, hot code first. -/
theorem commitSteps_of_split (hcold : f.cold = some span) (hfake : c.settings.fakeSplitting = false) :
    c.commitSteps oracle layout f tracker =
      [commitErrand oracle layout f tracker .hot, commitErrand oracle layout f tracker .cold] := by
  simp [commitSteps, planOf, hcold, hfake]

/-- What a function whose split is faked commits. -/
theorem commitSteps_of_fakeSplit (hcold : f.cold = some span) (hfake : c.settings.fakeSplitting = true) :
    c.commitSteps oracle layout f tracker = [wholeErrand layout f tracker] := by
  simp [commitSteps, planOf, hcold, hfake]

end Cases

section Programs

variable {σ : Type} {c : Context} {f : UnitFunction} {tracker : Tracker} {host : Host σ} {oracle : Oracle}
  {layout : UnitLayout}

private theorem reserveRegion_eq (region : Region) :
    reserveRegion host f tracker region = Exchange.serve host [.ok (reserveErrand f tracker region)] := by
  rw [Exchange.serve_singleton]
  rfl

private theorem commitRegion_eq (region : Region) :
    commitRegion host oracle layout f tracker region =
      Exchange.serve host [commitErrand oracle layout f tracker region] := by
  rw [Exchange.serve_singleton, commitErrand, liftM_bind_bind]
  refine bind_congr fun range => ?_
  rw [liftM_bind_bind]
  refine bind_congr fun info => ?_
  by_cases hlength : info.bytes.length = tracker.recorder.infoSize region
  · rw [if_neg (not_not.2 hlength), if_neg (not_not.2 hlength)]
    rfl
  · rw [if_pos hlength, if_pos hlength]
    rfl

/-- A function with cold code in a unit with a cold base passes the checks of a record over the whole unit. -/
theorem commitWhole_eq (hbase : layout.coldBase.isSome) (hsplit : f.maySplit = true) :
    commitWhole host layout f tracker = Exchange.serve host [wholeErrand layout f tracker] := by
  rw [Exchange.serve_singleton, wholeErrand, liftM_bind_bind]
  obtain ⟨base, hbase⟩ := Option.isSome_iff_exists.1 hbase
  simp only [commitWhole, hbase, hsplit, Option.isNone_some, Bool.not_true, Bool.false_eq_true, if_false]
  rfl

private theorem reserveFunction_eq (hmem : f ∈ c.functions.toList) :
    c.reserveFunction host f tracker =
      Exchange.serve host ((c.regions f).map fun region => .ok (reserveErrand f tracker region)) := by
  rw [reserveFunction, plan_of_mem hmem, regions]
  cases c.planOf f with
  | hotOnly | fakeSplit => exact reserveRegion_eq .hot
  | hotAndCold =>
    rw [List.map_cons, Exchange.serve_cons, List.map_singleton, ← reserveRegion_eq, ← reserveRegion_eq]
    rfl

/-- Only a function with cold code is planned otherwise than hot. -/
theorem isSome_cold_of_planOf (h : c.planOf f ≠ .hotOnly) : f.cold.isSome = true := by
  unfold planOf at h
  split at h
  next hcold => exact hcold
  next => exact absurd rfl h

private theorem commitFunction_eq (hmem : f ∈ c.functions.toList)
    (hbase : layout.coldBase.isSome = c.functions.hasColdRegion) :
    c.commitFunction host oracle layout f tracker = Exchange.serve host (c.commitSteps oracle layout f tracker) := by
  rw [commitFunction, hbase, plan_of_mem hmem, commitSteps]
  cases hplan : c.planOf f with
  | hotOnly => exact commitRegion_eq .hot
  | hotAndCold =>
    rw [Exchange.serve_cons, ← commitRegion_eq, ← commitRegion_eq]
    rfl
  | fakeSplit =>
    have hcold : f.cold.isSome = true := isSome_cold_of_planOf (by rw [hplan]; decide)
    have hsome : layout.coldBase.isSome := by
      rw [hbase, FunctionSet.hasColdRegion, ← eq_root_of_cold hmem hcold, hcold]
    exact commitWhole_eq hsome (maySplit_of_cold hmem hcold)

/-- A call runs its errands, if the unit may be dealt with. -/
theorem perform_eq (call : HostCall) :
    c.perform host call = (do Exchange.serve host (← c.schedule call)) := by
  cases call with
  | reserve =>
    rw [perform, reserve, schedule]
    cases c.requireClosed with
    | error fault => rfl
    | ok =>
      exact Exchange.forM_eq_serve fun entry hentry => reserveFunction_eq (mem_of_mem_entries hentry).1
  | commit oracle layout =>
    rw [perform, commit, schedule]
    cases c.requireClosed with
    | error fault => rfl
    | ok =>
      cases hlayout : c.requireLayout layout with
      | error fault => rfl
      | ok =>
        obtain ⟨hbase, -⟩ := requireLayout_eq_ok_iff.1 hlayout
        exact Exchange.forM_eq_serve fun entry hentry => commitFunction_eq (mem_of_mem_entries hentry).1 hbase

end Programs

end Context

end StackUnwind
