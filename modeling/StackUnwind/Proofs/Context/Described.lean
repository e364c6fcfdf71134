import StackUnwind.Host.Ledger
import StackUnwind.Proofs.Context.Calls
import StackUnwind.Proofs.Layout.Range
import StackUnwind.Proofs.Recorder.Record

namespace StackUnwind

namespace Commit

/-- Whether a commit is of a function, with the record that the function's own recorder makes of a region for as
    much code as the commit covers. -/
structure Carries (k : Commit) (layout : UnitLayout) (f : UnitFunction) (tracker : Tracker) (region : Region) :
    Prop where
  kind : k.kind = f.kind
  hotBase : k.hotBase = layout.hotBase
  payload : tracker.recorder.info region k.range.size = .ok ⟨k.range.size, k.payload⟩

/-- Whether a commit is of a function's hot code. -/
structure IsHot (k : Commit) (oracle : Oracle) (layout : UnitLayout) (f : UnitFunction) (tracker : Tracker) :
    Prop extends k.Carries layout f tracker .hot where
  coldBase : k.coldBase = none
  start : oracle.Places f.hot.start 0 k.range.start
  stop : oracle.Places f.hot.stop layout.hotSize k.range.stop
  ordered : k.range.start ≤ k.range.stop
  inside : k.range.stop ≤ layout.hotSize

/-- Whether a commit is of a function's cold code, which is counted from the end of the hot code. -/
structure IsCold (k : Commit) (oracle : Oracle) (layout : UnitLayout) (f : UnitFunction) (tracker : Tracker)
    (span : Span) : Prop extends k.Carries layout f tracker .cold where
  coldBase : k.coldBase = layout.coldBase
  isSome_coldBase : k.coldBase.isSome
  rebased : ∃ start stop, oracle.Places span.start layout.hotSize start ∧
    oracle.Places span.stop layout.totalSize stop ∧ layout.hotSize ≤ start ∧
    k.range.start.toNat = start.toNat - layout.hotSize.toNat ∧
    k.range.stop.toNat = stop.toNat - layout.hotSize.toNat
  ordered : k.range.start ≤ k.range.stop

/-- Whether a commit is of the whole unit as hot code of a function. -/
structure IsWhole (k : Commit) (layout : UnitLayout) (f : UnitFunction) (tracker : Tracker) : Prop
    extends k.Carries layout f tracker .hot where
  coldBase : k.coldBase = none
  range : k.range = ⟨0, layout.totalSize⟩

end Commit

namespace Context

variable {c : Context} {layout : UnitLayout} {oracle : Oracle} {f : UnitFunction} {tracker : Tracker}
  {region : Region} {e : Errand} {span : Span}

/-- The record of a commit is the one its recorder gives. -/
theorem recordInfo_eq_ok_iff {codeLength : UInt32} {info : UnwindInfo} :
    recordInfo tracker region codeLength = .ok info ↔ tracker.recorder.info region codeLength = .ok info :=
  mapError_eq_ok_iff

/-- Where the recorder gives no record, the commit fails for the same reason. -/
theorem recordInfo_eq_error_iff {codeLength : UInt32} {cause : UnwindError} :
    recordInfo tracker region codeLength = .error (.error cause) ↔
      ∃ record, tracker.recorder.info region codeLength = .error (.error record) ∧ cause = .record record := by
  unfold recordInfo
  cases tracker.recorder.info region codeLength with
  | ok info => simp [Except.mapError]
  | error stop => cases stop <;> simp [Except.mapError, Stop.map, eq_comm]

private theorem exists_of_commitErrand_eq_ok (h : commitErrand oracle layout f tracker region = .ok e) :
    ∃ k, e.request = .commit k ∧ k.Carries layout f tracker region ∧
      k.coldBase = (if region.isCold then layout.coldBase else none) ∧
      regionRange layout oracle f region = .ok k.range := by
  obtain ⟨range, info, hrange, hinfo, -, rfl⟩ := commitErrand_eq_ok_iff.1 h
  rw [recordInfo_eq_ok_iff] at hinfo
  obtain ⟨hlength, -⟩ := Recorder.of_info_eq_ok hinfo
  refine ⟨_, rfl, ⟨rfl, rfl, ?_⟩, rfl, hrange⟩
  rw [hinfo, ← hlength]

/-- What is committed for a hot region. -/
theorem exists_isHot (h : commitErrand oracle layout f tracker .hot = .ok e) :
    ∃ k, e.request = .commit k ∧ k.IsHot oracle layout f tracker := by
  obtain ⟨k, hrequest, hcarries, hbase, hrange⟩ := exists_of_commitErrand_eq_ok h
  obtain ⟨hstart, hstop, hordered, hinside⟩ := UnitLayout.hotRange_eq_ok_iff.1 hrange
  exact ⟨k, hrequest, hcarries, hbase, hstart, hstop, hordered, hinside⟩

/-- What is committed for a cold region. -/
theorem exists_isCold (hspan : f.cold = some span) (hbase : layout.coldBase.isSome)
    (h : commitErrand oracle layout f tracker .cold = .ok e) :
    ∃ k, e.request = .commit k ∧ k.IsCold oracle layout f tracker span := by
  obtain ⟨k, hrequest, hcarries, hcold, hrange⟩ := exists_of_commitErrand_eq_ok h
  have hcold : k.coldBase = layout.coldBase := hcold
  rw [regionRange, hspan] at hrange
  split at hrange
  next hsplit =>
    obtain ⟨start, stop, hstart, hstop, hbegin, hrebased, hordered⟩ := UnitLayout.coldRange_eq_ok_iff.1 hrange
    refine ⟨k, hrequest, hcarries, hcold, by rwa [hcold], ⟨start, stop, hstart, hstop, hbegin, ?_, ?_⟩, hordered⟩
    · rw [hrebased, toNat_monus32]
    · rw [hrebased, toNat_monus32]
  next => cases hrange

/-- What is committed for a unit in one piece. -/
theorem exists_isWhole (h : wholeErrand layout f tracker = .ok e) :
    ∃ k, e.request = .commit k ∧ k.IsWhole layout f tracker := by
  simp only [wholeErrand, bind_eq_ok_iff, pure_eq_ok_iff, recordInfo_eq_ok_iff] at h
  obtain ⟨info, hinfo, rfl⟩ := h
  obtain ⟨hlength, -⟩ := Recorder.of_info_eq_ok hinfo
  refine ⟨_, rfl, ⟨rfl, rfl, ?_⟩, rfl, rfl⟩
  rw [hinfo, ← hlength]

/-- The commits that a unit describes for one of its functions. -/
inductive Described (c : Context) (oracle : Oracle) (layout : UnitLayout) (f : UnitFunction) (tracker : Tracker) :
    List Commit → Prop where
  | hotOnly {k : Commit} (hcold : f.cold = none) (hot : k.IsHot oracle layout f tracker) :
      Described c oracle layout f tracker [k]
  | hotAndCold {span : Span} {k k' : Commit} (hcold : f.cold = some span) (hfake : c.settings.fakeSplitting = false)
      (hot : k.IsHot oracle layout f tracker) (cold : k'.IsCold oracle layout f tracker span) :
      Described c oracle layout f tracker [k, k']
  | fakeSplit {span : Span} {k : Commit} (hcold : f.cold = some span) (hfake : c.settings.fakeSplitting = true)
      (whole : k.IsWhole layout f tracker) : Described c oracle layout f tracker [k]

/-- A unit with cold code is laid out in two places. -/
theorem isSome_coldBase_of_cold (hmem : f ∈ c.functions.toList)
    (hbase : layout.coldBase.isSome = c.functions.hasColdRegion) (hcold : f.cold = some span) :
    layout.coldBase.isSome := by
  rw [hbase, FunctionSet.hasColdRegion, ← eq_root_of_cold hmem (by simp [hcold]), hcold]
  rfl

private theorem exists_described (hmem : f ∈ c.functions.toList)
    (hbase : layout.coldBase.isSome = c.functions.hasColdRegion)
    {es : List Errand} (h : c.commitSteps oracle layout f tracker = es.map .ok) :
    ∃ ks : List Commit, es.map Errand.request = ks.map .commit ∧ c.Described oracle layout f tracker ks := by
  cases hcold : f.cold with
  | none =>
    rw [commitSteps_of_cold_eq_none hcold] at h
    obtain ⟨e, rfl, he⟩ := List.map_eq_singleton_iff.1 h.symm
    obtain ⟨k, hrequest, hot⟩ := exists_isHot he.symm
    exact ⟨[k], by simp [hrequest], .hotOnly hcold hot⟩
  | some span =>
    cases hfake : c.settings.fakeSplitting with
    | false =>
      rw [commitSteps_of_split hcold hfake] at h
      obtain ⟨e, es, rfl, he, htail⟩ := List.map_eq_cons_iff.1 h.symm
      obtain ⟨e', rfl, he'⟩ := List.map_eq_singleton_iff.1 htail
      obtain ⟨k, hrequest, hot⟩ := exists_isHot he.symm
      obtain ⟨k', hrequest', cold⟩ := exists_isCold hcold (isSome_coldBase_of_cold hmem hbase hcold) he'.symm
      exact ⟨[k, k'], by simp [hrequest, hrequest'], .hotAndCold hcold hfake hot cold⟩
    | true =>
      rw [commitSteps_of_fakeSplit hcold hfake] at h
      obtain ⟨e, rfl, he⟩ := List.map_eq_singleton_iff.1 h.symm
      obtain ⟨k, hrequest, whole⟩ := exists_isWhole he.symm
      exact ⟨[k], by simp [hrequest], .fakeSplit hcold hfake whole⟩

/-- The commits of several functions are those of each, one function after another. -/
theorem exists_described_flatMap {entries : List (UnitFunction × Tracker)}
    (hmem : ∀ entry ∈ entries, entry.1 ∈ c.functions.toList)
    (hbase : layout.coldBase.isSome = c.functions.hasColdRegion) {es : List Errand}
    (h : (entries.flatMap fun (f, tracker) => c.commitSteps oracle layout f tracker) = es.map .ok) :
    ∃ kss : List (List Commit), es.map Errand.request = kss.flatten.map .commit ∧
      List.Forall₂ (fun entry ks => c.Described oracle layout entry.1 entry.2 ks) entries kss := by
  -- The errands of the first function are those that its own steps succeed with, and the others follow.
  induction entries generalizing es with
  | nil =>
    obtain rfl := List.map_eq_nil_iff.1 h.symm
    exact ⟨[], rfl, .nil⟩
  | cons entry entries ih =>
    rw [List.flatMap_cons] at h
    obtain ⟨es, rest, rfl, hes, hrest⟩ := List.map_eq_append_iff.1 h.symm
    obtain ⟨ks, hrequests, hks⟩ := exists_described (hmem entry (.head _)) hbase hes.symm
    obtain ⟨kss, hrequests', hkss⟩ := ih (fun entry' hentry => hmem entry' (.tail _ hentry)) hrest.symm
    refine ⟨ks :: kss, ?_, .cons hks hkss⟩
    rw [List.map_append, hrequests, hrequests', List.flatten_cons, List.map_append]

/-- Commitment that comes to its end has made exactly the commits that the unit describes, one function after another
    in the order of the unit, and no other request. -/
theorem commit_described {σ : Type} {host : Host σ} {x y : Exchange σ} (h : c.commit host oracle layout x = .ok () y) :
    ∃ kss : List (List Commit), c.requests host (.commit oracle layout) x = kss.flatten.map .commit ∧
      List.Forall₂ (fun entry ks => c.Described oracle layout entry.1 entry.2 ks)
        (c.functions.toList.zip c.trackers) kss := by
  have hperform : c.perform host (.commit oracle layout) x = .ok () y := h
  obtain ⟨es, hschedule, hrequests⟩ := exists_errands_of_perform hperform
  obtain ⟨⟨-, hbase, -⟩, hsteps⟩ := schedule_commit_eq_ok_iff.1 hschedule
  rw [hrequests]
  exact exists_described_flatMap (fun entry hentry => (mem_of_mem_entries hentry).1) hbase hsteps.symm

/-- A root with cold code and a filter. The hot code of the filter begins where that of the root ends. -/
def splitSample : Context where
  functions := {
    root := .root ⟨none, some ⟨0⟩⟩ (some ⟨none, some ⟨1⟩⟩)
    funclets := [{ kind := .filter, hot := ⟨some ⟨0⟩, none⟩ }]
    root_kind := rfl
    funclets_hot := by simp [UnitFunction.isFunclet, Kind.isFunclet] }
  trackers := [
    { recorder := .x64 { ops := [.push .rbp, .alloc 32] }, phase := .body },
    { recorder := .x64 {}, phase := .body }]
  settings := {}
  length_trackers := rfl

def sampleLayout : UnitLayout := ⟨0x1000, some 0x2000, 100, 200⟩

def sampleOracle (first second : UInt32) : Oracle := fun location =>
  if location.id = 0 then some first else some second

theorem commit_described_splitSample :
    ∃ y kss, splitSample.commit Ledger.host (sampleOracle 70 190) sampleLayout { host := {} } = .ok () y ∧
      kss.flatten = [
        ⟨.root, 0x1000, none, ⟨0, 70⟩, [1, 5, 2, 0, 5, 50, 1, 80]⟩,
        ⟨.root, 0x1000, some 0x2000, ⟨0, 90⟩, [33, 0, 0, 0]⟩,
        ⟨.filter, 0x1000, none, ⟨70, 100⟩, [1, 0, 0, 0]⟩] ∧
      List.Forall₂ (fun entry ks => splitSample.Described (sampleOracle 70 190) sampleLayout entry.1 entry.2 ks)
        (splitSample.functions.toList.zip splitSample.trackers) kss := by
  obtain ⟨⟨⟩, y, hcommit⟩ := exists_of_succeeds (r := splitSample.commit Ledger.host (sampleOracle 70 190) sampleLayout
    { host := {} }) (by decide +kernel)
  obtain ⟨kss, hrequests, hkss⟩ := commit_described hcommit
  refine ⟨y, kss, hcommit, ?_, hkss⟩
  refine List.map_injective_iff.2 (fun _ _ => HostRequest.commit.inj) (hrequests.symm.trans ?_)
  decide +kernel

end Context

end StackUnwind
