import StackUnwind.Proofs.Context.Requests
import StackUnwind.Proofs.Emission.Mirror
import StackUnwind.Proofs.Generation.Range
import StackUnwind.Proofs.Generation.Run

namespace StackUnwind

/-- The record of a frame's prolog. -/
def FrameLayout.record (frame : FrameLayout) : Except (Stop RecordError) UnwindRecord := do
  UnwindRecord.ofOps (← frame.prologOps)

namespace AssembledUnit

/-- The layout of a unit whose code is placed at an address in one piece, without an overflow. -/
def placedAt (done : AssembledUnit) (base : UInt64) : UnitLayout where
  hotBase := base
  coldBase := if done.isSplit then some (.ofNat (base.toNat + done.hotSize.toNat)) else none
  hotSize := done.hotSize
  totalSize := done.totalSize

/-- A finished unit can be placed wherever its hot code does not reach the end of the address space. -/
theorem layout_eq_ok {done : AssembledUnit} {base : UInt64} (hsize : done.hotSize.toNat ≤ done.totalSize.toNat)
    (hwhole : done.isSplit = false → done.hotSize = done.totalSize)
    (hbase : base.toNat + done.hotSize.toNat < 2 ^ 64) : done.layout base = .ok (done.placedAt base) := by
  cases hsplit : done.isSplit with
  | false => simp [layout, placedAt, hsplit, UnitLayout.hotOnly, hwhole hsplit]
  | true =>
    have hword : word64 .add (base.toNat + done.hotSize.toNat) = .ok (.ofNat (base.toNat + done.hotSize.toNat)) := by
      rw [word64, if_pos (by omega)]
    have hle : done.hotSize ≤ done.totalSize := UInt32.le_iff_toNat_le.2 hsize
    simp [layout, placedAt, hsplit, hword, UnitLayout.split, hle, bind, Except.bind]

end AssembledUnit

namespace Context

/-- A new context has the given functions, each with a fresh tracker. -/
theorem of_fresh {arch : Arch} {functions : List UnitFunction} {settings : Settings} {c : Context}
    (h : fresh arch functions settings = .ok c) :
    c.functions.toList = functions ∧ c.settings = settings ∧ ∀ t ∈ c.trackers, t = .fresh arch := by
  unfold fresh ofTrackers at h
  split at h
  · split at h <;> cases h
    next hset =>
      refine ⟨FunctionSet.toList_of_ofList_eq_ok hset, rfl, fun t ht => ?_⟩
      obtain ⟨f, -, rfl⟩ := List.mem_map.1 ht
      rfl
  · cases h

end Context

namespace Tracker

/-- The bytes of the record of the hot code. -/
def payload (t : Tracker) : List UInt8 :=
  match t.recorder.info .hot 0 with
  | .ok info => info.bytes
  | .error _ => []

/-- A function whose prolog has been written is ready with the record of its frame. -/
theorem ready_of_recorded {t : Tracker} {frame : FrameLayout} (h : t.Recorded (some frame)) :
    t.Ready t.payload ∧ ∃ record, frame.record = .ok record ∧ t.payload = record.bytes := by
  obtain ⟨hbody, log, is, hrecorder, hops, hexpressible⟩ := h
  have hrecord := UnwindRecord.ofOps_eq_ok_iff.2 ⟨is, hexpressible, rfl⟩
  have hinfo (codeLength : UInt32) :
      t.recorder.info .hot codeLength = .ok ⟨codeLength, (UnwindRecord.recordOf log.ops is).bytes⟩ := by
    rw [hrecorder]
    exact Recorder.info_hot_eq_ok_iff.2 ⟨_, hrecord, rfl⟩
  have hpayload : t.payload = (UnwindRecord.recordOf log.ops is).bytes := by
    rw [payload, hinfo]
  have hlength := hexpressible.length_bytes
  rw [UnwindRecord.encodedSize, UnwindRecord.headerSize] at hlength
  rw [hpayload]
  refine ⟨⟨hbody, hinfo, fun _ => ?_, ?_, ?_, by omega, hexpressible.length_bytes_le⟩, _, ?_, rfl⟩
  · rw [hrecorder]
    rfl
  · rw [hrecorder, hexpressible.length_bytes]
    rfl
  · rw [hrecorder]
    rfl
  · rw [FrameLayout.record, bind_eq_ok_iff]
    exact ⟨log.ops, liftM_fault_eq_ok_iff.2 hops, hrecord⟩

end Tracker

namespace Generation

/-- Whether every prolog has been written and the markers are placed where their spans need them: those of hot
    code up to the beginning of the cold section, those of cold code from there on, and each start before its
    stop. -/
structure WellOrdered (g : Generation) : Prop where
  prologs : ∀ frame ∈ g.frames, frame.isSome
  hot : ∀ f ∈ g.context.functions.toList, f.hot.Within g.hot
  split : g.context.functions.root.cold.isSome = g.unit.inColdSection
  cold : ∀ span ∈ g.context.functions.root.cold, span.Within g.cold

instance {g : Generation} : Decidable g.WellOrdered :=
  decidable_of_iff
    ((∀ frame ∈ g.frames, frame.isSome) ∧ (∀ f ∈ g.context.functions.toList, f.hot.Within g.hot) ∧
      g.context.functions.root.cold.isSome = g.unit.inColdSection ∧
      ∀ span ∈ g.context.functions.root.cold, span.Within g.cold)
    ⟨fun ⟨hprologs, hhot, hsplit, hcold⟩ => ⟨hprologs, hhot, hsplit, hcold⟩,
      fun h => ⟨h.prologs, h.hot, h.split, h.cold⟩⟩

/-- The range between the places of a function's markers in hot code. -/
def hotRange (g : Generation) (done : AssembledUnit) (f : UnitFunction) : Range :=
  rangeIn g.hot f.hot 0 done.hotSize.toNat

/-- The range between the places of a function's markers in cold code, counted from its start. -/
def coldRange (g : Generation) (done : AssembledUnit) (f : UnitFunction) : Range :=
  rangeIn g.cold (f.cold.getD .whole) done.hotSize.toNat done.totalSize.toNat

/-- The commits of a function whose record has the given bytes, for code that is placed at an address. -/
def commits (g : Generation) (done : AssembledUnit) (base : UInt64) (f : UnitFunction) (payload : List UInt8) :
    List Commit :=
  f.commits (done.placedAt base) payload (g.hotRange done f) (g.coldRange done f)

variable {c : Context} {g : Generation} {done : AssembledUnit} {base : UInt64}

private theorem WellOrdered.isSome_coldBase (h : g.WellOrdered) (hfinished : g.unit.Finished done) (base : UInt64) :
    (done.placedAt base).coldBase.isSome = g.context.functions.hasColdRegion := by
  rw [FunctionSet.hasColdRegion, h.split, UnitCode.inColdSection, ← hfinished.split, AssembledUnit.placedAt]
  cases done.isSplit <;> rfl

private theorem Inv.hotRange_eq_ok (h : Inv c g) (hordered : g.WellOrdered) (hfinished : g.unit.Finished done)
    {f : UnitFunction} (hf : f ∈ g.context.functions.toList) :
    (done.placedAt base).hotRange done.locations.offset? f.hot = .ok (g.hotRange done f) :=
  h.placements.hotRange_eq_ok hfinished rfl (hordered.hot f hf)

private theorem Inv.coldRange_eq_ok (h : Inv c g) (hordered : g.WellOrdered) (hfinished : g.unit.Finished done)
    {f : UnitFunction} (hf : f ∈ g.context.functions.toList) {span : Span} (hspan : f.cold = some span) :
    (done.placedAt base).coldRange done.locations.offset? span = .ok (g.coldRange done f) := by
  have hroot : f = g.context.functions.root := Context.eq_root_of_cold hf (by rw [hspan]; rfl)
  rw [coldRange, hspan]
  exact h.placements.coldRange_eq_ok hfinished rfl rfl (hordered.cold span (hroot ▸ hspan))

/-- Each function is ready, with the record of the frame that its prolog has set up. -/
theorem Inv.ready (h : Inv c g) (hordered : g.WellOrdered) :
    (∀ t ∈ g.context.trackers, t.Ready t.payload) ∧
      List.Forall₂ (fun frame? payload => ∃ frame record, frame? = some frame ∧ frame.record = .ok record ∧
        payload = record.bytes) g.frames (g.context.trackers.map Tracker.payload) := by
  have hboth := (List.forall₂_and_left _ _).2 ⟨hordered.prologs, h.recorded.flip⟩
  have hready : List.Forall₂ (fun t frame? => t.Ready t.payload ∧ ∃ frame record, frame? = some frame ∧
      frame.record = .ok record ∧ t.payload = record.bytes) g.context.trackers g.frames := by
    refine hboth.flip.imp fun t frame? hentry => ?_
    obtain ⟨hsome, hrecorded⟩ := hentry
    obtain ⟨frame, rfl⟩ := Option.isSome_iff_exists.1 hsome
    obtain ⟨hready, record, hrecord, hpayload⟩ := Tracker.ready_of_recorded hrecorded
    exact ⟨hready, frame, record, rfl, hrecord, hpayload⟩
  obtain ⟨hall, hrecords⟩ := (List.forall₂_and_left _ _).1 hready
  exact ⟨hall, List.forall₂_map_right_iff.2 hrecords.flip⟩

private theorem Inv.length_entries_lt (h : Inv c g) (hordered : g.WellOrdered) (hfinished : g.unit.Finished done) :
    g.context.entries.length < 2 ^ 32 := by
  have hcount : g.frames.countP Option.isSome = g.frames.length := List.countP_eq_length.2 hordered.prologs
  have hprologs := h.prologs
  have hlength := h.recorded.length_eq
  have htotal := done.totalSize.toNat_lt
  rw [hfinished.total] at htotal
  simp only [Context.entries, List.length_zip]
  omega

/-- The commits of all functions, one function after another. -/
theorem commits_eq_flatten (g : Generation) (done : AssembledUnit) (base : UInt64) :
    g.context.commits (done.placedAt base) Tracker.payload (g.hotRange done) (g.coldRange done) =
      (List.zipWith (g.commits done base) g.context.functions.toList
        (g.context.trackers.map Tracker.payload)).flatten := by
  rw [List.zipWith_map_right, ← List.map_uncurry_zip_eq_zipWith]
  rfl

/-- A complete and well-ordered generation always commits. A unit is generated for fresh trackers, each function
    with one prolog of a frame that was made by calls. Then, with a host that accepts everything and counts that do
    not overflow, storage is reserved for exactly the records that are committed, and these are the records of the
    frames with the ranges between the places of the markers. -/
theorem run_commits {functions : List UnitFunction} {settings : Settings} {calls : List CodegenCall} {σ : Type}
    (onReserve : σ → Reservation → σ) (onCommit : σ → Commit → σ) {x : Exchange σ}
    (hfresh : Context.fresh .x64 functions settings = .ok c) (hfake : settings.fakeSplitting = false)
    (hbuilt : ∀ index frame, .prolog index frame ∈ calls → frame.Built) (hrun : (start c).run calls = some g)
    (hordered : g.WellOrdered) (hfinish : g.unit.finish = .ok done)
    (hbase : base.toNat + done.hotSize.toNat < 2 ^ 64) (hroom : x.session.stats.Room (2 ^ 43)) :
    ∃ payloads reserved committed,
      List.Forall₂ (fun frame? payload => ∃ frame record, frame? = some frame ∧ frame.record = .ok record ∧
        payload = record.bytes) g.frames payloads ∧
      done.layout base = .ok (done.placedAt base) ∧
      g.context.reserve (.accepting onReserve onCommit) x = .ok () reserved ∧
      g.context.commit (.accepting onReserve onCommit) done.locations.offset? (done.placedAt base) reserved =
        .ok () committed ∧
      let commits := (List.zipWith (g.commits done base) functions payloads).flatten
      reserved.host = (commits.map Commit.reservation).foldl onReserve x.host ∧
        committed.host = commits.foldl onCommit reserved.host := by
  obtain ⟨hfunctions, hsettings, htrackers⟩ := Context.of_fresh hfresh
  have hinv := (inv_start htrackers).run hbuilt hrun
  have hfinished := UnitCode.finished_of_finish hfinish
  obtain ⟨hready, hrecords⟩ := hinv.ready hordered
  have hlength := hinv.length_entries_lt hordered hfinished
  have hsize := hinv.placements.hotSize_le hfinished
  have hplain : g.context.settings.fakeSplitting = false := by rw [hinv.settings, hsettings, hfake]
  have hcold := hordered.isSome_coldBase hfinished base
  have hlayout := AssembledUnit.layout_eq_ok hsize hfinished.hotSize_eq_totalSize hbase
  have hreserve := @Context.delivers_reserve g.context σ onReserve onCommit (done.placedAt base) Tracker.payload
    (g.hotRange done) (g.coldRange done) hplain hready (fun hregion => by rw [hcold, hregion])
  have hcommit := @Context.delivers_commit g.context σ onReserve onCommit (done.placedAt base) Tracker.payload
    (g.hotRange done) (g.coldRange done) done.locations.offset? hplain hready hcold (UInt32.le_iff_toNat_le.2 hsize)
    (fun f hf => hinv.hotRange_eq_ok hordered hfinished hf)
    (fun f hf span hspan => hinv.coldRange_eq_ok hordered hfinished hf hspan)
  rw [commits_eq_flatten, hinv.functions, hfunctions] at hreserve hcommit
  -- No function adds more than 520 to a count, and there are fewer functions than bytes of code.
  obtain ⟨reserved, hreserved, hreservedHost, hleft⟩ :=
    hreserve x (g.context.entries.length * 520 + 0) (hroom.mono (by omega))
  obtain ⟨committed, hcommitted, hcommittedHost, -⟩ := hcommit reserved 0 hleft
  exact ⟨_, reserved, committed, hrecords, hlayout, hreserved, hcommitted, hreservedHost, hcommittedHost⟩

/-- A root with cold code and a handler between its hot and its cold code. -/
def sampleContext : Context where
  functions := {
    root := .root ⟨some ⟨0⟩, some ⟨1⟩⟩ (some ⟨some ⟨3⟩, some ⟨4⟩⟩)
    funclets := [{ kind := .handler, hot := ⟨some ⟨1⟩, some ⟨2⟩⟩ }]
    root_kind := rfl
    funclets_hot := by simp [UnitFunction.isFunclet, Kind.isFunclet] }
  trackers := [.fresh .x64, .fresh .x64]
  settings := {}
  length_trackers := rfl

def sampleCalls : List CodegenCall := [
  .newLocation, .newLocation, .newLocation, .newLocation, .newLocation,
  .place ⟨0⟩, .prolog 0 .sample, .instruction .nop, .epilog 0, .place ⟨1⟩,
  .prolog 1 {}, .epilog 1, .place ⟨2⟩,
  .beginColdAt ⟨3⟩, .instruction .int3, .epilog 0, .place ⟨4⟩]

private theorem built_of_mem_sampleCalls (index : Nat) (frame : FrameLayout) (h : .prolog index frame ∈ sampleCalls) :
    frame.Built := by
  simp only [sampleCalls, List.mem_cons, List.not_mem_nil, reduceCtorEq, CodegenCall.prolog.injEq, false_or,
    or_false] at h
  obtain ⟨-, rfl⟩ | ⟨-, rfl⟩ := h
  · exact FrameLayout.built_sample
  · exact .empty

/-- The ranges that a generation for the sample context commits, if it may. -/
def sampleRanges (g : Generation) (done : AssembledUnit) : Option (List Range) :=
  if g.WellOrdered ∧ g.frames.length = 2 then
    some ((List.zipWith (g.commits done 0x20000) sampleContext.functions.toList [[], []]).flatten.map Commit.range)
  else none

theorem run_commits_sample : ∃ c g done reserved committed,
    Context.fresh .x64 sampleContext.functions.toList {} = .ok c ∧ (start c).run sampleCalls = some g ∧
    g.unit.finish = .ok done ∧ g.context.reserve Ledger.host { host := {} } = .ok () reserved ∧
    g.context.commit Ledger.host done.locations.offset? (done.placedAt 0x20000) reserved = .ok () committed ∧
    committed.host.commits.map Commit.range = [⟨0, 31⟩, ⟨0, 14⟩, ⟨31, 37⟩] := by
  have hfresh : Context.fresh .x64 sampleContext.functions.toList {} = .ok sampleContext := rfl
  have hrun : ((start sampleContext).run sampleCalls).any (fun g => g.unit.finish.toOption.any fun done =>
      sampleRanges g done = some [⟨0, 31⟩, ⟨0, 14⟩, ⟨31, 37⟩]) = true := by decide +kernel
  obtain ⟨g, hrun, hfinish⟩ := (Option.any_eq_true _ _).1 hrun
  obtain ⟨done, hfinish, hranges⟩ := (Option.any_eq_true _ _).1 hfinish
  rw [toOption_eq_some_iff] at hfinish
  simp only [sampleRanges, decide_eq_true_eq, Option.ite_none_right_eq_some, Option.some_inj] at hranges
  obtain ⟨⟨hordered, htwo⟩, hranges⟩ := hranges
  have hbase : (0x20000 : UInt64).toNat + done.hotSize.toNat < 2 ^ 64 := by
    have hlt := done.hotSize.toNat_lt
    rw [show (0x20000 : UInt64).toNat = 0x20000 from rfl]
    omega
  have hroom : ({ host := {} } : Exchange Ledger).session.stats.Room (2 ^ 43) := by constructor <;> decide
  obtain ⟨payloads, reserved, committed, hrecords, -, hreserve, hcommit, hreserved, hcommitted⟩ :=
    run_commits Ledger.reserve Ledger.commit hfresh rfl built_of_mem_sampleCalls hrun hordered hfinish hbase hroom
  rw [← Ledger.host_eq_accepting] at hreserve hcommit
  refine ⟨sampleContext, g, done, reserved, committed, hfresh, hrun, hfinish, hreserve, hcommit, ?_⟩
  rw [hrecords.length_eq] at htwo
  obtain ⟨root, handler, rfl⟩ := List.length_eq_two.1 htwo
  rw [hcommitted, hreserved, Ledger.foldl_reserve, Ledger.foldl_commit, ← hranges]
  rfl

end Generation

end StackUnwind
