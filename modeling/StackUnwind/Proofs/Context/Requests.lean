import StackUnwind.Proofs.Context.Calls
import StackUnwind.Proofs.Exchange.Delivery

namespace StackUnwind

namespace Commit

/-- The storage that a commit takes. -/
def reservation (c : Commit) : Reservation :=
  { isFunclet := c.kind.isFunclet, isCold := c.coldBase.isSome, size := .ofNat c.payload.length }

end Commit

namespace UnitFunction

/-- The commits of a function, given the bytes of its record and the ranges of its hot and of its cold code. -/
def commits (f : UnitFunction) (layout : UnitLayout) (payload : List UInt8) (hot cold : Range) : List Commit :=
  { kind := f.kind, hotBase := layout.hotBase, coldBase := none, range := hot, payload } ::
    if f.cold.isSome then [{
      kind := f.kind, hotBase := layout.hotBase, coldBase := layout.coldBase, range := cold
      payload := UnwindRecord.ofCold.bytes }]
    else []

end UnitFunction

/-- Whether a function is ready for commitment with a record of the given bytes. -/
structure Tracker.Ready (t : Tracker) (payload : List UInt8) : Prop where
  body : t.phase = .body
  hot : ∀ codeLength, t.recorder.info .hot codeLength = .ok ⟨codeLength, payload⟩
  cold : ∀ codeLength, t.recorder.info .cold codeLength = .ok ⟨codeLength, UnwindRecord.ofCold.bytes⟩
  infoSize_hot : t.recorder.infoSize .hot = payload.length
  infoSize_cold : t.recorder.infoSize .cold = UnwindRecord.ofCold.bytes.length
  length_pos : 1 ≤ payload.length
  length_le : payload.length ≤ 516

namespace Context

/-- The commits for all functions of a unit. -/
def commits (c : Context) (layout : UnitLayout) (payload : Tracker → List UInt8) (hot cold : UnitFunction → Range) :
    List Commit :=
  c.entries.flatMap fun (f, tracker) => f.commits layout (payload tracker) (hot f) (cold f)

variable {c : Context} {f : UnitFunction} {tracker : Tracker}

section Deliveries

variable {σ : Type} {onReserve : σ → Reservation → σ} {onCommit : σ → Commit → σ} {oracle : Oracle}
  {layout : UnitLayout}

private theorem delivers_reserveErrand {region : Region} (hpos : 1 ≤ tracker.recorder.infoSize region)
    (hlt : tracker.recorder.infoSize region < 2 ^ 64) :
    Exchange.Delivers onReserve
      (Exchange.serve (Host.accepting onReserve onCommit) [.ok (reserveErrand f tracker region)])
      (tracker.recorder.infoSize region) [tracker.reservation f region] := by
  have hsize := UInt64.toNat_ofNat_of_lt' hlt
  refine Exchange.delivers_errand _ (fun _ => rfl) fun stats room hroom => ?_
  rw [← hsize] at hpos hroom
  exact Stats.recordReservation_of_room hpos hroom

private theorem delivers_commitErrand {region : Region} {range : Range} {info : UnwindInfo}
    (hrange : regionRange layout oracle f region = .ok range)
    (hinfo : recordInfo tracker region range.size = .ok info)
    (hlength : info.bytes.length = tracker.recorder.infoSize region) (hpos : 1 ≤ info.bytes.length)
    (hlt : info.bytes.length < 2 ^ 64) :
    Exchange.Delivers onCommit
      (Exchange.serve (Host.accepting onReserve onCommit) [commitErrand oracle layout f tracker region])
      info.bytes.length
      [⟨f.kind, layout.hotBase, if region.isCold then layout.coldBase else none, range, info.bytes⟩] := by
  have hsize := UInt64.toNat_ofNat_of_lt' hlt
  rw [commitErrand_eq_ok_iff.2 ⟨range, info, hrange, hinfo, hlength, rfl⟩]
  refine Exchange.delivers_errand _ (fun _ => rfl) fun stats room hroom => ?_
  rw [← hsize] at hpos hroom
  exact Stats.recordCommit_of_room _ _ hpos hroom

variable {payload : List UInt8} {hot cold : Range}

private theorem delivers_reserveFunction (hfake : c.settings.fakeSplitting = false) (hready : tracker.Ready payload)
    (hsplit : f.cold.isSome → layout.coldBase.isSome) :
    Exchange.Delivers onReserve
      (Exchange.serve (Host.accepting onReserve onCommit)
        ((c.regions f).map fun region => .ok (reserveErrand f tracker region))) 520
      ((f.commits layout payload hot cold).map Commit.reservation) := by
  have hhot := @delivers_reserveErrand f tracker _ onReserve onCommit .hot
  have hcold := @delivers_reserveErrand f tracker _ onReserve onCommit .cold
  rw [Tracker.reservation, hready.infoSize_hot] at hhot
  rw [Tracker.reservation, hready.infoSize_cold] at hcold
  have hle := hready.length_le
  specialize hhot hready.length_pos (by omega)
  specialize hcold (by decide) (by decide)
  cases hspan : f.cold with
  | none =>
    rw [regions_of_cold_eq_none hspan]
    simp only [UnitFunction.commits, hspan]
    exact hhot.mono (by omega)
  | some span =>
    have hbase := hsplit (by rw [hspan]; rfl)
    rw [regions_of_split hspan hfake, List.map_cons, Exchange.serve_cons]
    simp only [UnitFunction.commits, hspan, Option.isSome_some, if_true, List.map_cons, List.map_nil,
      Commit.reservation, hbase]
    exact (hhot.seq hcold).mono (Nat.add_le_add_right hle 4)

private theorem delivers_commitFunction (hfake : c.settings.fakeSplitting = false) (hmem : f ∈ c.functions.toList)
    (hready : tracker.Ready payload) (hhot : layout.hotRange oracle f.hot = .ok hot)
    (hcold : ∀ span, f.cold = some span → layout.coldRange oracle span = .ok cold) :
    Exchange.Delivers onCommit
      (Exchange.serve (Host.accepting onReserve onCommit) (c.commitSteps oracle layout f tracker)) 520
      (f.commits layout payload hot cold) := by
  have hle := hready.length_le
  have hshort : payload.length < 2 ^ 64 := by omega
  have hhotInfo : recordInfo tracker .hot hot.size = .ok ⟨hot.size, payload⟩ :=
    mapError_eq_ok_iff.2 (hready.hot hot.size)
  have hcoldInfo : recordInfo tracker .cold cold.size = .ok ⟨cold.size, UnwindRecord.ofCold.bytes⟩ :=
    mapError_eq_ok_iff.2 (hready.cold cold.size)
  have hcommitHot := @delivers_commitErrand f tracker _ onReserve onCommit oracle layout .hot hot _ hhot hhotInfo
    hready.infoSize_hot.symm hready.length_pos hshort
  cases hspan : f.cold with
  | none =>
    rw [commitSteps_of_cold_eq_none hspan]
    simp only [UnitFunction.commits, hspan]
    exact hcommitHot.mono (Nat.le_trans hle (by decide))
  | some span =>
    have hcoldRange : regionRange layout oracle f .cold = .ok cold := by
      rw [regionRange, if_pos (maySplit_of_cold hmem (by rw [hspan]; rfl)), hspan]
      exact hcold span hspan
    have hcommitCold := @delivers_commitErrand f tracker _ onReserve onCommit oracle layout .cold cold _ hcoldRange
      hcoldInfo hready.infoSize_cold.symm (show 1 ≤ UnwindRecord.ofCold.bytes.length by decide)
      (show UnwindRecord.ofCold.bytes.length < 2 ^ 64 by decide)
    rw [commitSteps_of_split hspan hfake, Exchange.serve_cons]
    simp only [UnitFunction.commits, hspan, Option.isSome_some, if_true]
    exact (hcommitHot.seq hcommitCold).mono (Nat.add_le_add_right hle 4)

end Deliveries

section Unit

variable {σ : Type} {onReserve : σ → Reservation → σ} {onCommit : σ → Commit → σ} {layout : UnitLayout}
  {payload : Tracker → List UInt8} {hot cold : UnitFunction → Range}

private theorem isBracket_of_ready (h : ∀ t ∈ c.trackers, t.Ready (payload t)) :
    ∀ t ∈ c.trackers, t.phase.isBracket = false := by
  intro t ht
  rw [(h t ht).body]
  rfl

/-- Storage is reserved for exactly the records that will be committed. -/
theorem delivers_reserve (hfake : c.settings.fakeSplitting = false)
    (hready : ∀ t ∈ c.trackers, t.Ready (payload t)) (hsplit : c.functions.hasColdRegion → layout.coldBase.isSome) :
    Exchange.Delivers onReserve (c.reserve (Host.accepting onReserve onCommit)) (c.entries.length * 520)
      ((c.commits layout payload hot cold).map Commit.reservation) := by
  have hperform : c.perform (Host.accepting onReserve onCommit) .reserve =
      c.reserve (Host.accepting onReserve onCommit) := rfl
  have hschedule := schedule_reserve_eq_ok_iff.2 ⟨isBracket_of_ready hready, rfl⟩
  rw [← hperform, perform_of_schedule_eq_ok hschedule, reserveErrands, List.map_flatMap, commits, List.map_flatMap]
  refine Exchange.delivers_flatMap fun entry hentry => ?_
  obtain ⟨hfunction, htracker⟩ := mem_of_mem_entries hentry
  rw [List.map_map]
  refine delivers_reserveFunction hfake (hready _ htracker) fun hcold => hsplit ?_
  rwa [FunctionSet.hasColdRegion, ← eq_root_of_cold hfunction hcold]

/-- The records of all functions are committed with the ranges of their code. -/
theorem delivers_commit {oracle : Oracle} (hfake : c.settings.fakeSplitting = false)
    (hready : ∀ t ∈ c.trackers, t.Ready (payload t)) (hsplit : layout.coldBase.isSome = c.functions.hasColdRegion)
    (hsize : layout.hotSize ≤ layout.totalSize)
    (hhot : ∀ f ∈ c.functions.toList, layout.hotRange oracle f.hot = .ok (hot f))
    (hcold : ∀ f ∈ c.functions.toList, ∀ span, f.cold = some span →
      layout.coldRange oracle span = .ok (cold f)) :
    Exchange.Delivers onCommit (c.commit (Host.accepting onReserve onCommit) oracle layout) (c.entries.length * 520)
      (c.commits layout payload hot cold) := by
  have hschedule : c.schedule (.commit oracle layout) =
      .ok (c.entries.flatMap fun (f, tracker) => c.commitSteps oracle layout f tracker) :=
    schedule_commit_eq_ok_iff.2 ⟨⟨isBracket_of_ready hready, hsplit, hsize⟩, rfl⟩
  have hperform : c.perform (Host.accepting onReserve onCommit) (.commit oracle layout) =
      c.commit (Host.accepting onReserve onCommit) oracle layout := rfl
  rw [← hperform, perform_of_schedule_eq_ok hschedule]
  refine Exchange.delivers_flatMap fun entry hentry => ?_
  obtain ⟨hfunction, htracker⟩ := mem_of_mem_entries hentry
  exact delivers_commitFunction hfake hfunction (hready _ htracker) (hhot _ hfunction) (hcold _ hfunction)

end Unit

end Context

end StackUnwind
