import StackUnwind.Proofs.Context.Described

namespace StackUnwind

namespace Context

variable {σ : Type} {c : Context} {host : Host σ} {oracle : Oracle} {layout : UnitLayout} {x : Exchange σ}
  {f : UnitFunction} {tracker : Tracker} {k : Commit} {span : Span}

/-- Whether a commit is one that the unit describes for a function, even if later commits fail. -/
inductive Issued (c : Context) (oracle : Oracle) (layout : UnitLayout) (f : UnitFunction) (tracker : Tracker)
    (k : Commit) : Prop where
  | hot (hwhole : f.cold = none ∨ c.settings.fakeSplitting = false) (hot : k.IsHot oracle layout f tracker)
  | cold {span : Span} (hcold : f.cold = some span) (cold : k.IsCold oracle layout f tracker span)
  | whole {span : Span} (hcold : f.cold = some span) (hfake : c.settings.fakeSplitting = true)
      (whole : k.IsWhole layout f tracker)

private theorem exists_issued_of_mem_commitSteps (hmem : f ∈ c.functions.toList)
    (hbase : layout.coldBase.isSome = c.functions.hasColdRegion) {e : Errand}
    (h : .ok e ∈ c.commitSteps oracle layout f tracker) :
    ∃ k, e.request = .commit k ∧ c.Issued oracle layout f tracker k := by
  cases hcold : f.cold with
  | none =>
    rw [commitSteps_of_cold_eq_none hcold, List.mem_singleton] at h
    obtain ⟨k, hrequest, hot⟩ := exists_isHot h.symm
    exact ⟨k, hrequest, .hot (.inl hcold) hot⟩
  | some span =>
    cases hfake : c.settings.fakeSplitting with
    | false =>
      rw [commitSteps_of_split hcold hfake, List.mem_pair] at h
      obtain h | h := h
      · obtain ⟨k, hrequest, hot⟩ := exists_isHot h.symm
        exact ⟨k, hrequest, .hot (.inr hfake) hot⟩
      · obtain ⟨k, hrequest, cold⟩ := exists_isCold hcold (isSome_coldBase_of_cold hmem hbase hcold) h.symm
        exact ⟨k, hrequest, .cold hcold cold⟩
    | true =>
      rw [commitSteps_of_fakeSplit hcold hfake, List.mem_singleton] at h
      obtain ⟨k, hrequest, whole⟩ := exists_isWhole h.symm
      exact ⟨k, hrequest, .whole hcold hfake whole⟩

/-- Every commit is one that the unit describes, whether or not commitment comes to its end. -/
theorem exists_issued (h : .commit k ∈ c.requests host (.commit oracle layout) x) :
    layout.hotSize ≤ layout.totalSize ∧
      ∃ f ∈ c.functions.toList, ∃ tracker, c.Issued oracle layout f tracker k := by
  obtain ⟨steps, e, hschedule, he, hrequest⟩ := exists_errand_of_mem_requests h
  obtain ⟨⟨-, hbase, hsize⟩, rfl⟩ := schedule_commit_eq_ok_iff.1 hschedule
  obtain ⟨⟨f, tracker⟩, hentry, he⟩ := List.mem_flatMap.1 he
  obtain ⟨hmem, -⟩ := mem_of_mem_entries hentry
  obtain ⟨k', hrequest', hissued⟩ := exists_issued_of_mem_commitSteps hmem hbase he
  obtain rfl : k' = k := HostRequest.commit.inj (hrequest'.symm.trans hrequest)
  exact ⟨hsize, f, hmem, tracker, hissued⟩

/-- Only cold code of the root is committed with a cold base. -/
theorem exists_isCold_of_isSome_coldBase (h : .commit k ∈ c.requests host (.commit oracle layout) x)
    (hbase : k.coldBase.isSome) (hcold : c.functions.root.cold = some span) :
    ∃ tracker, k.IsCold oracle layout c.functions.root tracker span := by
  obtain ⟨-, f, hmem, tracker, hissued⟩ := exists_issued h
  cases hissued with
  | hot _ hot => simp [hot.coldBase] at hbase
  | whole _ _ whole => simp [whole.coldBase] at hbase
  | cold hf cold =>
    obtain rfl := eq_root_of_cold hmem (by simp [hf])
    obtain rfl := Option.some_inj.1 (hf.symm.trans hcold)
    exact ⟨tracker, cold⟩

/-- The range of cold code is the one between the markers, counted from the end of the hot code, unless the end
    marker is in the hot code. Then the start marker is exactly at the end of the hot code, and the markers, which
    are not in order, are committed as an empty range. -/
theorem cold_rebased (h : .commit k ∈ c.requests host (.commit oracle layout) x) (hbase : k.coldBase.isSome)
    (hcold : c.functions.root.cold = some span) :
    ∃ start stop, oracle.Places span.start layout.hotSize start ∧ oracle.Places span.stop layout.totalSize stop ∧
      k.range.start.toNat + layout.hotSize.toNat = start.toNat ∧
      (layout.hotSize ≤ stop → k.range.stop.toNat + layout.hotSize.toNat = stop.toNat ∧ start ≤ stop) ∧
      (stop < layout.hotSize → start = layout.hotSize ∧ k.range = ⟨0, 0⟩) := by
  obtain ⟨tracker, cold⟩ := exists_isCold_of_isSome_coldBase h hbase hcold
  obtain ⟨start, stop, hstart, hstop, hbegin, hrangeStart, hrangeStop⟩ := cold.rebased
  have hordered := cold.ordered
  rw [UInt32.le_iff_toNat_le] at hbegin hordered
  refine ⟨start, stop, hstart, hstop, by omega, ?_, ?_⟩
  · intro hend
    rw [UInt32.le_iff_toNat_le] at hend ⊢
    omega
  · -- The difference of the end is taken as zero, so the range is in order only if that of the start is zero, too.
    intro hend
    rw [UInt32.lt_iff_toNat_lt] at hend
    have hzero : k.range.start = 0 := UInt32.toNat_inj.1 (by rw [UInt32.toNat_zero]; omega)
    have hzero' : k.range.stop = 0 := UInt32.toNat_inj.1 (by rw [UInt32.toNat_zero]; omega)
    refine ⟨UInt32.toNat_inj.1 (by omega), ?_⟩
    calc k.range = ⟨k.range.start, k.range.stop⟩ := rfl
      _ = ⟨0, 0⟩ := by rw [hzero, hzero']

/-- A root with cold code between two markers. -/
def coldSample : Context where
  functions := {
    root := .root .whole (some ⟨some ⟨0⟩, some ⟨1⟩⟩)
    funclets := []
    root_kind := rfl
    funclets_hot := by simp }
  trackers := [.fresh .x86]
  settings := {}
  length_trackers := rfl

/-- The requests for the sample, whose cold code starts with the cold region and stops at an offset. -/
def coldSampleRequests (stop : UInt32) : List HostRequest :=
  coldSample.requests Ledger.host (.commit (sampleOracle 100 stop) sampleLayout) { host := {} }

/-- The commit of the sample's cold code up to byte 190 of the unit. -/
def coldSampleCommit : Commit := ⟨.root, 0x1000, some 0x2000, ⟨0, 90⟩, [90, 0, 0, 0]⟩

private theorem mem_coldSampleRequests : .commit coldSampleCommit ∈ coldSampleRequests 190 := by
  decide +kernel

theorem cold_rebased_coldSample :
    .commit coldSampleCommit ∈ coldSampleRequests 190 ∧
      (sampleOracle 100 190).Places (some ⟨0⟩) 100 100 ∧ (sampleOracle 100 190).Places (some ⟨1⟩) 200 190 ∧
      coldSampleCommit.range.start.toNat + 100 = 100 ∧ coldSampleCommit.range.stop.toNat + 100 = 190 := by
  obtain ⟨start, stop, hstart, hstop, hexact, hexact', -⟩ := cold_rebased mem_coldSampleRequests rfl rfl
  obtain rfl : 100 = start := Option.some_inj.1 hstart
  obtain rfl : 190 = stop := Option.some_inj.1 hstop
  exact ⟨mem_coldSampleRequests, hstart, hstop, hexact, (hexact' (by decide)).1⟩

/-- A cold span that ends before it starts is committed where its start is the end of the hot code. -/
theorem cold_rebased_inverted :
    .commit ⟨.root, 0x1000, some 0x2000, ⟨0, 0⟩, [0, 0, 0, 0]⟩ ∈ coldSampleRequests 50 ∧
      (sampleOracle 100 50).Places (some ⟨0⟩) sampleLayout.hotSize 100 ∧
      (sampleOracle 100 50).Places (some ⟨1⟩) sampleLayout.totalSize 50 ∧
      (0 : UInt32).toNat + sampleLayout.hotSize.toNat ≠ (50 : UInt32).toNat := by
  refine ⟨?_, rfl, rfl, ?_⟩
  · decide +kernel
  · decide

/-- The size of the region that a commit is for. -/
def regionSize (c : Context) (layout : UnitLayout) (k : Commit) : Nat :=
  if k.coldBase.isSome then layout.totalSize.toNat - layout.hotSize.toNat
  else if k.kind = .root ∧ c.functions.hasColdRegion ∧ c.settings.fakeSplitting then layout.totalSize.toNat
  else layout.hotSize.toNat

/-- A commit is within its region, unless it is of cold code with an end marker that is placed beyond the unit. -/
theorem commit_inside_iff (h : .commit k ∈ c.requests host (.commit oracle layout) x) :
    k.range.stop.toNat ≤ c.regionSize layout k ↔
      (k.coldBase.isSome → ∀ span stop, c.functions.root.cold = some span →
        oracle.Places span.stop layout.totalSize stop → stop ≤ layout.totalSize) := by
  obtain ⟨hsize, f, hmem, tracker, hissued⟩ := exists_issued h
  rw [UInt32.le_iff_toNat_le] at hsize
  cases hissued with
  | hot hwhole hot =>
    have hregion : c.regionSize layout k = layout.hotSize.toNat := by
      rw [regionSize, hot.coldBase, hot.kind, if_neg (by simp), if_neg]
      rintro ⟨hkind, hcold, hfake⟩
      rw [FunctionSet.hasColdRegion, ← eq_root_of_kind hmem hkind] at hcold
      obtain hnone | hplain := hwhole
      · simp [hnone] at hcold
      · simp [hplain] at hfake
    simp only [hregion, hot.coldBase, Option.isSome_none, Bool.false_eq_true, false_implies, iff_true]
    exact UInt32.le_iff_toNat_le.1 hot.inside
  | whole hcold hfake whole =>
    have hregion : c.regionSize layout k = layout.totalSize.toNat := by
      obtain rfl := eq_root_of_cold hmem (by simp [hcold])
      simp [regionSize, whole.coldBase, whole.kind, c.functions.root_kind, FunctionSet.hasColdRegion, hcold, hfake]
    simp [hregion, whole.coldBase, whole.range]
  | @cold span hcold cold =>
    obtain rfl := eq_root_of_cold hmem (by simp [hcold])
    obtain ⟨start, stop, -, hstop, hbegin, -, hrange⟩ := cold.rebased
    have hunique (span' : Span) (stop' : UInt32) (hcold' : c.functions.root.cold = some span')
        (hstop' : oracle.Places span'.stop layout.totalSize stop') : stop' = stop := by
      obtain rfl := Option.some_inj.1 (hcold.symm.trans hcold')
      exact hstop'.unique hstop
    rw [regionSize, if_pos cold.isSome_coldBase, hrange]
    constructor
    · intro hle _ span' stop' hcold' hstop'
      rw [hunique span' stop' hcold' hstop', UInt32.le_iff_toNat_le]
      omega
    · intro hall
      have hle := hall cold.isSome_coldBase span stop hcold hstop
      rw [UInt32.le_iff_toNat_le] at hle
      omega

theorem commit_inside_iff_coldSample :
    .commit coldSampleCommit ∈ coldSampleRequests 190 ∧
      coldSampleCommit.range.stop.toNat ≤ coldSample.regionSize sampleLayout coldSampleCommit := by
  refine ⟨mem_coldSampleRequests, (commit_inside_iff mem_coldSampleRequests).2 ?_⟩
  intro _ span stop hcold hstop
  cases hcold
  obtain rfl : 190 = stop := Option.some_inj.1 hstop
  decide

/-- A cold span that ends beyond the unit is committed as it is. -/
theorem commit_outside_coldSample :
    .commit ⟨.root, 0x1000, some 0x2000, ⟨0, 900⟩, [132, 3, 0, 0]⟩ ∈ coldSampleRequests 1000 ∧
      ¬ (900 : UInt32).toNat ≤ sampleLayout.totalSize.toNat - sampleLayout.hotSize.toNat := by
  refine ⟨?_, ?_⟩
  · decide +kernel
  · decide

end Context

end StackUnwind
