import StackUnwind.Layout
import StackUnwind.Proofs.Outcome

namespace StackUnwind

/-- Whether an offset is where a marker is. An absent marker is at a boundary. -/
def Oracle.Places (oracle : Oracle) (marker : Option Location) (boundary offset : UInt32) : Prop :=
  match marker with
  | none => offset = boundary
  | some location => oracle location = some offset

private theorem Oracle.resolve_eq_ok_iff {oracle : Oracle} {marker : Option Location} {boundary offset : UInt32} :
    oracle.resolve marker boundary = .ok offset ↔ oracle.Places marker boundary offset := by
  cases marker with
  | none => simp [resolve, Places, eq_comm]
  | some location =>
    simp only [resolve, Places]
    cases oracle location with
    | none => simp
    | some found => simp

/-- A marker is at one place only. -/
theorem Oracle.Places.unique {oracle : Oracle} {marker : Option Location} {boundary a b : UInt32}
    (ha : oracle.Places marker boundary a) (hb : oracle.Places marker boundary b) : a = b := by
  rw [← resolve_eq_ok_iff] at ha hb
  rw [ha, Except.ok.injEq] at hb
  exact hb

/-- Only a marker without an offset cannot be resolved. -/
theorem Oracle.exists_of_resolve_eq_error {oracle : Oracle} {marker : Option Location} {boundary : UInt32}
    {e : UnwindError} {markers : List Location} (hmarkers : ∀ location ∈ marker, location ∈ markers)
    (h : oracle.resolve marker boundary = .error e) :
    ∃ location ∈ markers, oracle location = none ∧ e = .unresolved location := by
  cases marker with
  | none => cases h
  | some location =>
    refine ⟨location, hmarkers location rfl, ?_⟩
    cases hlocation : oracle location with
    | none =>
      simp only [resolve, hlocation, Except.error.injEq] at h
      exact ⟨rfl, h.symm⟩
    | some offset => simp [resolve, hlocation] at h

private theorem Oracle.Places.ne_none {oracle : Oracle} {marker : Option Location} {boundary offset : UInt32}
    (h : oracle.Places marker boundary offset) {location : Location} (hmem : location ∈ marker) :
    oracle location ≠ none := by
  rw [Option.mem_def.1 hmem] at h
  rw [show oracle location = some offset from h]
  exact Option.some_ne_none offset

namespace Span

def markers (span : Span) : List Location := span.start.toList ++ span.stop.toList

variable {span : Span} {location : Location}

private theorem mem_markers_iff : location ∈ span.markers ↔ location ∈ span.start ∨ location ∈ span.stop := by
  simp [markers]

/-- Once both ends of a span are placed, none of its markers is without an offset. -/
theorem ne_none_of_places {oracle : Oracle} {boundary boundary' start stop : UInt32}
    (hstart : oracle.Places span.start boundary start) (hstop : oracle.Places span.stop boundary' stop)
    (hmem : location ∈ span.markers) : oracle location ≠ none := by
  obtain hmem | hmem := mem_markers_iff.1 hmem
  · exact hstart.ne_none hmem
  · exact hstop.ne_none hmem

end Span

private theorem Range.ofBounds_eq_ok_iff {start stop : UInt32} {range : Range} :
    ofBounds start stop = .ok range ↔ range = ⟨start, stop⟩ ∧ range.start ≤ range.stop := by
  unfold ofBounds
  split
  next hle =>
    simp only [Except.ok.injEq, eq_comm, iff_self_and]
    rintro rfl
    exact hle
  next hnot =>
    simp only [reduceCtorEq, false_iff, not_and]
    rintro rfl
    exact hnot

private theorem Range.ofBounds_eq_error_iff {start stop : UInt32} {fault : Fault} :
    ofBounds start stop = .error fault ↔ stop < start ∧ fault = .invertedRange start stop := by
  unfold ofBounds
  split
  next hle => simp [UInt32.not_lt.2 hle]
  next hnot => simp [UInt32.not_le.1 hnot, eq_comm]

namespace UnitLayout

variable {layout : UnitLayout} {oracle : Oracle} {span : Span} {range : Range}

/-- The range of hot code is the range between the markers, which are in order and within the hot code. -/
theorem hotRange_eq_ok_iff :
    layout.hotRange oracle span = .ok range ↔
      oracle.Places span.start 0 range.start ∧ oracle.Places span.stop layout.hotSize range.stop ∧
        range.start ≤ range.stop ∧ range.stop ≤ layout.hotSize := by
  simp only [hotRange, bind_eq_ok_iff, check_eq_ok_iff, liftM_error_eq_ok_iff, liftM_fault_eq_ok_iff,
    Oracle.resolve_eq_ok_iff, Range.ofBounds_eq_ok_iff, UInt32.not_lt]
  constructor
  · rintro ⟨start, hstart, stop, hstop, hend, rfl, hle⟩
    exact ⟨hstart, hstop, hle, hend⟩
  · rintro ⟨hstart, hstop, hle, hend⟩
    exact ⟨range.start, hstart, range.stop, hstop, hend, rfl, hle⟩

/-- The range of cold code is counted from the end of the hot code. Only its start is compared with that end:
    a stop in the hot code counts as none at all. -/
theorem coldRange_eq_ok_iff :
    layout.coldRange oracle span = .ok range ↔
      ∃ start stop, oracle.Places span.start layout.hotSize start ∧ oracle.Places span.stop layout.totalSize stop ∧
        layout.hotSize ≤ start ∧ range = ⟨monus32 start layout.hotSize, monus32 stop layout.hotSize⟩ ∧
        range.start ≤ range.stop := by
  simp only [coldRange, bind_eq_ok_iff, check_eq_ok_iff, liftM_error_eq_ok_iff, liftM_fault_eq_ok_iff,
    Oracle.resolve_eq_ok_iff, Range.ofBounds_eq_ok_iff, UInt32.not_lt]
  constructor
  · rintro ⟨start, hstart, stop, hstop, hbegin, hrange, hle⟩
    exact ⟨start, stop, hstart, hstop, hbegin, hrange, hle⟩
  · rintro ⟨start, stop, hstart, hstop, hbegin, hrange, hle⟩
    exact ⟨start, hstart, stop, hstop, hbegin, hrange, hle⟩

/-- Only a marker without an offset is an error. -/
theorem exists_of_hotRange_eq_error {e : UnwindError} (h : layout.hotRange oracle span = .error (.error e)) :
    ∃ location ∈ span.markers, oracle location = none ∧ e = .unresolved location := by
  simp only [hotRange, bind_eq_error_iff, check_fault_eq_error_iff, liftM_error_eq_error_iff,
    liftM_fault_eq_error_iff, and_false, exists_false, or_false] at h
  obtain hstart | ⟨-, -, hstop⟩ := h
  · exact Oracle.exists_of_resolve_eq_error (fun _ hmem => Span.mem_markers_iff.2 (.inl hmem)) hstart
  · exact Oracle.exists_of_resolve_eq_error (fun _ hmem => Span.mem_markers_iff.2 (.inr hmem)) hstop

/-- A cold range that cannot be resolved has a marker without a place. -/
theorem exists_of_coldRange_eq_error {e : UnwindError} (h : layout.coldRange oracle span = .error (.error e)) :
    ∃ location ∈ span.markers, oracle location = none ∧ e = .unresolved location := by
  simp only [coldRange, bind_eq_error_iff, check_fault_eq_error_iff, liftM_error_eq_error_iff,
    liftM_fault_eq_error_iff, and_false, exists_false, or_false] at h
  obtain hstart | ⟨-, -, hstop⟩ := h
  · exact Oracle.exists_of_resolve_eq_error (fun _ hmem => Span.mem_markers_iff.2 (.inl hmem)) hstart
  · exact Oracle.exists_of_resolve_eq_error (fun _ hmem => Span.mem_markers_iff.2 (.inr hmem)) hstop

/-- What is wrong with the markers around code of a region, once both of them are placed. Where cold code is in order
    is found out after both of its ends are counted from the end of the hot code. -/
inductive Misplaced (layout : UnitLayout) (oracle : Oracle) (span : Span) : Region → Fault → Prop where
  | hotPastEnd {start stop : UInt32} (hstart : oracle.Places span.start 0 start)
      (hstop : oracle.Places span.stop layout.hotSize stop) (hend : layout.hotSize < stop) :
      Misplaced layout oracle span .hot (.hotRangePastEnd stop layout.hotSize)
  | hotInverted {start stop : UInt32} (hstart : oracle.Places span.start 0 start)
      (hstop : oracle.Places span.stop layout.hotSize stop) (hend : stop ≤ layout.hotSize) (hlt : stop < start) :
      Misplaced layout oracle span .hot (.invertedRange start stop)
  | coldInHot {start stop : UInt32} (hstart : oracle.Places span.start layout.hotSize start)
      (hstop : oracle.Places span.stop layout.totalSize stop) (hbegin : start < layout.hotSize) :
      Misplaced layout oracle span .cold (.coldRangeInHot start layout.hotSize)
  | coldInverted {start stop : UInt32} (hstart : oracle.Places span.start layout.hotSize start)
      (hstop : oracle.Places span.stop layout.totalSize stop) (hbegin : layout.hotSize ≤ start)
      (hlt : monus32 stop layout.hotSize < monus32 start layout.hotSize) :
      Misplaced layout oracle span .cold
        (.invertedRange (monus32 start layout.hotSize) (monus32 stop layout.hotSize))

/-- Only placed markers break a contract, and a range for which one is broken does not exist. -/
theorem hotRange_eq_fault_iff {fault : Fault} :
    layout.hotRange oracle span = .error (.fault fault) ↔ layout.Misplaced oracle span .hot fault := by
  simp only [hotRange, bind_eq_error_iff, check_eq_error_iff, liftM_error_eq_fault_iff, liftM_error_eq_ok_iff,
    liftM_fault_eq_fault_iff, Oracle.resolve_eq_ok_iff, Range.ofBounds_eq_error_iff, false_or, Stop.fault.injEq,
    UInt32.not_lt]
  constructor
  · rintro ⟨start, hstart, stop, hstop, ⟨hend, rfl⟩ | ⟨hend, hlt, rfl⟩⟩
    · exact .hotPastEnd hstart hstop hend
    · exact .hotInverted hstart hstop hend hlt
  · rintro (⟨hstart, hstop, hend⟩ | ⟨hstart, hstop, hend, hlt⟩)
    · exact ⟨_, hstart, _, hstop, .inl ⟨hend, rfl⟩⟩
    · exact ⟨_, hstart, _, hstop, .inr ⟨hend, hlt, rfl⟩⟩

/-- A cold range breaks a contract exactly if its markers are misplaced. -/
theorem coldRange_eq_fault_iff {fault : Fault} :
    layout.coldRange oracle span = .error (.fault fault) ↔ layout.Misplaced oracle span .cold fault := by
  simp only [coldRange, bind_eq_error_iff, check_eq_error_iff, liftM_error_eq_fault_iff, liftM_error_eq_ok_iff,
    liftM_fault_eq_fault_iff, Oracle.resolve_eq_ok_iff, Range.ofBounds_eq_error_iff, false_or, Stop.fault.injEq,
    UInt32.not_lt]
  constructor
  · rintro ⟨start, hstart, stop, hstop, ⟨hbegin, rfl⟩ | ⟨hbegin, hlt, rfl⟩⟩
    · exact .coldInHot hstart hstop hbegin
    · exact .coldInverted hstart hstop hbegin hlt
  · rintro (_ | _ | ⟨hstart, hstop, hbegin⟩ | ⟨hstart, hstop, hbegin, hlt⟩)
    · exact ⟨_, hstart, _, hstop, .inl ⟨hbegin, rfl⟩⟩
    · exact ⟨_, hstart, _, hstop, .inr ⟨hbegin, hlt, rfl⟩⟩

end UnitLayout

end StackUnwind
