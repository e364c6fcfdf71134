import StackUnwind.Proofs.CommandLine.Markers
import StackUnwind.Proofs.Context.Contracts

namespace StackUnwind

/-- Code of a unit as it is typed: a span of one of its regions, or all of its code in one piece. -/
inductive TypedPiece where
  | hot (typed : TypedSpan)
  | cold (typed : TypedSpan)
  | whole
  deriving DecidableEq, Repr

namespace TypedPiece

/-- The region of the record for a piece. Code in one piece is reported as hot code. -/
def region : TypedPiece → Region
  | hot _ | whole => .hot
  | cold _ => .cold

/-- The range of a piece, counted from the start of its region. An end that was not typed is that of the region, and
    no end of cold code is below zero. -/
def range (layout : UnitLayout) : TypedPiece → Range
  | hot typed => ⟨typed.start.getD 0, typed.stop.getD layout.hotSize⟩
  | cold typed =>
    ⟨monus32 (typed.start.getD layout.hotSize) layout.hotSize,
      monus32 (typed.stop.getD layout.totalSize) layout.hotSize⟩
  | whole => ⟨0, layout.totalSize⟩

/-- A contract that the range of a piece breaks: it leaves its region or ends before it starts. -/
inductive Breaks (layout : UnitLayout) : TypedPiece → Fault → Prop where
  | hotPastEnd {typed : TypedSpan} (hend : layout.hotSize < typed.stop.getD layout.hotSize) :
      Breaks layout (.hot typed) (.hotRangePastEnd (typed.stop.getD layout.hotSize) layout.hotSize)
  | hotInverted {typed : TypedSpan} (hend : typed.stop.getD layout.hotSize ≤ layout.hotSize)
      (hlt : typed.stop.getD layout.hotSize < typed.start.getD 0) :
      Breaks layout (.hot typed) (.invertedRange (typed.start.getD 0) (typed.stop.getD layout.hotSize))
  | coldInHot {typed : TypedSpan} (hbegin : typed.start.getD layout.hotSize < layout.hotSize) :
      Breaks layout (.cold typed) (.coldRangeInHot (typed.start.getD layout.hotSize) layout.hotSize)
  | coldInverted {typed : TypedSpan} (hbegin : layout.hotSize ≤ typed.start.getD layout.hotSize)
      (hlt : monus32 (typed.stop.getD layout.totalSize) layout.hotSize <
        monus32 (typed.start.getD layout.hotSize) layout.hotSize) :
      Breaks layout (.cold typed) (.invertedRange (monus32 (typed.start.getD layout.hotSize) layout.hotSize)
        (monus32 (typed.stop.getD layout.totalSize) layout.hotSize))

end TypedPiece

section Marks

variable {oracle : Oracle} {typed : TypedSpan} {span : Span} {layout : UnitLayout} {fault : Fault} {range : Range}

private theorem Oracle.Places.eq_iff {marker : Option Location} {boundary a b : UInt32}
    (h : oracle.Places marker boundary a) :
    oracle.Places marker boundary b ↔ b = a := by
  constructor
  · exact fun h' => h'.unique h
  · rintro rfl
    exact h

private theorem Oracle.Marks.start_iff (h : oracle.Marks typed span) {boundary offset : UInt32} :
    oracle.Places span.start boundary offset ↔ offset = typed.start.getD boundary :=
  (h boundary).1.eq_iff

private theorem Oracle.Marks.stop_iff (h : oracle.Marks typed span) {boundary offset : UInt32} :
    oracle.Places span.stop boundary offset ↔ offset = typed.stop.getD boundary :=
  (h boundary).2.eq_iff

private theorem Oracle.Marks.ne_none (h : oracle.Marks typed span) {location : Location}
    (hmem : location ∈ span.markers) :
    oracle location ≠ none :=
  Span.ne_none_of_places (h 0).1 (h 0).2 hmem

private theorem Oracle.Marks.hot_breaks_iff (h : oracle.Marks typed span) :
    (TypedPiece.hot typed).Breaks layout fault ↔ layout.Misplaced oracle span .hot fault := by
  constructor
  · rintro (hend | ⟨hend, hlt⟩)
    · exact .hotPastEnd (h 0).1 (h layout.hotSize).2 hend
    · exact .hotInverted (h 0).1 (h layout.hotSize).2 hend hlt
  · rintro (⟨hstart, hstop, hend⟩ | ⟨hstart, hstop, hend, hlt⟩) <;> obtain rfl := h.start_iff.1 hstart <;>
      obtain rfl := h.stop_iff.1 hstop
    · exact .hotPastEnd hend
    · exact .hotInverted hend hlt

private theorem Oracle.Marks.cold_breaks_iff (h : oracle.Marks typed span) :
    (TypedPiece.cold typed).Breaks layout fault ↔ layout.Misplaced oracle span .cold fault := by
  constructor
  · rintro (_ | _ | hbegin | ⟨hbegin, hlt⟩)
    · exact .coldInHot (h layout.hotSize).1 (h layout.totalSize).2 hbegin
    · exact .coldInverted (h layout.hotSize).1 (h layout.totalSize).2 hbegin hlt
  · rintro (_ | _ | ⟨hstart, hstop, hbegin⟩ | ⟨hstart, hstop, hbegin, hlt⟩) <;> obtain rfl := h.start_iff.1 hstart <;>
      obtain rfl := h.stop_iff.1 hstop
    · exact .coldInHot hbegin
    · exact .coldInverted hbegin hlt

private theorem Oracle.Marks.hotRange_eq (h : oracle.Marks typed span)
    (hrange : layout.hotRange oracle span = .ok range) :
    range = (TypedPiece.hot typed).range layout := by
  obtain ⟨hstart, hstop, -, -⟩ := UnitLayout.hotRange_eq_ok_iff.1 hrange
  rw [TypedPiece.range, ← h.start_iff.1 hstart, ← h.stop_iff.1 hstop]

private theorem Oracle.Marks.coldRange_eq (h : oracle.Marks typed span)
    (hrange : layout.coldRange oracle span = .ok range) :
    range = (TypedPiece.cold typed).range layout := by
  obtain ⟨start, stop, hstart, hstop, -, rfl, -⟩ := UnitLayout.coldRange_eq_ok_iff.1 hrange
  rw [TypedPiece.range, ← h.start_iff.1 hstart, ← h.stop_iff.1 hstop]

end Marks

/-- The record of a function with the prolog `push rbp; mov rbp, rsp`, for `size` bytes of code in a region. -/
def Arch.framePayload : Arch → Region → UInt32 → List UInt8
  | .x86, _, size => littleEndian 4 size.toNat
  | .x64, .hot, _ => [0x01, 4, 2, 0x05, 4, 0x03, 1, 0x50]
  | .x64, .cold, _ => [0x21, 0, 0, 0]

namespace Tracker

/-- The tracker of a function with that prolog. -/
def framed (arch : Arch) : Tracker where
  recorder := match arch with
    | .x86 => .x86
    | .x64 => .x64 { ops := [.push .rbp, .setFrame .rbp 0] }
  phase := .body

/-- The tracker that every function of a trace gets. -/
theorem framedTracker_eq (arch : Arch) : framedTracker arch = .ok (framed arch) := by
  cases arch <;> rfl

private theorem recordInfo_framed (arch : Arch) (region : Region) (size : UInt32) :
    Context.recordInfo (framed arch) region size = .ok ⟨size, arch.framePayload region size⟩ := by
  cases arch <;> cases region <;> rfl

/-- Its records have a few bytes, so that counting them is no matter. -/
theorem infoSize_framed (arch : Arch) (region : Region) : 1 ≤ (framed arch).recorder.infoSize region ∧
    (framed arch).recorder.infoSize region ≤ 8 := by
  cases arch <;> cases region <;> decide

end Tracker

namespace Context

variable {c : Context} {oracle : Oracle} {layout : UnitLayout} {f : UnitFunction} {tracker : Tracker}
  {region : Region} {piece : TypedPiece} {range : Range} {fault : Fault}

/-- Whether the record of a function for a region is about a piece of code, which is where it was typed. -/
inductive Shows (c : Context) (oracle : Oracle) (f : UnitFunction) : Region → TypedPiece → Prop where
  | hot {typed : TypedSpan} (hplan : c.planOf f ≠ .fakeSplit) (hmarks : oracle.Marks typed f.hot) :
      Shows c oracle f .hot (.hot typed)
  | cold {typed : TypedSpan} (hplan : c.planOf f ≠ .fakeSplit) (hmarks : oracle.Marks typed (f.cold.getD .whole)) :
      Shows c oracle f .cold (.cold typed)
  | whole (hplan : c.planOf f = .fakeSplit) : Shows c oracle f .hot .whole

/-- Whether the record of a function for a region is about a piece of code of a function of the same kind. -/
def Reports (c : Context) (oracle : Oracle) (place : UnitFunction × Region) (entry : Kind × TypedPiece) : Prop :=
  place.1.kind = entry.1 ∧ c.Shows oracle place.1 place.2 entry.2

private theorem Shows.region_eq (h : c.Shows oracle f region piece) : piece.region = region := by
  cases h <;> rfl

private theorem Shows.breaks_iff (h : c.Shows oracle f region piece) :
    piece.Breaks layout fault ↔ c.planOf f ≠ .fakeSplit ∧ layout.Misplaced oracle (f.span region) region fault := by
  cases h with
  | hot hplan hmarks => exact hmarks.hot_breaks_iff.trans (and_iff_right hplan).symm
  | cold hplan hmarks => exact hmarks.cold_breaks_iff.trans (and_iff_right hplan).symm
  | whole hplan =>
    constructor
    · intro hbreaks
      cases hbreaks
    · rintro ⟨hnot, -⟩
      exact absurd hplan hnot

private theorem Shows.range_eq (h : c.Shows oracle f region piece)
    (hrange : c.slotRange oracle layout ⟨f, tracker, region⟩ = .ok range) : range = piece.range layout := by
  cases h with
  | hot hplan hmarks =>
    rw [slotRange_of_planOf hplan] at hrange
    exact hmarks.hotRange_eq hrange
  | cold hplan hmarks =>
    rw [slotRange_of_planOf hplan, regionRange] at hrange
    split at hrange
    · exact hmarks.coldRange_eq hrange
    · cases hrange
  | whole hplan =>
    rw [slotRange, hplan] at hrange
    cases hrange
    rfl

private theorem Shows.ne_none (h : c.Shows oracle f region piece) {location : Location}
    (hmem : location ∈ c.markers ⟨f, tracker, region⟩) : oracle location ≠ none := by
  obtain ⟨hplan, hmem⟩ := mem_markers hmem
  cases h with
  | hot _ hmarks => exact hmarks.ne_none hmem
  | cold _ hmarks => exact hmarks.ne_none hmem
  | whole hfake => exact absurd hfake hplan

end Context

namespace CommandLine

/-- The layout of a unit, if there is one: cold code is directly after the hot code. -/
def placed (cl : CommandLine) : UnitLayout :=
  match cl.cold with
  | none => .hotOnly cl.hotBase cl.hotSize
  | some _ =>
    ⟨cl.hotBase, some (.ofNat (cl.hotBase.toNat + cl.hotSize.toNat)), cl.hotSize, cl.totalSize.getD cl.hotSize⟩

/-- The pieces of code that a unit gets records for, with the kinds of their functions. -/
def pieces (cl : CommandLine) (faking : Bool) : List (Kind × TypedPiece) :=
  let root : List TypedPiece := match cl.cold, faking with
    | none, _ => [.hot cl.root]
    | some typed, false => [.hot cl.root, .cold typed]
    | some _, true => [.whole]
  root.map (Kind.root, ·) ++ cl.funclets.map fun typed => (typed.kind, .hot typed.span)

/-- The commit of the record for a piece of code. -/
def commitOf (cl : CommandLine) (kind : Kind) (piece : TypedPiece) : Commit :=
  let range := piece.range cl.placed
  { kind, hotBase := cl.hotBase, coldBase := if piece.region.isCold then cl.placed.coldBase else none, range
    payload := cl.arch.framePayload piece.region range.size }

/-- The commits of a unit. -/
def commits (cl : CommandLine) (faking : Bool) : List Commit :=
  (cl.pieces faking).map fun (kind, piece) => cl.commitOf kind piece

/-- Whether the address after the hot code, where cold code would be, is not in memory. -/
def Overflows (cl : CommandLine) : Prop := cl.cold.isSome ∧ 2 ^ 64 - 1 < cl.hotBase.toNat + cl.hotSize.toNat

/-- A contract that a unit breaks, about its sizes or about the range of one of its pieces. -/
inductive Breaks (cl : CommandLine) (faking : Bool) : Fault → Prop where
  | size (hsize : cl.placed.totalSize < cl.placed.hotSize) : Breaks cl faking .splitBeyondUnit
  | range {kind : Kind} {piece : TypedPiece} {fault : Fault} (hmem : (kind, piece) ∈ cl.pieces faking)
      (hbreaks : piece.Breaks cl.placed fault) : Breaks cl faking fault

variable {cl : CommandLine} {oracle : Oracle} {c : Context} {slot : Slot} {fault : Fault}

private theorem hotBase_placed (cl : CommandLine) : cl.placed.hotBase = cl.hotBase := by
  unfold placed
  split <;> rfl

/-- A unit with cold code is laid out in two steps, which check its address and its sizes. -/
theorem layout_cases (cl : CommandLine) :
    (cl.Overflows ∧ cl.layout = .error (.error (.addressSpace cl.hotBase cl.hotSize))) ∨
    (¬ cl.Overflows ∧ cl.placed.totalSize < cl.placed.hotSize ∧ cl.layout = .error (.fault .splitBeyondUnit)) ∨
    (¬ cl.Overflows ∧ cl.placed.hotSize ≤ cl.placed.totalSize ∧ cl.layout = .ok cl.placed) := by
  unfold Overflows layout placed
  cases cl.cold with
  | none => exact .inr (.inr ⟨fun ⟨hcold, _⟩ => Bool.false_ne_true hcold, UInt32.le_refl _, rfl⟩)
  | some typed =>
    simp only [Option.isSome_some, true_and]
    by_cases hoverflow : 0x10000000000000000 ≤ cl.hotBase.toNat + cl.hotSize.toNat
    · rw [if_pos hoverflow]
      exact .inl ⟨hoverflow, rfl⟩
    · rw [if_neg hoverflow, UnitLayout.split]
      by_cases hsize : cl.hotSize ≤ cl.totalSize.getD cl.hotSize
      · rw [if_pos hsize]
        exact .inr (.inr ⟨hoverflow, hsize, rfl⟩)
      · rw [if_neg hsize]
        exact .inr (.inl ⟨hoverflow, UInt32.not_le.1 hsize, rfl⟩)

/-- A trace commits at most two records of the root and one of each funclet. -/
theorem length_pieces_le (cl : CommandLine) (faking : Bool) : (cl.pieces faking).length ≤ cl.funclets.length + 2 := by
  unfold pieces
  cases cl.cold <;> cases faking <;> simp

/-- The root has cold code exactly if a cold span was given, and then at the offsets that were given. -/
theorem Describes.cold_cases {root : UnitFunction} {funclets : List UnitFunction}
    (h : cl.Describes oracle root funclets) :
    (cl.cold = none ∧ root.cold = none) ∨
      ∃ typed span, cl.cold = some typed ∧ root.cold = some span ∧ oracle.Marks typed span := by
  obtain ⟨-, -, hcold, -⟩ := h
  revert hcold
  rcases cl.cold with - | typed <;> rcases root.cold with - | span <;> rintro (hmarks | -)
  · exact .inl ⟨rfl, rfl⟩
  · exact .inr ⟨typed, span, rfl, rfl, hmarks⟩

/-- Each record of a unit is about the piece of code in its place. -/
theorem Describes.forall₂_reports (h : cl.Describes oracle c.functions.root c.functions.funclets) :
    List.Forall₂ (c.Reports oracle) (c.slots.map fun slot => (slot.function, slot.region))
      (cl.pieces c.settings.fakeSplitting) := by
  have hfunclets : List.Forall₂ (c.Reports oracle) (c.functions.funclets.map fun f => (f, .hot))
      (cl.funclets.map fun typed => (typed.kind, .hot typed.span)) := by
    rw [List.forall₂_map_left_iff, List.forall₂_map_right_iff]
    refine h.funclets.flip.imp fun f typed ⟨hkind, hcold, hmarks⟩ => ⟨hkind, .hot ?_ hmarks⟩
    simp [Context.planOf, hcold]
  unfold pieces
  rw [Context.map_slots, FunctionSet.hasColdRegion]
  obtain ⟨htyped, hroot⟩ | ⟨typed, span, htyped, hroot, hmarks⟩ := h.cold_cases
  · have hplan : c.planOf c.functions.root ≠ .fakeSplit := by simp [Context.planOf, hroot]
    rw [htyped, hroot]
    exact .cons ⟨h.kind, .hot hplan h.hot⟩ hfunclets
  · rw [htyped, hroot]
    cases hfake : c.settings.fakeSplitting with
    | false =>
      have hplan : c.planOf c.functions.root ≠ .fakeSplit := by simp [Context.planOf, hroot, hfake]
      have hcold : c.Shows oracle c.functions.root .cold (.cold typed) := .cold hplan (by rwa [hroot])
      exact .cons ⟨h.kind, .hot hplan h.hot⟩ (.cons ⟨h.kind, hcold⟩ hfunclets)
    | true =>
      have hplan : c.planOf c.functions.root = .fakeSplit := by simp [Context.planOf, hroot, hfake]
      exact .cons ⟨h.kind, .whole hplan⟩ hfunclets

/-- Whether a request is that for a piece of code, or is missing because of a contract that the piece breaks. -/
def Settles (cl : CommandLine) (entry : Kind × TypedPiece) : Except (Stop UnwindError) HostRequest → Prop
  | .ok request => request = .commit (cl.commitOf entry.1 entry.2) ∧ ∀ fault, ¬ entry.2.Breaks cl.placed fault
  | .error stop => ∃ fault, stop = .fault fault ∧ entry.2.Breaks cl.placed fault

private theorem settles_of_reports {entry : Kind × TypedPiece} (h : c.Reports oracle (slot.function, slot.region) entry)
    (hmem : slot ∈ c.slots) (htracker : slot.tracker = .framed cl.arch) :
    cl.Settles entry ((c.commitOf oracle cl.placed slot).map .commit) := by
  obtain ⟨hkind, hshows⟩ := h
  have hbreaks (fault : Fault) : entry.2.Breaks cl.placed fault ↔
      c.commitOf oracle cl.placed slot = .error (.fault fault) :=
    hshows.breaks_iff.trans (Context.commitOf_eq_fault_iff hmem).symm
  cases hcommit : c.commitOf oracle cl.placed slot with
  | ok k =>
    refine ⟨?_, fun fault h => ?_⟩
    · obtain ⟨range, hrange, hcommit⟩ := bind_eq_ok_iff.1 hcommit
      obtain ⟨info, hinfo, hcommit⟩ := bind_eq_ok_iff.1 hcommit
      rw [htracker, Tracker.recordInfo_framed] at hinfo
      cases hinfo
      cases hcommit
      obtain rfl := hshows.range_eq hrange
      rw [commitOf, ← hkind, hshows.region_eq, hotBase_placed]
    · rw [hbreaks, hcommit] at h
      cases h
  | error stop =>
    cases stop with
    | fault fault => exact ⟨fault, rfl, (hbreaks fault).2 hcommit⟩
    | error e =>
      obtain ⟨hmarker, hnone⟩ | hfails := Context.obstacle_of_commitOf_eq_error hcommit
      · exact absurd hnone (hshows.ne_none hmarker)
      · rw [htracker, Context.recordInfo_eq_ok_iff.1 (Tracker.recordInfo_framed ..)] at hfails
        cases hfails

/-- What a commit is to do agrees, step by step, with the pieces that were given. -/
theorem Describes.forall₂_settles (h : cl.Describes oracle c.functions.root c.functions.funclets)
    (htrackers : ∀ t ∈ c.trackers, t = .framed cl.arch) :
    List.Forall₂ cl.Settles (cl.pieces c.settings.fakeSplitting) (c.agenda (.commit oracle cl.placed)) := by
  have hreports := List.forall₂_map_left_iff.1 h.forall₂_reports
  have hslots := (List.forall₂_and_left _ _).2 ⟨fun slot (hmem : slot ∈ c.slots) => hmem, hreports⟩
  refine List.forall₂_map_right_iff.2 (hslots.flip.imp fun entry slot ⟨hmem, hreport⟩ => ?_)
  exact settles_of_reports hreport hmem (htrackers _ (Context.tracker_of_mem_slots hmem))

/-- Requests that all exist are those for the pieces of a unit, none of which breaks a contract. -/
theorem eq_of_settles {entries : List (Kind × TypedPiece)} {made : List HostRequest}
    (h : List.Forall₂ cl.Settles entries (made.map .ok)) :
    made = entries.map (fun (kind, piece) => .commit (cl.commitOf kind piece)) ∧
      ∀ entry ∈ entries, ∀ fault, ¬ entry.2.Breaks cl.placed fault := by
  induction entries generalizing made with
  | nil =>
    obtain rfl := List.map_eq_nil_iff.1 (List.forall₂_nil_left_iff.1 h)
    exact ⟨rfl, fun _ hentry => nomatch hentry⟩
  | cons entry entries ih =>
    obtain ⟨step, rest, hsettles, hrest, hmade⟩ := List.forall₂_cons_left_iff.1 h
    obtain ⟨request, made, rfl, rfl, rfl⟩ := List.map_eq_cons_iff.1 hmade
    obtain ⟨hrequest, hwhole⟩ := hsettles
    obtain ⟨rfl, hothers⟩ := ih hrest
    exact ⟨congrArg (· :: _) hrequest, List.forall_mem_cons.2 ⟨hwhole, hothers⟩⟩

/-- A step that cannot be made up goes back to a piece that breaks a contract. -/
theorem exists_breaks_of_settles {entries : List (Kind × TypedPiece)}
    {plan : List (Except (Stop UnwindError) HostRequest)} {stop : Stop UnwindError}
    (h : List.Forall₂ cl.Settles entries plan) (hmem : .error stop ∈ plan) :
    ∃ fault, stop = .fault fault ∧ ∃ entry ∈ entries, entry.2.Breaks cl.placed fault := by
  obtain ⟨entry, hentry, fault, rfl, hbreaks⟩ := exists_mem_of_forall₂ h hmem
  exact ⟨fault, rfl, entry, hentry, hbreaks⟩

end CommandLine

end StackUnwind
