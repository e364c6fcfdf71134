import StackUnwind.Context
import StackUnwind.Proofs.Emission.Epilog
import StackUnwind.Proofs.Frame.Built
import StackUnwind.Proofs.Generation.Placement

namespace StackUnwind

/-- A call of a code generator. Prologs and epilogs are those of the function with the given index. -/
inductive CodegenCall where
  | newLocation
  | place (location : Location)
  | here
  | beginCold
  | beginColdAt (location : Location)
  | instruction (draft : Draft)
  | prolog (index : Nat) (frame : FrameLayout)
  | epilog (index : Nat)
  deriving DecidableEq, Repr

/-- The code of a unit under construction, with the context that its prologs and epilogs are reported to. -/
structure Generation where
  unit : UnitCode := {}
  context : Context
  /-- The frame of each function whose prolog has been written, as the prolog has left it. -/
  frames : List (Option FrameLayout)
  /-- The locations that were placed up to the beginning of the cold section. -/
  hot : List Placement := []
  /-- The locations that were placed from the beginning of the cold section on. -/
  cold : List Placement := []

namespace Generation

/-- No code yet. -/
def start (context : Context) : Generation := { context, frames := context.trackers.map fun _ => none }

/-- The placement of a location at the end of the code. -/
def atEnd (g : Generation) (location : Location) : Placement := (location, g.unit.encoder.code.size)

/-- A location has been placed, which made `unit` of the code. -/
def placed (g : Generation) (location : Location) (unit : UnitCode) : Generation :=
  if g.unit.inColdSection then { g with unit, cold := g.cold ++ [g.atEnd location] }
  else { g with unit, hot := g.hot ++ [g.atEnd location] }

/-- The cold section has begun at a location, which made `unit` of the code. -/
def begun (g : Generation) (location : Location) (unit : UnitCode) : Generation :=
  { g with unit, hot := g.hot ++ [g.atEnd location], cold := [g.atEnd location] }

/-- The state of writing a prolog or an epilog, after which `y` is the code, the tracker and the frame. -/
def wrote (g : Generation) (index : Nat) (y : Emission Tracker) : Generation :=
  { g with
    unit := y.unit, context := g.context.setTracker index y.recorder
    frames := g.frames.set index (some y.frame) }

/-- The state after a call. Prologs and epilogs have to succeed, each function has one prolog, and its
    epilogs come after it; other calls may fail. -/
def step (g : Generation) : CodegenCall → Option Generation
  | .newLocation => some { g with unit := g.unit.newLocation.2 }
  | .place location =>
    match UnitCode.place location g.unit with
    | .ok _ unit => some (g.placed location unit)
    | .error _ unit => some { g with unit }
  | .here =>
    match UnitCode.here g.unit with
    | .ok location unit => some (g.placed location unit)
    | .error _ unit => some { g with unit }
  | .beginCold =>
    match UnitCode.beginCold g.unit with
    | .ok location unit => some (g.begun location unit)
    | .error _ unit => some { g with unit }
  | .beginColdAt location =>
    match UnitCode.beginColdAt location g.unit with
    | .ok _ unit => some (g.begun location unit)
    | .error _ unit => some { g with unit }
  | .instruction draft =>
    match UnitCode.onEncoder (Encoder.emit draft) g.unit with
    | .ok _ unit | .error _ unit => some { g with unit }
  | .prolog index frame =>
    match g.frames[index]?, g.context.trackers[index]? with
    | some none, some recorder =>
      match Emission.prolog { unit := g.unit, recorder, frame } with
      | .ok _ y => some (g.wrote index y)
      | .error _ _ => none
    | _, _ => none
  | .epilog index =>
    match g.frames[index]?, g.context.trackers[index]? with
    | some (some frame), some recorder =>
      match Emission.epilog { unit := g.unit, recorder, frame } with
      | .ok _ y => some (g.wrote index y)
      | .error _ _ => none
    | _, _ => none

/-- The state after calls one after another. -/
def run (g : Generation) (calls : List CodegenCall) : Option Generation := calls.foldlM step g

end Generation

/-- What a tracker has recorded of a function whose prolog has been written or not. -/
def Tracker.Recorded (t : Tracker) : Option FrameLayout → Prop
  | none => t = .fresh .x64
  | some frame => t.phase = .body ∧ ∃ log is, t.recorder = .x64 log ∧ frame.prologOps = .ok log.ops ∧
      UnwindRecord.Expressible log.ops is

namespace Generation

/-- What holds whenever code is written for the functions of a context. -/
structure Inv (c : Context) (g : Generation) : Prop where
  functions : g.context.functions = c.functions
  settings : g.context.settings = c.settings
  placements : Placements g.unit g.hot g.cold
  recorded : List.Forall₂ Tracker.Recorded g.context.trackers g.frames
  /-- Each prolog has added to the code. -/
  prologs : g.frames.countP Option.isSome ≤ g.unit.encoder.code.size

variable {c : Context} {g g' : Generation}

/-- The invariant holds before the first call. -/
theorem inv_start (h : ∀ t ∈ c.trackers, t = .fresh .x64) : Inv c (start c) := by
  refine ⟨rfl, rfl, .empty, ?_, ?_⟩
  · rw [start, List.forall₂_map_right_iff, List.forall₂_same]
    exact h
  · simp [start]

/-- Any change of the code that keeps its placements. -/
theorem Inv.of_unit (h : Inv c g) {unit : UnitCode} {hot cold : List Placement}
    (hplacements : Placements unit hot cold)
    (hsize : g.unit.encoder.code.size ≤ unit.encoder.code.size) : Inv c { g with unit, hot, cold } :=
  ⟨h.functions, h.settings, hplacements, h.recorded, Nat.le_trans h.prologs hsize⟩

private theorem Inv.placed (h : Inv c g) {location : Location} {unit : UnitCode}
    (hplace : UnitCode.place location g.unit = .ok () unit) : Inv c (g.placed location unit) := by
  have hsize : g.unit.encoder.code.size ≤ unit.encoder.code.size :=
    Nat.le_of_eq (congrArg Array.size (UnitCode.code_of_place hplace).symm)
  have hstart := h.placements.coldStart
  unfold Generation.placed
  split
  next hcold =>
    have hne : g.cold ≠ [] := by
      intro hnil
      rw [UnitCode.inColdSection, hstart, hnil] at hcold
      cases hcold
    exact h.of_unit (h.placements.place_cold hne hplace) hsize
  next hhot =>
    have hnil : g.cold = [] := by
      rw [UnitCode.inColdSection, hstart] at hhot
      simpa using hhot
    have hplacements : Placements unit (g.hot ++ [g.atEnd location]) g.cold := by
      have hbefore := h.placements
      rw [hnil] at hbefore ⊢
      exact hbefore.place_hot hplace
    exact h.of_unit hplacements hsize

private theorem Inv.begun (h : Inv c g) {location : Location} {unit : UnitCode}
    (hbegin : UnitCode.beginColdAt location g.unit = .ok () unit) : Inv c (g.begun location unit) := by
  obtain ⟨hhot, placed, hplace, rfl⟩ := UnitCode.beginColdAt_eq_ok_iff.1 hbegin
  have hnil : g.cold = [] := by
    have hstart := h.placements.coldStart
    rw [hhot] at hstart
    simpa using hstart.symm
  have hbefore := h.placements
  rw [hnil] at hbefore
  exact h.of_unit (hbefore.begin_cold hplace) (Nat.le_of_eq (congrArg Array.size (UnitCode.code_of_place hplace).symm))

private theorem Inv.newLocation (h : Inv c g) : Inv c { g with unit := g.unit.newLocation.2 } := by
  have hlabels := g.unit.encoder.offset?_newLabel
  exact h.of_unit (h.placements.extend hlabels (Nat.le_refl _) rfl) (Nat.le_refl _)

/-- A function's prolog or epilog has been written. -/
theorem Inv.wrote (h : Inv c g) {index : Nat} {frame? : Option FrameLayout} {y : Emission Tracker}
    {is : List Instruction} (hframe : g.frames[index]? = some frame?)
    (hunit : y.unit = { g.unit with encoder := g.unit.encoder.appendAll is })
    (hrecorded : y.recorder.Recorded (some y.frame)) (hgrows : frame? = none → 1 ≤ Instruction.totalLength is) :
    Inv c (g.wrote index y) := by
  obtain ⟨hlt, rfl⟩ := List.getElem?_eq_some_iff.1 hframe
  have hsize : y.unit.encoder.code.size = g.unit.encoder.code.size + Instruction.totalLength is := by
    rw [hunit]
    exact Encoder.size_code_appendAll _ _
  refine ⟨h.functions, h.settings, ?_, forall₂_set h.recorded hrecorded index, ?_⟩
  · rw [Generation.wrote, hunit]
    exact h.placements.appendAll is
  -- Only what is written first for a function is counted anew, and that is a prolog, which is not empty.
  · have hprologs := h.prologs
    change (g.frames.set index (some y.frame)).countP Option.isSome ≤ y.unit.encoder.code.size
    rw [List.countP_set hlt, hsize]
    cases hold : g.frames[index] with
    | none =>
      have hgrown := hgrows hold
      simp only [Option.isSome_none, Option.isSome_some, Bool.false_eq_true, if_false, if_true]
      omega
    | some frame =>
      have hpos : 0 < g.frames.countP Option.isSome := by
        refine List.countP_pos_iff.2 ⟨some frame, ?_, rfl⟩
        rw [← hold]
        exact List.getElem_mem hlt
      simp only [Option.isSome_some, if_true]
      omega

private theorem Inv.prolog (h : Inv c g) {index : Nat} {frame : FrameLayout} {tracker : Tracker} {y : Emission Tracker}
    (hbuilt : frame.Built) (hframe : g.frames[index]? = some none)
    (htracker : g.context.trackers[index]? = some tracker)
    (hprolog : Emission.prolog { unit := g.unit, recorder := tracker, frame } = .ok () y) :
    Inv c (g.wrote index y) := by
  have hrecorded := forall₂_getElem? h.recorded htracker hframe
  have hfresh : tracker = .fresh .x64 := hrecorded
  obtain ⟨log, is, hlog, hrun⟩ := Emission.prologRun_of_tracker hfresh hprolog
  have hexpressible := hrun.expressible hbuilt
  refine h.wrote hframe hrun.unit ?_ fun _ => ?_
  · rw [hlog]
    exact ⟨rfl, log, is, rfl, hrun.prologOps, hexpressible⟩
  · obtain ⟨saves, -, hops⟩ := FrameLayout.prologOps_eq_ok_iff.1 hrun.prologOps
    have hle := UnwindRecord.length_le_totalLength hexpressible.performed
    have hpos : 0 < log.ops.length := by
      rw [hops]
      simp
    omega

private theorem Inv.epilog (h : Inv c g) {index : Nat} {frame : FrameLayout} {tracker : Tracker} {y : Emission Tracker}
    (hframe : g.frames[index]? = some (some frame)) (htracker : g.context.trackers[index]? = some tracker)
    (hepilog : Emission.epilog { unit := g.unit, recorder := tracker, frame } = .ok () y) :
    Inv c (g.wrote index y) := by
  obtain ⟨loads, is, -, -, hunit, hsame, hrecord⟩ := Emission.epilog_run hepilog
  obtain ⟨-, log, ops, hlog, hops, hexpressible⟩ := forall₂_getElem? h.recorded htracker hframe
  obtain ⟨hphase, log', hlog', hkept⟩ := Tracker.ops_of_recordAll_ofEpilog hlog hrecord
  refine h.wrote hframe hunit ?_ nofun
  rw [← hkept] at hops hexpressible
  rw [hsame]
  exact ⟨hphase, log', ops, hlog', hops, hexpressible⟩

/-- One call keeps the invariant. -/
theorem Inv.step (h : Inv c g) {call : CodegenCall} (hbuilt : ∀ index frame, call = .prolog index frame → frame.Built)
    (hstep : g.step call = some g') : Inv c g' := by
  cases call with
  | newLocation =>
    cases hstep
    exact h.newLocation
  | place location =>
    rw [Generation.step] at hstep
    split at hstep <;> cases hstep
    next hplace => exact h.placed hplace
    next herror =>
      obtain rfl := UnitCode.state_of_place_eq_error herror
      exact h
  | here =>
    rw [Generation.step, UnitCode.here_eq] at hstep
    cases hplace : UnitCode.place g.unit.newLocation.1 g.unit.newLocation.2 with
    | ok u unit =>
      rw [hplace] at hstep
      cases hstep
      exact h.newLocation.placed hplace
    | error e unit =>
      rw [hplace] at hstep
      cases hstep
      obtain rfl := UnitCode.state_of_place_eq_error hplace
      exact h.newLocation
  | beginCold =>
    rw [Generation.step, UnitCode.beginCold_eq] at hstep
    cases hbegin : UnitCode.beginColdAt g.unit.newLocation.1 g.unit.newLocation.2 with
    | ok u unit =>
      rw [hbegin] at hstep
      cases hstep
      exact h.newLocation.begun hbegin
    | error e unit =>
      rw [hbegin] at hstep
      cases hstep
      obtain rfl := UnitCode.state_of_beginColdAt_eq_error hbegin
      exact h.newLocation
  | beginColdAt location =>
    rw [Generation.step] at hstep
    split at hstep <;> cases hstep
    next hbegin => exact h.begun hbegin
    next herror =>
      obtain rfl := UnitCode.state_of_beginColdAt_eq_error herror
      exact h
  | instruction draft =>
    rw [Generation.step, UnitCode.onEncoder, onPart, Encoder.emit_eq] at hstep
    cases hcheck : draft.check with
    | ok i =>
      rw [hcheck] at hstep
      cases hstep
      refine h.of_unit (h.placements.appendAll [i]) ?_
      exact Nat.le_trans (Nat.le_add_right _ _) (Nat.le_of_eq (Encoder.size_code_appendAll _ [i]).symm)
    | error err =>
      rw [hcheck] at hstep
      cases hstep
      exact h
  | prolog index frame =>
    rw [Generation.step] at hstep
    split at hstep
    next hframe htracker =>
      split at hstep <;> cases hstep
      next hprolog => exact h.prolog (hbuilt index frame rfl) hframe htracker hprolog
    next => cases hstep
  | epilog index =>
    rw [Generation.step] at hstep
    split at hstep
    next hframe htracker =>
      split at hstep <;> cases hstep
      next hepilog => exact h.epilog hframe htracker hepilog
    next => cases hstep

/-- What has been written by any number of calls keeps the invariant. -/
theorem Inv.run (h : Inv c g) {calls : List CodegenCall}
    (hbuilt : ∀ index frame, .prolog index frame ∈ calls → frame.Built) (hrun : g.run calls = some g') :
    Inv c g' := by
  induction calls generalizing g with
  | nil =>
    cases hrun
    exact h
  | cons call calls ih =>
    rw [Generation.run, List.foldlM_cons, Option.bind_eq_bind, Option.bind_eq_some_iff] at hrun
    obtain ⟨g₁, hstep, hrest⟩ := hrun
    have hfirst := h.step (fun index frame heq => hbuilt index frame (heq ▸ .head _)) hstep
    exact ih hfirst (fun index frame hmem => hbuilt index frame (.tail _ hmem)) hrest

end Generation

end StackUnwind
