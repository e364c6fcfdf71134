import StackUnwind.Layout
import StackUnwind.Settings
import StackUnwind.Tracker

/-!
Unwind contexts. A context holds the functions of a unit with one tracker each. The regions that
a function is reported for are decided in one place (`Context.plan`) for reservation and
commitment alike, so the two always agree.
-/

namespace StackUnwind

/-- A unit whose prologs and epilogs are being recorded. -/
structure Context where
  functions : FunctionSet
  /-- The trackers of the functions, in the same order. -/
  trackers : List Tracker
  settings : Settings
  length_trackers : trackers.length = functions.size

/-- The records that a function gets. -/
inductive RegionPlan where
  /-- One for its hot code. -/
  | hotOnly
  /-- One for its hot code and one for its cold code. -/
  | hotAndCold
  /-- One for the whole unit in one piece. -/
  | fakeSplit
  deriving DecidableEq, Repr

namespace Context

/-- The context of the given functions and trackers. -/
def ofTrackers (functions : List UnitFunction) (trackers : List Tracker) (settings : Settings) :
    Except UnwindError Context :=
  if hlength : trackers.length = functions.length then
    match hset : FunctionSet.ofList functions with
    | .error defect => .error (.functionSet defect)
    | .ok set =>
      .ok {
        functions := set, trackers, settings
        length_trackers := by
          rw [FunctionSet.size, FunctionSet.toList_of_ofList_eq_ok hset, hlength] }
  else .error (.functionSet (.recorderCount trackers.length functions.length))

/-- The context of the given functions, of which nothing has been recorded. -/
def fresh (arch : Arch) (functions : List UnitFunction) (settings : Settings) :
    Except UnwindError Context :=
  ofTrackers functions (functions.map fun _ => .fresh arch) settings

/-- What is traced when a context is made. -/
def message (c : Context) (name : String) : Message :=
  ⟨.debug, s!"unwind context for {name}: {c.functions.funcletCount} funclet(s), "
    ++ s!"cold region: {c.functions.hasColdRegion}"⟩

/-- The tracker of a function. -/
def tracker (c : Context) (index : Nat) : Except Fault Tracker :=
  match c.trackers[index]? with
  | some tracker => .ok tracker
  | none => .error (.outOfBounds c.trackers.length index)

/-- The context with another tracker for a function. -/
def setTracker (c : Context) (index : Nat) (tracker : Tracker) : Context :=
  { c with
    trackers := c.trackers.set index tracker
    length_trackers := by rw [List.length_set, c.length_trackers] }

/-- Work on the tracker of a function. -/
def onTracker {α : Type} (index : Nat) (work : EStateM Fault Tracker α) : EStateM Fault Context α := do
  let tracker ← (← get).tracker index
  onPart (fun _ => tracker) (fun c tracker => c.setTracker index tracker) id work

/-- Report an event in a function. -/
def record (index : Nat) (event : FrameEvent) : EStateM Fault Context Unit :=
  onTracker index (FrameRecorder.record event)

/-- Each function with its tracker. -/
def entries (c : Context) : List (UnitFunction × Tracker) :=
  c.functions.toList.zip c.trackers

/-- Storage is reserved and records are committed only while no bracket is open. -/
def requireClosed (c : Context) : Except Fault Unit :=
  if c.trackers.any Tracker.inProlog then .error .prologOpen
  else if c.trackers.any Tracker.inEpilog then .error .epilogOpen
  else .ok ()

/-- The records that a function gets, in a unit with or without a cold region. -/
def plan (c : Context) (f : UnitFunction) (hasColdRegion : Bool) : Except Fault RegionPlan :=
  if f.cold.isSome && !f.maySplit then .error .funcletSplit
  else if !hasColdRegion || !f.maySplit then .ok .hotOnly
  else if c.settings.fakeSplittingActive hasColdRegion then .ok .fakeSplit
  else .ok .hotAndCold

end Context

end StackUnwind
