import StackUnwind.Encoder
import StackUnwind.Frame
import StackUnwind.Layout
import StackUnwind.Recorder

/-!
The code of a unit, hot code first. Locations are labels of the encoder. Prologs and epilogs are
written instruction by instruction, and each operation of a prolog is reported to the function's
recorder right after its instruction, so that the recorder's log describes the code.
-/

namespace StackUnwind

/-- The code of a unit under construction. -/
structure UnitCode where
  encoder : Encoder := {}
  /-- The location of the first byte of cold code, once cold code has begun. -/
  coldStart : Option Location := none
  deriving DecidableEq, Repr

/-- Why code could not be written. -/
inductive CodegenError where
  | encode (cause : EncodeError)
  /-- The frame cannot be set up. -/
  | invalidFrame
  /-- The cold section has begun. -/
  | coldSectionStarted
  deriving DecidableEq, Repr

namespace CodegenError

def message : CodegenError → String
  | encode cause => cause.message
  | invalidFrame => "Invalid stack frame layout"
  | coldSectionStarted => "Cold section already started"

end CodegenError

/-- Building the code of a unit, which an error may stop. -/
abbrev UnitCodeM := EStateM CodegenError UnitCode

namespace UnitCode

/-- Work with the encoder. -/
def onEncoder {α : Type} (work : EncoderM α) : UnitCodeM α :=
  onPart encoder (fun unit encoder => { unit with encoder }) .encode work

/-- A new location, not yet placed. -/
def newLocation (unit : UnitCode) : Location × UnitCode :=
  let (label, encoder) := unit.encoder.newLabel
  (⟨.ofNat label⟩, { unit with encoder })

/-- Place a location at the end of the code. -/
def place (location : Location) : UnitCodeM Unit :=
  onEncoder (Encoder.place location.id.toNat)

/-- A new location at the end of the code. -/
def here : UnitCodeM Location := do
  let location ← modifyGet newLocation
  place location
  return location

def inColdSection (unit : UnitCode) : Bool := unit.coldStart.isSome

/-- Begin the cold section at a location that is placed at the end of the code. -/
def beginColdAt (location : Location) : UnitCodeM Unit := do
  let unit ← get
  if unit.inColdSection then
    throw .coldSectionStarted
  place location
  modify fun unit => { unit with coldStart := some location }

/-- Begin the cold section at a new location. -/
def beginCold : UnitCodeM Location := do
  let location ← modifyGet newLocation
  beginColdAt location
  return location

end UnitCode

/-- The state of writing prologs and epilogs of a function. -/
structure Emission (ρ : Type) where
  unit : UnitCode
  recorder : ρ
  frame : FrameLayout
  /-- What has been traced, latest last. -/
  log : List Message := []

/-- Writing prologs and epilogs, which an error or a fault may stop halfway. -/
abbrev EmissionM (ρ : Type) := EStateM (Stop CodegenError) (Emission ρ)

namespace Emission

variable {ρ : Type} [FrameRecorder ρ]

/-- Append an instruction to the code. -/
def emit (draft : Draft) : EmissionM ρ Unit :=
  onPart unit (fun x unit => { x with unit }) .error (UnitCode.onEncoder (Encoder.emit draft))

/-- Report an event to the recorder. -/
def report (event : FrameEvent) : EmissionM ρ Unit := do
  modify fun x => { x with log := x.log ++ FrameRecorder.messages x.recorder event }
  onPart recorder (fun x recorder => { x with recorder }) .fault (FrameRecorder.record event)

/-- Calculate the size of the frame and check that it can be set up. -/
def prepareFrame : EmissionM ρ FrameLayout := do
  let x ← get
  if x.unit.inColdSection then
    throw (.error .coldSectionStarted)
  let frame ← x.frame.calculateFrameSize
  set { x with frame }
  if !frame.canBeSetUp then
    throw (.error .invalidFrame)
  return frame

/-- Store the saved vector registers into their slots, of which `index` have been stored before. -/
def storeXmm (frame : FrameLayout) (index : Nat) : List Register → EmissionM ρ Unit
  | [] => return
  | reg :: regs => do
    let offset ← frame.xmmSlot index
    emit (.store .rsp offset reg)
    report (.op (.save reg offset))
    storeXmm frame (index + 1) regs

/-- Write the prolog that sets up the frame. What each instruction does is reported right after it. -/
def prolog : EmissionM ρ Unit := do
  let frame ← prepareFrame
  report .beginProlog
  emit (.push .rbp)
  report (.op (.push .rbp))
  frame.savedRegisters.forM fun reg => do
    emit (.push reg)
    report (.op (.push reg))
  if frame.frameSize ≠ 0 then
    emit (.sub .rsp frame.frameSize)
    report (.op (.alloc frame.frameSize))
  storeXmm frame 0 frame.savedXmm
  if frame.framePointerOffset = 0 then
    emit (.mov .rbp .rsp)
  else
    emit (.lea .rbp .rsp frame.framePointerOffset)
  report (.op (.setFrame .rbp frame.framePointerOffset))
  report .endProlog

/-- Reload the saved vector registers, of which `index` have been reloaded before. -/
def reloadXmm (frame : FrameLayout) (index : Nat) : List Register → EmissionM ρ Unit
  | [] => return
  | reg :: regs => do
    emit (.load reg .rsp (← frame.xmmSlot index))
    reloadXmm frame (index + 1) regs

/-- Write an epilog that takes down the frame and returns. Nothing is checked beforehand, so an
    error leaves the epilog open. -/
def epilog : EmissionM ρ Unit := do
  let frame := (← get).frame
  report .beginEpilog
  reloadXmm frame 0 frame.savedXmm
  if frame.frameSize ≠ 0 then
    emit (.add .rsp frame.frameSize)
  frame.savedRegisters.reverse.forM fun reg => emit (.pop reg)
  emit (.pop .rbp)
  emit .ret
  report .endEpilog

end Emission

end StackUnwind
