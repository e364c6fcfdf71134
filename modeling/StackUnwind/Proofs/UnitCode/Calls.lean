import StackUnwind.Proofs.Emission.Epilog
import StackUnwind.Proofs.Encoder.Run
import StackUnwind.Proofs.Exchange.Errand
import StackUnwind.Proofs.Generation.Placement

namespace StackUnwind

namespace Encoder

/-- The encoder after calls, failing ones among them. -/
def afterAll (e : Encoder) (calls : List Call) : Encoder := calls.foldl after e

theorem afterAll_append (e : Encoder) (calls more : List Call) :
    e.afterAll (calls ++ more) = (e.afterAll calls).afterAll more := List.foldl_append

theorem run_append (calls more : List Call) : run (calls ++ more) = (run calls).afterAll more := List.foldl_append

end Encoder

/-- A call on the code of a unit that does not write a prolog or an epilog. -/
inductive UnitCall where
  | newLocation
  | place (location : Location)
  | here
  | beginCold
  | beginColdAt (location : Location)
  /-- A call on the encoder itself. -/
  | encoder (call : Encoder.Call)
  deriving DecidableEq, Repr

/-- What a call that succeeds returns. -/
inductive UnitAnswer where
  | done
  | location (location : Location)
  | label (label : Nat)
  | code (code : AssembledCode)
  deriving DecidableEq, Repr

namespace UnitCode

variable {unit unit' : UnitCode} {location : Location} {e : CodegenError}

/-- Make a call on the encoder. -/
def performEncoder : Encoder.Call → EncoderM UnitAnswer
  | .newLabel => return .label (← modifyGet Encoder.newLabel)
  | .place label => do
    Encoder.place label
    return .done
  | .emit draft => do
    Encoder.emit draft
    return .done
  | .assemble => return .code (← Encoder.assemble)

/-- Make a call. A location that is made for it stays when it fails. -/
def perform : UnitCall → UnitCodeM UnitAnswer
  | .newLocation => return .location (← modifyGet newLocation)
  | .place location => do
    place location
    return .done
  | .here => return .location (← here)
  | .beginCold => return .location (← beginCold)
  | .beginColdAt location => do
    beginColdAt location
    return .done
  | .encoder call => onEncoder (performEncoder call)

/-- The calls on the encoder that a call makes. -/
def made (unit : UnitCode) : UnitCall → List Encoder.Call
  | .newLocation => [.newLabel]
  | .place location => [.place location.id.toNat]
  | .here => [.newLabel, .place unit.newLocation.1.id.toNat]
  | .beginCold => .newLabel :: if unit.inColdSection then [] else [.place unit.newLocation.1.id.toNat]
  | .beginColdAt location => if unit.inColdSection then [] else [.place location.id.toNat]
  | .encoder call => [call]

/-- What a call on the encoder leaves, whatever is made of what it returns. -/
theorem endState_performEncoder (call : Encoder.Call) (e : Encoder) :
    endState (performEncoder call e) = e.after call := by
  cases call with
  | newLabel => rfl
  | place label => exact endState_bind_pure (Encoder.place label) (fun _ => UnitAnswer.done) e
  | emit draft => exact endState_bind_pure (Encoder.emit draft) (fun _ => UnitAnswer.done) e
  | assemble =>
    rw [Encoder.after, Encoder.apply, performEncoder, endState_bind_pure]
    exact (endState_bind_pure Encoder.assemble (fun _ => ()) e).symm

/-- Work with the encoder leaves the cold section as it is. -/
theorem endState_onEncoder {α : Type} (work : EncoderM α) (unit : UnitCode) :
    endState (onEncoder work unit) = { unit with encoder := endState (work unit.encoder) } := by
  rw [onEncoder, endState_onPart]

/-- Placing a location is a call on the encoder, however it ends. -/
theorem endState_place (location : Location) (unit : UnitCode) :
    endState (place location unit) = { unit with encoder := unit.encoder.after (.place location.id.toNat) } :=
  endState_onEncoder (Encoder.place location.id.toNat) unit

private theorem endState_here (unit : UnitCode) :
    endState (here unit) = endState (place unit.newLocation.1 unit.newLocation.2) := by
  rw [here_eq]
  cases place unit.newLocation.1 unit.newLocation.2 <;> rfl

private theorem endState_beginCold (unit : UnitCode) :
    endState (beginCold unit) = endState (beginColdAt unit.newLocation.1 unit.newLocation.2) := by
  rw [beginCold_eq]
  cases beginColdAt unit.newLocation.1 unit.newLocation.2 <;> rfl

private theorem encoder_beginColdAt (location : Location) (unit : UnitCode) :
    (endState (beginColdAt location unit)).encoder =
      unit.encoder.afterAll (if unit.inColdSection then [] else [.place location.id.toNat]) := by
  have hplace : (endState (place location unit)).encoder = unit.encoder.after (.place location.id.toNat) :=
    congrArg encoder (endState_place location unit)
  rw [beginColdAt_eq]
  split
  · rfl
  · rw [Encoder.afterAll, List.foldl_cons, List.foldl_nil, ← hplace]
    cases place location unit <;> rfl

/-- The encoder is where the calls on it have brought it. -/
theorem encoder_perform (call : UnitCall) (unit : UnitCode) :
    (endState (perform call unit)).encoder = unit.encoder.afterAll (unit.made call) := by
  cases call with
  | newLocation => rfl
  | place location =>
    rw [perform, endState_bind_pure, endState_place]
    rfl
  | here =>
    rw [perform, endState_bind_pure, endState_here, endState_place]
    rfl
  | beginCold =>
    rw [perform, endState_bind_pure, endState_beginCold, encoder_beginColdAt]
    rfl
  | beginColdAt location =>
    rw [perform, endState_bind_pure, encoder_beginColdAt]
    rfl
  | encoder call =>
    rw [perform, endState_onEncoder, endState_performEncoder]
    rfl

/-- Whether a call begins the cold section, at which location. -/
inductive Begins (unit : UnitCode) : UnitCall → Location → Prop where
  | new {location : Location} {unit' : UnitCode} (h : perform .beginCold unit = .ok (.location location) unit') :
      Begins unit .beginCold location
  | given {location : Location} {unit' : UnitCode} (h : perform (.beginColdAt location) unit = .ok .done unit') :
      Begins unit (.beginColdAt location) location

theorem perform_beginColdAt_eq (location : Location) (unit : UnitCode) :
    perform (.beginColdAt location) unit = match beginColdAt location unit with
      | .ok _ unit' => .ok .done unit'
      | .error e unit' => .error e unit' := by
  rw [perform, run_bind_pure (beginColdAt location) fun _ => UnitAnswer.done]
  cases beginColdAt location unit <;> rfl

private theorem perform_beginCold_eq (unit : UnitCode) :
    perform .beginCold unit = match beginColdAt unit.newLocation.1 unit.newLocation.2 with
      | .ok _ unit' => .ok (.location unit.newLocation.1) unit'
      | .error e unit' => .error e unit' := by
  rw [perform, run_bind_pure, beginCold_eq]
  cases beginColdAt unit.newLocation.1 unit.newLocation.2 <;> rfl

/-- A call that fails to begin the cold section at a location changes nothing. -/
theorem state_of_perform_beginColdAt_eq_error (h : perform (.beginColdAt location) unit = .error e unit') :
    unit' = unit := by
  rw [perform_beginColdAt_eq] at h
  split at h
  next => cases h
  next hbegin =>
    cases h
    exact state_of_beginColdAt_eq_error hbegin

/-- Beginning the cold section places its start at the end of the code, in a unit without one. -/
theorem after_beginColdAt (h : beginColdAt location unit = .ok () unit') :
    unit.coldStart = none ∧ unit'.coldStart = some location ∧
      unit'.encoder.offset? location.id.toNat = some unit.encoder.code.size := by
  obtain ⟨hnone, placed, hplace, rfl⟩ := beginColdAt_eq_ok_iff.1 h
  obtain ⟨encoder, hencoder, rfl⟩ := place_eq_ok_iff.1 hplace
  exact ⟨hnone, rfl, (Encoder.offset?_place hencoder _).trans (if_pos rfl)⟩

/-- A call that begins the cold section places its start at the end of the code, in a unit without one. -/
theorem Begins.after {call : UnitCall} (h : Begins unit call location) :
    unit.coldStart = none ∧ (endState (perform call unit)).coldStart = some location ∧
      (endState (perform call unit)).encoder.offset? location.id.toNat = some unit.encoder.code.size := by
  cases h with
  | new h =>
    rw [perform_beginCold_eq] at h ⊢
    cases hbegin : beginColdAt unit.newLocation.1 unit.newLocation.2 with
    | ok u unit' =>
      rw [hbegin] at h
      cases h
      have hafter := after_beginColdAt hbegin
      exact hafter
    | error e unit' =>
      rw [hbegin] at h
      cases h
  | given h =>
    rw [perform_beginColdAt_eq] at h ⊢
    cases hbegin : beginColdAt location unit with
    | ok u unit' => exact after_beginColdAt hbegin
    | error e unit' =>
      rw [hbegin] at h
      cases h

/-- No other call moves the start of the cold section. -/
theorem coldStart_perform {call : UnitCall} (h : ∀ location, ¬ Begins unit call location) :
    (endState (perform call unit)).coldStart = unit.coldStart := by
  cases call with
  | newLocation => rfl
  | place location => rw [perform, endState_bind_pure, endState_place]
  | here =>
    rw [perform, endState_bind_pure, endState_here, endState_place]
    rfl
  | beginCold =>
    have hresult := perform_beginCold_eq unit
    cases hbegin : beginColdAt unit.newLocation.1 unit.newLocation.2 with
    | ok u unit' =>
      rw [hbegin] at hresult
      exact absurd (.new hresult) (h unit.newLocation.1)
    | error e unit' =>
      obtain rfl := state_of_beginColdAt_eq_error hbegin
      rw [hresult, hbegin]
      rfl
  | beginColdAt location =>
    have hresult := perform_beginColdAt_eq location unit
    cases hbegin : beginColdAt location unit with
    | ok u unit' =>
      rw [hbegin] at hresult
      exact absurd (.given hresult) (h location)
    | error e unit' =>
      obtain rfl := state_of_beginColdAt_eq_error hbegin
      rw [hresult, hbegin]
      rfl
  | encoder call => rw [perform, endState_onEncoder]

end UnitCode

end StackUnwind
