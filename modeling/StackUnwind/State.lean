/-!
Work with a state that an error may stop. What was done before the error stays done, and what
part of the state it was done to is all that it can have changed.
-/

namespace StackUnwind

/-- A computation without state, run where there is one: an error leaves the state as it was. -/
instance instMonadLiftExcept {ε σ : Type} : MonadLift (Except ε) (EStateM ε σ) where
  monadLift x := match x with
    | .ok a => pure a
    | .error e => throw e

variable {ε ε' σ τ α : Type}

/-- The same outcome with another state. -/
def mapState (f : σ → τ) : EStateM.Result ε σ α → EStateM.Result ε τ α
  | .ok a s => .ok a (f s)
  | .error e s => .error e (f s)

/-- Work on a part of a state, the errors of which are seen as errors of the whole. -/
def onPart (part : σ → τ) (withPart : σ → τ → σ) (error : ε → ε') (work : EStateM ε τ α) :
    EStateM ε' σ α := fun s =>
  match work (part s) with
  | .ok a t => .ok a (withPart s t)
  | .error e t => .error (error e) (withPart s t)

/-- How work ends, without the state that it leaves. -/
def verdict : EStateM.Result ε σ α → Except ε α
  | .ok a _ => .ok a
  | .error e _ => .error e

/-- The state in which work ends, unless it is stopped. -/
def outcome (work : EStateM ε σ Unit) (s : σ) : Except ε σ :=
  match work s with
  | .ok _ s => .ok s
  | .error e _ => .error e

end StackUnwind
