import StackUnwind.Prolog
import StackUnwind.State

/-!
Broken contracts. A fault is a mistake of the caller, not a condition the caller is expected
to handle: it stops the work at once. `Stop` is the outcome of a computation that may end
either way, with a returned error or with a fault.
-/

namespace StackUnwind

/-- The arithmetic that is checked to stay within its word. -/
inductive Arithmetic where
  | add
  | multiply
  deriving DecidableEq, Repr

/-- A broken contract. -/
inductive Fault where
  /-- A sum or product does not fit its word. -/
  | overflow (operation : Arithmetic)
  /-- A list of `length` items has no item `index`. -/
  | outOfBounds (length index : Nat)
  /-- A second prolog was begun. -/
  | prologRepeated
  /-- A prolog was ended that is not open. -/
  | prologNotOpen
  /-- An epilog was begun elsewhere than in a body. -/
  | epilogOutsideBody
  /-- An epilog was ended that is not open. -/
  | epilogNotOpen
  /-- A frame operation was reported outside of a bracket. -/
  | opOutsideBracket (op : PrologOp) (phase : Phase)
  /-- A prolog was begun on a log that already holds one. -/
  | logNotEmpty
  /-- The slots of an unwind code do not have the announced number. -/
  | slotCountMismatch
  /-- Records were asked for while a prolog is open. -/
  | prologOpen
  /-- Records were asked for while an epilog is open. -/
  | epilogOpen
  /-- The cold base is given for a unit without cold code, or missing for one with it. -/
  | coldBaseMismatch
  /-- A layout claims more hot code than code. -/
  | hotLargerThanUnit
  /-- A split layout was asked for with more hot code than code. -/
  | splitBeyondUnit
  /-- A root was described as a funclet. -/
  | rootAsFunclet
  /-- A funclet has cold code. -/
  | funcletSplit
  /-- A funclet was to be reported over the whole unit. -/
  | funcletFakeSplit
  /-- A unit without a cold base was to be reported over the whole unit. -/
  | fakeSplitWithoutColdBase
  /-- A hot range ends after the hot code. -/
  | hotRangePastEnd (stop hotSize : UInt32)
  /-- A cold range starts before the cold code. -/
  | coldRangeInHot (start hotSize : UInt32)
  /-- A range ends before it starts. -/
  | invertedRange (start stop : UInt32)
  /-- A record is not as long as the storage reserved for it. -/
  | recordSizeMismatch
  deriving DecidableEq, Repr

namespace Arithmetic

def verb : Arithmetic → String
  | add => "add"
  | multiply => "multiply"

end Arithmetic

namespace Fault

/-- The text a fault is reported with. -/
def message : Fault → String
  | overflow operation => s!"attempt to {operation.verb} with overflow"
  | outOfBounds length index =>
    s!"index out of bounds: the len is {length} but the index is {index}"
  | prologRepeated => "prolog already generated"
  | prologNotOpen => "end_prolog without begin_prolog"
  | epilogOutsideBody => "epilog must follow a finished prolog"
  | epilogNotOpen => "end_epilog without begin_epilog"
  | opOutsideBracket op phase =>
    s!"unwind op `{op.keyword}` outside of a prolog or epilog (phase {phase.name})"
  | logNotEmpty => "prolog recorded twice"
  | slotCountMismatch => "assertion `left == right` failed"
  | prologOpen => "unwind info requested while generating a prolog"
  | epilogOpen => "unwind info requested while generating an epilog"
  | coldBaseMismatch =>
    "cold code base must be given exactly when the unit has a cold region"
  | hotLargerThanUnit =>
    "assertion failed: layout.total_hot_code_size <= layout.total_native_code_size"
  | splitBeyondUnit => "assertion failed: hot_size <= total_size"
  | rootAsFunclet => "funclet descriptor must not be a root"
  | funcletSplit => "funclets are never split"
  | funcletFakeSplit => "no fake splitting of funclets"
  | fakeSplitWithoutColdBase => "assertion failed: layout.cold_code.is_some()"
  | hotRangePastEnd stop hotSize =>
    s!"hot range ends past the hot code ({stop} > {hotSize})"
  | coldRangeInHot start hotSize =>
    s!"cold range starts in hot code ({start} < {hotSize})"
  | invertedRange start stop => s!"inverted range [{start}, {stop})"
  | recordSizeMismatch => "record size differs from reservation"

end Fault

/-- Why a computation stopped early: an error that its caller is told about, or a fault. -/
inductive Stop (ε : Type) where
  | error (e : ε)
  | fault (f : Fault)
  deriving DecidableEq, Repr

namespace Stop

variable {ε ε' : Type}

/-- A stop with its error seen as another kind of error. -/
def map (f : ε → ε') : Stop ε → Stop ε'
  | error e => error (f e)
  | fault f => fault f

end Stop

/-- A computation that can only fault, seen as one that may also return an error. -/
instance {ε : Type} : MonadLift (Except Fault) (Except (Stop ε)) where
  monadLift x := x.mapError .fault

/-- A computation that can only return an error, seen as one that may also fault. -/
instance {ε : Type} : MonadLift (Except ε) (Except (Stop ε)) where
  monadLift x := x.mapError .error

end StackUnwind
