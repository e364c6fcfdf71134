import StackUnwind.Fault
import StackUnwind.Location

/-!
The functions of a compiled unit: one root function, first, and any number of funclets. Only the
root may have code in both regions. A `FunctionSet` has this shape by construction;
`FunctionSet.ofList` checks it and reports the first defect.
-/

namespace StackUnwind

/-- What a function of a unit is for. -/
inductive Kind where
  | root
  | handler
  | filter
  deriving DecidableEq, Repr

namespace Kind

/-- The number of a kind in the interface of the host. -/
def code : Kind → Nat
  | root => 0
  | handler => 1
  | filter => 2

def name : Kind → String
  | root => "root"
  | handler => "handler"
  | filter => "filter"

def isFunclet : Kind → Bool
  | root => false
  | handler | filter => true

end Kind

/-- A root function or a funclet, with the spans of its code. -/
structure UnitFunction where
  kind : Kind
  hot : Span
  /-- The span of the function's cold code, if it has any. -/
  cold : Option Span := none
  deriving DecidableEq, Repr

namespace UnitFunction

/-- The root function, with or without cold code. -/
def root (hot : Span) (cold : Option Span) : UnitFunction := ⟨.root, hot, cold⟩

/-- A funclet, which has hot code only. -/
def funclet (kind : Kind) (hot : Span) : Except Fault UnitFunction :=
  if kind.isFunclet then .ok { kind, hot } else .error .rootAsFunclet

def isFunclet (f : UnitFunction) : Bool := f.kind.isFunclet

/-- Only a root may have code in both regions. -/
def maySplit (f : UnitFunction) : Bool := f.kind == .root

end UnitFunction

/-- What is wrong with the functions of a unit. -/
inductive SetDefect where
  | noRoot
  /-- The first function is of another kind than root. -/
  | rootExpected (kind : Kind)
  /-- A later function is a root, too. -/
  | secondRoot (index : Nat)
  | coldFunclet (index : Nat)
  /-- There is not one recorder for each function. -/
  | recorderCount (recorders functions : Nat)
  deriving DecidableEq, Repr

namespace SetDefect

def message : SetDefect → String
  | noRoot => "a compiled unit needs a root function"
  | rootExpected kind => s!"descriptor 0 is a {kind.name}, expected the root"
  | secondRoot index => s!"descriptor {index} is a second root"
  | coldFunclet index => s!"funclet {index} has a cold span"
  | recorderCount recorders functions =>
    s!"{recorders} recorders supplied for {functions} functions"

end SetDefect

/-- The functions of a unit. -/
structure FunctionSet where
  root : UnitFunction
  funclets : List UnitFunction
  root_kind : root.kind = .root
  funclets_hot : ∀ f ∈ funclets, f.isFunclet = true ∧ f.cold = none

namespace FunctionSet

/-- What is wrong with a function that comes after the root at the given index. -/
def funcletDefect? (index : Nat) (f : UnitFunction) : Option SetDefect :=
  if !f.isFunclet then some (.secondRoot index)
  else if f.cold.isSome then some (.coldFunclet index)
  else none

/-- The first defect among the functions after the root, of which the first has the given
    index. -/
def firstDefect? (index : Nat) : List UnitFunction → Option SetDefect
  | [] => none
  | f :: fs => (funcletDefect? index f).or (firstDefect? (index + 1) fs)

private theorem funcletDefect?_eq_none {index : Nat} {f : UnitFunction}
    (h : funcletDefect? index f = none) : f.isFunclet = true ∧ f.cold = none := by
  unfold funcletDefect? at h
  split at h
  · cases h
  · split at h
    · cases h
    · simp_all

private theorem funclets_hot_of_firstDefect?_eq_none {index : Nat} {fs : List UnitFunction}
    (h : firstDefect? index fs = none) : ∀ f ∈ fs, f.isFunclet = true ∧ f.cold = none := by
  induction fs generalizing index with
  | nil => simp
  | cons f fs ih =>
    rw [firstDefect?, Option.or_eq_none_iff] at h
    intro g hg
    cases hg with
    | head => exact funcletDefect?_eq_none h.1
    | tail _ hg => exact ih h.2 g hg

/-- The functions of a unit, given in order. -/
def ofList : List UnitFunction → Except SetDefect FunctionSet
  | [] => .error .noRoot
  | root :: funclets =>
    if hroot : root.kind = .root then
      match hfunclets : firstDefect? 1 funclets with
      | some defect => .error defect
      | none => .ok ⟨root, funclets, hroot, funclets_hot_of_firstDefect?_eq_none hfunclets⟩
    else .error (.rootExpected root.kind)

/-- The functions in order, root first. -/
def toList (fs : FunctionSet) : List UnitFunction := fs.root :: fs.funclets

def size (fs : FunctionSet) : Nat := fs.toList.length

def get? (fs : FunctionSet) (index : Nat) : Option UnitFunction := fs.toList[index]?

def funcletCount (fs : FunctionSet) : Nat := fs.funclets.length

/-- A unit has a cold region when its root has cold code. -/
def hasColdRegion (fs : FunctionSet) : Bool := fs.root.cold.isSome

/-- A set holds the functions it was made of, in order. -/
theorem toList_of_ofList_eq_ok {functions : List UnitFunction} {fs : FunctionSet}
    (h : ofList functions = .ok fs) : fs.toList = functions := by
  cases functions with
  | nil => cases h
  | cons root funclets =>
    rw [ofList] at h
    split at h
    · split at h
      · cases h
      · cases h
        rfl
    · cases h

end FunctionSet

end StackUnwind
