import StackUnwind.Proofs.CommandLine.TypedSpan
import StackUnwind.CommandLine

namespace StackUnwind

namespace GivenOptions

variable {given given' : GivenOptions} {name : OptionName} {value : String}

/-- Whether no root has been given as a funclet. -/
def FuncletsOnly (given : GivenOptions) : Prop := ∀ f ∈ given.funclets, f.kind.isFunclet

private theorem readBy_eq_ok_iff {α : Type} {read : List Char → Except SpanError α} {a : α} :
    readBy read name value = .ok a ↔ read value.toList = .ok a :=
  mapError_eq_ok_iff

/-- Reading the value of an option leaves the funclets as they are, but for one that it may add. -/
theorem FuncletsOnly.accept (h : given.FuncletsOnly) (haccept : given.accept name value = .ok given') :
    given'.FuncletsOnly := by
  unfold GivenOptions.accept at haccept
  cases name <;> obtain ⟨a, ha, hgiven⟩ := bind_eq_ok_iff.1 haccept <;> cases hgiven
  case funclet =>
    obtain ⟨span, -, hkind, -⟩ := TypedFunclet.read_eq_ok_iff.1 (readBy_eq_ok_iff.1 ha)
    exact List.forall_mem_append.2 ⟨h, List.forall_mem_singleton.2 hkind⟩
  all_goals exact h

private theorem FuncletsOnly.acceptFakeSplit (h : given.FuncletsOnly) (haccept : given.acceptFakeSplit = .ok given') :
    given'.FuncletsOnly := by
  unfold GivenOptions.acceptFakeSplit at haccept
  split at haccept
  · cases haccept
  · cases haccept
    exact h

private theorem funclets_of_complete {cl : CommandLine} (h : given.complete = .ok cl) :
    cl.funclets = given.funclets := by
  unfold complete at h
  split at h
  · cases h
  · cases h
    rfl

end GivenOptions

namespace ArgumentScan

variable {s s' : ArgumentScan} {given : GivenOptions} {cl : CommandLine}

private theorem funcletsOnly_settle (h : s.given.FuncletsOnly) (hsettle : s.settle = .ok given) :
    given.FuncletsOnly := by
  unfold settle at hsettle
  split at hsettle
  · cases hsettle
    exact h
  · cases hsettle
  · exact h.accept hsettle

private theorem funcletsOnly_option {name : OptionName} {value : Option String} (h : s.given.FuncletsOnly)
    (hoption : s.option name value = .ok s') : s'.given.FuncletsOnly := by
  obtain ⟨given, hsettle, hoption⟩ := bind_eq_ok_iff.1 hoption
  have hgiven := funcletsOnly_settle h hsettle
  cases value with
  | none =>
    cases hoption
    exact hgiven
  | some value =>
    obtain ⟨given', haccept, hoption⟩ := bind_eq_ok_iff.1 hoption
    cases hoption
    exact hgiven.accept haccept

private theorem funcletsOnly_flag {flag : Flag} {value : Option String} (h : s.given.FuncletsOnly)
    (hflag : s.flag flag value = .ok given) : given.FuncletsOnly := by
  cases value with
  | none => exact funcletsOnly_settle h hflag
  | some value => cases hflag

private theorem isFunclet_of_complete (h : s.given.FuncletsOnly)
    (hcomplete : (do return Request.trace (← (← s.settle).complete)) = .ok (.trace cl)) :
    ∀ f ∈ cl.funclets, f.kind.isFunclet := by
  obtain ⟨given, hsettle, hcomplete⟩ := bind_eq_ok_iff.1 hcomplete
  obtain ⟨cl', hcomplete, hrequest⟩ := bind_eq_ok_iff.1 hcomplete
  cases hrequest
  rw [GivenOptions.funclets_of_complete hcomplete]
  exact funcletsOnly_settle h hsettle

/-- However the arguments are read on, no root is given as a funclet. -/
theorem isFunclet_of_finish {arguments : List String} (h : s.given.FuncletsOnly)
    (hfinish : s.finish arguments = .ok (.trace cl)) : ∀ f ∈ cl.funclets, f.kind.isFunclet := by
  fun_induction finish s arguments
  case case1 | case8 => exact isFunclet_of_complete h hfinish
  case case2 ih =>
    obtain ⟨given, hflag, hfinish⟩ := bind_eq_ok_iff.1 hfinish
    obtain ⟨given', haccept, hfinish⟩ := bind_eq_ok_iff.1 hfinish
    exact ih given' ((funcletsOnly_flag h hflag).acceptFakeSplit haccept) hfinish
  case case3 | case6 =>
    obtain ⟨given, -, hhelp⟩ := bind_eq_ok_iff.1 hfinish
    cases hhelp
  case case4 ih =>
    obtain ⟨s', hoption, hfinish⟩ := bind_eq_ok_iff.1 hfinish
    exact ih s' (funcletsOnly_option h hoption) hfinish
  case case10 ih => exact ih h hfinish
  case case5 | case7 | case9 | case11 | case12 => cases hfinish

end ArgumentScan

/-- The funclets of a command line that was read are handlers and filters. -/
theorem Request.isFunclet_of_ofArguments {arguments : List String} {cl : CommandLine}
    (h : ofArguments arguments = .ok (.trace cl)) : ∀ f ∈ cl.funclets, f.kind.isFunclet :=
  ArgumentScan.isFunclet_of_finish (fun _ hf => absurd hf List.not_mem_nil) h

end StackUnwind
