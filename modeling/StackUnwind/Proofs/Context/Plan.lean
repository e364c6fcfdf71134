import StackUnwind.Context.Commitment
import StackUnwind.Proofs.Outcome

namespace StackUnwind

private theorem Tracker.isBracket_phase (t : Tracker) : t.phase.isBracket = (t.inProlog || t.inEpilog) := by
  unfold inProlog inEpilog
  cases t.phase <;> rfl

namespace Context

variable {c : Context} {f : UnitFunction}

/-- Each entry has a function of the unit and one of its trackers. -/
theorem mem_of_mem_entries {entry : UnitFunction × Tracker} (h : entry ∈ c.entries) :
    entry.1 ∈ c.functions.toList ∧ entry.2 ∈ c.trackers :=
  List.of_mem_zip h

/-- Only the root of a unit has cold code. -/
theorem eq_root_of_cold (hmem : f ∈ c.functions.toList) (hcold : f.cold.isSome) : f = c.functions.root := by
  obtain rfl | hmem := List.mem_cons.1 hmem
  · rfl
  · obtain ⟨-, hnone⟩ := c.functions.funclets_hot f hmem
    rw [hnone] at hcold
    cases hcold

/-- There is one root. -/
theorem eq_root_of_kind (hmem : f ∈ c.functions.toList) (hkind : f.kind = .root) : f = c.functions.root := by
  obtain rfl | hmem := List.mem_cons.1 hmem
  · rfl
  · obtain ⟨hfunclet, -⟩ := c.functions.funclets_hot f hmem
    simp [UnitFunction.isFunclet, Kind.isFunclet, hkind] at hfunclet

/-- A function with cold code is one that may be split. -/
theorem maySplit_of_cold (hmem : f ∈ c.functions.toList) (hcold : f.cold.isSome) : f.maySplit = true := by
  rw [eq_root_of_cold hmem hcold, UnitFunction.maySplit, c.functions.root_kind]
  rfl

/-- Records may be dealt with exactly while no function is inside a bracket. -/
theorem requireClosed_eq_ok_iff : c.requireClosed = .ok () ↔ ∀ t ∈ c.trackers, t.phase.isBracket = false := by
  simp only [requireClosed, Tracker.isBracket_phase, Bool.or_eq_false_iff]
  split
  next hprolog =>
    obtain ⟨t, ht, hopen⟩ := List.any_eq_true.1 hprolog
    simp only [reduceCtorEq, false_iff, not_forall]
    exact ⟨t, ht, by simp [hopen]⟩
  next hprolog =>
    split
    next hepilog =>
      obtain ⟨t, ht, hopen⟩ := List.any_eq_true.1 hepilog
      simp only [reduceCtorEq, false_iff, not_forall]
      exact ⟨t, ht, by simp [hopen]⟩
    next hepilog =>
      simp only [Bool.not_eq_true, List.any_eq_false] at hprolog hepilog
      simp only [true_iff]
      exact fun t ht => ⟨hprolog t ht, hepilog t ht⟩

/-- A layout fits if it has a cold base exactly for a unit with cold code, and no more hot code than code. -/
theorem requireLayout_eq_ok_iff {layout : UnitLayout} :
    c.requireLayout layout = .ok () ↔
      layout.coldBase.isSome = c.functions.hasColdRegion ∧ layout.hotSize ≤ layout.totalSize := by
  unfold requireLayout
  split
  next hne => simp_all
  next heq =>
    split
    next hlt => simp [UInt32.not_le.2 hlt]
    next hnot => simp_all [UInt32.not_lt]

/-- The records of a function: two exactly for a function with cold code, unless the unit is reported in one
    piece. -/
def planOf (c : Context) (f : UnitFunction) : RegionPlan :=
  if f.cold.isSome then if c.settings.fakeSplitting then .fakeSplit else .hotAndCold else .hotOnly

/-- Every function of a unit has a plan. -/
theorem plan_of_mem (hmem : f ∈ c.functions.toList) : c.plan f c.functions.hasColdRegion = .ok (c.planOf f) := by
  obtain rfl | hfunclet := List.mem_cons.1 hmem
  · have hroot : c.functions.root.maySplit = true := by
      simp [UnitFunction.maySplit, c.functions.root_kind]
    cases hcold : c.functions.root.cold with
    | none => simp [plan, planOf, hcold, FunctionSet.hasColdRegion]
    | some span =>
      cases hfake : c.settings.fakeSplitting <;>
        simp [plan, planOf, hroot, hcold, hfake, FunctionSet.hasColdRegion, Settings.fakeSplittingActive]
  · obtain ⟨hkind, hcold⟩ := c.functions.funclets_hot f hfunclet
    have hwhole : f.maySplit = false := by
      cases hf : f.kind <;> simp_all [UnitFunction.maySplit, UnitFunction.isFunclet, Kind.isFunclet]
    simp [plan, planOf, hcold, hwhole]

end Context

end StackUnwind
