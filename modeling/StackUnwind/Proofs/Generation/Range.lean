import StackUnwind.Proofs.Generation.Placement

namespace StackUnwind

/-- The number of bytes of code before a marker that was placed. An absent marker is at a boundary. -/
def offsetIn (log : List Placement) (marker : Option Location) (boundary : Nat) : Nat :=
  (marker.bind fun location => log.lookup location).getD boundary

/-- The range of a span in the code from `first` to `last`, counted from `first`. -/
def rangeIn (log : List Placement) (span : Span) (first last : Nat) : Range :=
  ⟨.ofNat (offsetIn log span.start first - first), .ofNat (offsetIn log span.stop last - first)⟩

/-- Whether those markers of a span that are present were placed, the start before the stop. -/
def Span.Within (span : Span) (log : List Placement) : Prop :=
  (span.start.toList ++ span.stop.toList).Sublist (log.map Prod.fst)

instance {span : Span} {log : List Placement} : Decidable (span.Within log) :=
  inferInstanceAs (Decidable (List.Sublist _ _))

section Log

variable {log : List Placement} {location : Location} {offset first last : Nat} {span : Span}

private theorem mem_of_lookup_eq_some (h : log.lookup location = some offset) : (location, offset) ∈ log := by
  obtain ⟨before, after, rfl, -⟩ := List.lookup_eq_some_iff.1 h
  simp

private theorem exists_lookup_eq_some (h : location ∈ log.map Prod.fst) :
    ∃ offset, log.lookup location = some offset := by
  obtain ⟨p, hp, rfl⟩ := List.mem_map.1 h
  refine Option.isSome_iff_exists.1 (List.lookup_isSome_iff.2 ⟨p, hp, ?_⟩)
  exact beq_self_eq_true p.1

private theorem Span.Within.mem_of_start (h : span.Within log) : ∀ l ∈ span.start, l ∈ log.map Prod.fst := by
  intro l hl
  exact h.subset (List.mem_append_left _ (Option.mem_toList.2 hl))

private theorem Span.Within.mem_of_stop (h : span.Within log) : ∀ l ∈ span.stop, l ∈ log.map Prod.fst := by
  intro l hl
  exact h.subset (List.mem_append_right _ (Option.mem_toList.2 hl))

private theorem offsetIn_bounds {boundary : Nat} (hlog : ∀ p ∈ log, first ≤ p.2 ∧ p.2 ≤ last)
    (hboundary : first ≤ boundary ∧ boundary ≤ last) (marker : Option Location) :
    first ≤ offsetIn log marker boundary ∧ offsetIn log marker boundary ≤ last := by
  unfold offsetIn
  cases hlookup : marker.bind fun location => log.lookup location with
  | none => exact hboundary
  | some offset =>
    obtain ⟨location, -, hfound⟩ := Option.bind_eq_some_iff.1 hlookup
    exact hlog _ (mem_of_lookup_eq_some hfound)

/-- A span does not end before it starts. -/
theorem offsetIn_start_le_stop (hunique : ∀ p ∈ log, log.lookup p.1 = some p.2)
    (hsorted : log.Pairwise fun p q => p.2 ≤ q.2) (hlog : ∀ p ∈ log, first ≤ p.2 ∧ p.2 ≤ last) (hle : first ≤ last)
    (hwithin : span.Within log) : offsetIn log span.start first ≤ offsetIn log span.stop last := by
  cases hstart : span.start with
  | none => exact (offsetIn_bounds hlog ⟨hle, Nat.le_refl _⟩ span.stop).1
  | some start =>
    cases hstop : span.stop with
    | none => exact (offsetIn_bounds hlog ⟨Nat.le_refl _, hle⟩ (some start)).2
    | some stop =>
      rw [Span.Within, hstart, hstop] at hwithin
      obtain ⟨placed, hsublist, hmarkers⟩ := List.sublist_map_iff.1 hwithin
      obtain ⟨p, q, rfl⟩ : ∃ p q, placed = [p, q] := by
        have hlength := congrArg List.length hmarkers
        rw [List.length_map] at hlength
        exact List.length_eq_two.1 hlength.symm
      have hp := hunique p (hsublist.subset (.head _))
      have hq := hunique q (hsublist.subset (.tail _ (.head _)))
      have hordered := List.rel_of_pairwise_cons (hsorted.sublist hsublist) (.head _)
      obtain ⟨rfl, rfl⟩ : start = p.1 ∧ stop = q.1 := by simpa using hmarkers
      simpa only [offsetIn, Option.bind_some, hp, hq, Option.getD_some] using hordered

end Log

namespace Placements

variable {unit : UnitCode} {done : AssembledUnit} {hot cold log : List Placement} {span : Span}

private theorem lookup_of_mem (h : Placements unit hot cold) (hlog : ∀ p ∈ log, p ∈ hot ++ cold) (p : Placement)
    (hp : p ∈ log) : log.lookup p.1 = some p.2 := by
  obtain ⟨offset, hlookup⟩ := exists_lookup_eq_some (List.mem_map_of_mem hp)
  have hfirst := h.offset _ (hlog _ (mem_of_lookup_eq_some hlookup))
  rw [h.offset p (hlog p hp)] at hfirst
  rw [hlookup, hfirst]

/-- The oracle of a finished unit knows where a marker was placed. -/
theorem resolve_eq_ok (h : Placements unit hot cold) (hfinished : unit.Finished done)
    (hlog : ∀ p ∈ log, p ∈ hot ++ cold) {marker : Option Location} (hmarker : ∀ l ∈ marker, l ∈ log.map Prod.fst)
    (boundary : UInt32) :
    ∃ w, Oracle.resolve done.locations.offset? marker boundary = .ok w ∧
      w.toNat = offsetIn log marker boundary.toNat := by
  cases marker with
  | none => exact ⟨boundary, rfl, rfl⟩
  | some location =>
    obtain ⟨offset, hlookup⟩ := exists_lookup_eq_some (hmarker location rfl)
    have hlocation := hfinished.locations h.wrap location
    rw [h.offset _ (hlog _ (mem_of_lookup_eq_some hlookup)), Option.map_eq_some_iff] at hlocation
    obtain ⟨w, hw, hoffset⟩ := hlocation
    refine ⟨w, ?_, ?_⟩
    · rw [Oracle.resolve, hw]
    · rw [offsetIn, Option.bind_some, hlookup, Option.getD_some, hoffset]

private theorem hotSize_of_cold_nil (h : Placements unit hot []) (hfinished : unit.Finished done) :
    done.hotSize.toNat = unit.encoder.code.size := by
  rw [hfinished.hot, h.coldStart]
  rfl

private theorem hotSize_of_cold_cons {p : Placement} (h : Placements unit hot (p :: cold))
    (hfinished : unit.Finished done) :
    done.hotSize.toNat = p.2 := by
  have hoffset := h.offset p (List.mem_append_right _ (.head _))
  rw [hfinished.hot, h.coldStart, List.head?_cons, Option.map_some, Option.bind_some, hoffset, Option.getD_some]

/-- There is no more hot code than code. -/
theorem hotSize_le (h : Placements unit hot cold) (hfinished : unit.Finished done) :
    done.hotSize.toNat ≤ done.totalSize.toNat := by
  rw [hfinished.total]
  cases cold with
  | nil => exact Nat.le_of_eq (h.hotSize_of_cold_nil hfinished)
  | cons p cold =>
    rw [h.hotSize_of_cold_cons hfinished]
    exact h.le_size p (List.mem_append_right _ (.head _))

private theorem hot_bounds (h : Placements unit hot cold) (hfinished : unit.Finished done) (p : Placement)
    (hp : p ∈ hot) :
    0 ≤ p.2 ∧ p.2 ≤ done.hotSize.toNat := by
  refine ⟨Nat.zero_le _, ?_⟩
  cases cold with
  | nil =>
    rw [h.hotSize_of_cold_nil hfinished]
    exact h.le_size p (List.mem_append_left _ hp)
  | cons q cold =>
    rw [h.hotSize_of_cold_cons hfinished]
    exact h.boundary p hp q (.head _)

private theorem cold_bounds (h : Placements unit hot cold) (hfinished : unit.Finished done) (p : Placement)
    (hp : p ∈ cold) :
    done.hotSize.toNat ≤ p.2 ∧ p.2 ≤ done.totalSize.toNat := by
  rw [hfinished.total]
  refine ⟨?_, h.le_size p (List.mem_append_right _ hp)⟩
  cases cold with
  | nil => cases hp
  | cons q cold =>
    rw [h.hotSize_of_cold_cons hfinished]
    obtain ⟨hhead, -⟩ := List.pairwise_cons.1 h.cold_sorted
    rcases List.mem_cons.1 hp with rfl | hp
    · exact Nat.le_refl _
    · exact hhead p hp

private theorem ofNat_eq_of_toNat_eq {w : UInt32} {n : Nat} (h : w.toNat = n) : UInt32.ofNat n = w := by
  rw [← h, UInt32.ofNat_toNat]

/-- A span of hot code has the range between its markers. -/
theorem hotRange_eq_ok (h : Placements unit hot cold) (hfinished : unit.Finished done) {layout : UnitLayout}
    (hhot : layout.hotSize = done.hotSize) (hwithin : span.Within hot) :
    layout.hotRange done.locations.offset? span = .ok (rangeIn hot span 0 done.hotSize.toNat) := by
  have hlog (p : Placement) (hp : p ∈ hot) : p ∈ hot ++ cold := List.mem_append_left _ hp
  obtain ⟨start, hstart, hfirst⟩ := h.resolve_eq_ok hfinished hlog hwithin.mem_of_start 0
  rw [UInt32.toNat_zero] at hfirst
  obtain ⟨stop, hstop, hlast⟩ := h.resolve_eq_ok hfinished hlog hwithin.mem_of_stop done.hotSize
  have hordered := offsetIn_start_le_stop (h.lookup_of_mem hlog) h.hot_sorted (h.hot_bounds hfinished)
    (Nat.zero_le _) hwithin
  have hbound := offsetIn_bounds (h.hot_bounds hfinished) ⟨Nat.zero_le _, Nat.le_refl _⟩ span.stop
  simp only [UnitLayout.hotRange, bind_eq_ok_iff, check_eq_ok_iff, liftM_error_eq_ok_iff, liftM_fault_eq_ok_iff, hhot]
  refine ⟨start, hstart, stop, hstop, ?_, ?_⟩
  · rw [UInt32.not_lt, UInt32.le_iff_toNat_le, hlast]
    exact hbound.2
  · have hle : start ≤ stop := by
      rw [UInt32.le_iff_toNat_le, hfirst, hlast]
      exact hordered
    rw [Range.ofBounds, if_pos hle, rangeIn, Nat.sub_zero, Nat.sub_zero, ofNat_eq_of_toNat_eq hlast,
      ofNat_eq_of_toNat_eq hfirst]

/-- A span of cold code has the range between its markers, counted from the start of the cold code. -/
theorem coldRange_eq_ok (h : Placements unit hot cold) (hfinished : unit.Finished done) {layout : UnitLayout}
    (hhot : layout.hotSize = done.hotSize) (htotal : layout.totalSize = done.totalSize) (hwithin : span.Within cold) :
    layout.coldRange done.locations.offset? span =
      .ok (rangeIn cold span done.hotSize.toNat done.totalSize.toNat) := by
  have hlog (p : Placement) (hp : p ∈ cold) : p ∈ hot ++ cold := List.mem_append_right _ hp
  obtain ⟨start, hstart, hfirst⟩ := h.resolve_eq_ok hfinished hlog hwithin.mem_of_start done.hotSize
  obtain ⟨stop, hstop, hlast⟩ := h.resolve_eq_ok hfinished hlog hwithin.mem_of_stop done.totalSize
  have hsize := h.hotSize_le hfinished
  have hordered := offsetIn_start_le_stop (h.lookup_of_mem hlog) h.cold_sorted (h.cold_bounds hfinished) hsize hwithin
  have hbound := offsetIn_bounds (h.cold_bounds hfinished) ⟨Nat.le_refl _, hsize⟩ span.start
  simp only [UnitLayout.coldRange, bind_eq_ok_iff, check_eq_ok_iff, liftM_error_eq_ok_iff, liftM_fault_eq_ok_iff,
    hhot, htotal]
  refine ⟨start, hstart, stop, hstop, ?_, ?_⟩
  · rw [UInt32.not_lt, UInt32.le_iff_toNat_le, hfirst]
    exact hbound.1
  · have hle : monus32 start done.hotSize ≤ monus32 stop done.hotSize := by
      rw [UInt32.le_iff_toNat_le, toNat_monus32, toNat_monus32, hfirst, hlast]
      exact Nat.sub_le_sub_right hordered _
    rw [Range.ofBounds, if_pos hle, rangeIn, monus32, monus32, hfirst, hlast]

end Placements

end StackUnwind
