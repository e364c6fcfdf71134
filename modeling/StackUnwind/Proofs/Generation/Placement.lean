import StackUnwind.Proofs.Encoder.Append
import StackUnwind.Proofs.Encoder.Labels

namespace StackUnwind

private theorem Encoder.offset?_appendAll (e : Encoder) (is : List Instruction) (label : Nat) :
    (e.appendAll is).offset? label = e.offset? label := by
  rw [offset?, labels_appendAll, offset?]

namespace UnitCode

variable {unit unit' : UnitCode} {location : Location} {u : Unit} {e : CodegenError}

/-- Placing a location places its label. -/
theorem place_eq (location : Location) (unit : UnitCode) :
    place location unit = match Encoder.place location.id.toNat unit.encoder with
      | .ok _ encoder => .ok () { unit with encoder }
      | .error cause _ => .error (.encode cause) unit := by
  rw [place, onEncoder, onPart]
  cases hplace : Encoder.place location.id.toNat unit.encoder with
  | ok u encoder => rfl
  | error cause encoder =>
    obtain ⟨rfl, -⟩ := Encoder.place_eq_error_iff.1 hplace
    rfl

/-- A location can be placed exactly if its label can be. -/
theorem place_eq_ok_iff :
    place location unit = .ok u unit' ↔
      ∃ encoder, Encoder.place location.id.toNat unit.encoder = .ok u encoder ∧ unit' = { unit with encoder } := by
  rw [place_eq]
  cases Encoder.place location.id.toNat unit.encoder <;> simp [eq_comm]

/-- A location that cannot be placed leaves the code as it is. -/
theorem state_of_place_eq_error (h : place location unit = .error e unit') : unit' = unit := by
  rw [place_eq] at h
  split at h <;> cases h
  rfl

/-- Placing a location does not change the code. -/
theorem code_of_place (h : place location unit = .ok u unit') : unit'.encoder.code = unit.encoder.code := by
  obtain ⟨encoder, hencoder, rfl⟩ := place_eq_ok_iff.1 h
  exact Encoder.code_of_place hencoder

/-- A new location is placed at once. If that fails, the location stays. -/
theorem here_eq (unit : UnitCode) :
    here unit = match place unit.newLocation.1 unit.newLocation.2 with
      | .ok _ placed => .ok unit.newLocation.1 placed
      | .error e unit' => .error e unit' := by
  rw [here, run_modifyGet_bind, run_bind_pure]
  cases place unit.newLocation.1 unit.newLocation.2 <;> rfl

/-- The cold section begins once its start has been placed. -/
theorem beginColdAt_eq (location : Location) (unit : UnitCode) :
    beginColdAt location unit =
      if unit.inColdSection then .error .coldSectionStarted unit
      else match place location unit with
        | .ok _ placed => .ok () { placed with coldStart := some location }
        | .error e unit' => .error e unit' := by
  rw [beginColdAt, run_get_bind]
  split
  · rfl
  · change EStateM.bind (place location) _ unit = _
    rw [EStateM.bind]
    cases place location unit <;> rfl

/-- The cold section begins at a new location, which stays if that fails. -/
theorem beginCold_eq (unit : UnitCode) :
    beginCold unit = match beginColdAt unit.newLocation.1 unit.newLocation.2 with
      | .ok _ begun => .ok unit.newLocation.1 begun
      | .error e unit' => .error e unit' := by
  rw [beginCold, run_modifyGet_bind, run_bind_pure]
  cases beginColdAt unit.newLocation.1 unit.newLocation.2 <;> rfl

/-- The cold section begins once, at a location that can be placed. -/
theorem beginColdAt_eq_ok_iff :
    beginColdAt location unit = .ok u unit' ↔ unit.coldStart = none ∧
      ∃ placed, place location unit = .ok u placed ∧ unit' = { placed with coldStart := some location } := by
  rw [beginColdAt_eq, inColdSection, ← Option.not_isSome_iff_eq_none]
  split
  next hcold => simp [hcold]
  next hhot => cases place location unit <;> simp [hhot, eq_comm]

/-- A cold section that cannot begin leaves the code as it is. -/
theorem state_of_beginColdAt_eq_error (h : beginColdAt location unit = .error e unit') : unit' = unit := by
  rw [beginColdAt_eq] at h
  split at h
  next =>
    cases h
    rfl
  next =>
    split at h <;> cases h
    next hplace => exact state_of_place_eq_error hplace

end UnitCode

/-- A location that has been placed, with the number of bytes of code before it. -/
abbrev Placement := Location × Nat

/-- The places that were marked while the code of a unit was written, in order. The start of the cold
    section closes the hot placements and opens the cold ones. -/
structure Placements (unit : UnitCode) (hot cold : List Placement) : Prop where
  offset : ∀ p ∈ hot ++ cold, unit.encoder.offset? p.1.id.toNat = some p.2
  wrap : ∀ label, 2 ^ 32 ≤ label → unit.encoder.offset? label = none
  hot_sorted : hot.Pairwise fun p q => p.2 ≤ q.2
  cold_sorted : cold.Pairwise fun p q => p.2 ≤ q.2
  le_size : ∀ p ∈ hot ++ cold, p.2 ≤ unit.encoder.code.size
  boundary : ∀ p ∈ hot, ∀ q ∈ cold, p.2 ≤ q.2
  coldStart : unit.coldStart = cold.head?.map Prod.fst

namespace Placements

variable {unit unit' : UnitCode} {hot cold : List Placement}

/-- Nothing is placed in an empty unit. -/
theorem empty : Placements {} [] [] :=
  ⟨by simp, by simp [Encoder.offset?], .nil, .nil, by simp, by simp, rfl⟩

/-- More code changes no placement. -/
theorem extend (h : Placements unit hot cold)
    (hoffset : ∀ label, unit'.encoder.offset? label = unit.encoder.offset? label)
    (hsize : unit.encoder.code.size ≤ unit'.encoder.code.size) (hcold : unit'.coldStart = unit.coldStart) :
    Placements unit' hot cold := by
  refine ⟨fun p hp => ?_, fun label hlabel => ?_, h.hot_sorted, h.cold_sorted, fun p hp => ?_, h.boundary, ?_⟩
  · rw [hoffset]
    exact h.offset p hp
  · rw [hoffset]
    exact h.wrap label hlabel
  · exact Nat.le_trans (h.le_size p hp) hsize
  · rw [hcold]
    exact h.coldStart

/-- Instructions change no placement. -/
theorem appendAll (h : Placements unit hot cold) (is : List Instruction) :
    Placements { unit with encoder := unit.encoder.appendAll is } hot cold := by
  refine h.extend (unit.encoder.offset?_appendAll is) ?_ rfl
  rw [Encoder.size_code_appendAll]
  exact Nat.le_add_right _ _

private theorem pairwise_concat {log : List Placement} {location : Location} {offset : Nat}
    (hsorted : log.Pairwise fun p q => p.2 ≤ q.2) (hle : ∀ p ∈ log, p.2 ≤ offset) :
    (log ++ [(location, offset)]).Pairwise fun p q => p.2 ≤ q.2 := by
  rw [List.pairwise_append]
  refine ⟨hsorted, List.pairwise_singleton _ _, fun p hp q hq => ?_⟩
  rw [List.mem_singleton.1 hq]
  exact hle p hp

/-- The offsets of all locations after one more has been placed. -/
theorem offset_of_place (h : Placements unit hot cold) {location : Location}
    (hplace : UnitCode.place location unit = .ok () unit') :
    (∀ p ∈ hot ++ cold, unit'.encoder.offset? p.1.id.toNat = some p.2) ∧
      unit'.encoder.offset? location.id.toNat = some unit.encoder.code.size ∧
      ∀ label, 2 ^ 32 ≤ label → unit'.encoder.offset? label = none := by
  obtain ⟨encoder, hencoder, rfl⟩ := UnitCode.place_eq_ok_iff.1 hplace
  have hnone := Encoder.offset?_of_place hencoder
  refine ⟨fun p hp => ?_, ?_, fun label hlabel => ?_⟩
  · have hsome := h.offset p hp
    have hne : p.1.id.toNat ≠ location.id.toNat := by
      intro heq
      rw [heq, hnone] at hsome
      cases hsome
    rw [Encoder.offset?_place hencoder, if_neg hne, hsome]
  · rw [Encoder.offset?_place hencoder, if_pos rfl]
  · have hne : label ≠ location.id.toNat := by
      have hlt := location.id.toNat_lt
      omega
    rw [Encoder.offset?_place hencoder, if_neg hne, h.wrap label hlabel]

/-- One more placement, at the end of the code. -/
theorem place (h : Placements unit hot cold) {location : Location}
    (hplace : UnitCode.place location unit = .ok () unit')
    {hot' cold' : List Placement} {coldStart : Option Location}
    (hmem : ∀ p ∈ hot' ++ cold', p ∈ hot ++ cold ∨ p = (location, unit.encoder.code.size))
    (hhot : hot'.Pairwise fun p q => p.2 ≤ q.2) (hcold : cold'.Pairwise fun p q => p.2 ≤ q.2)
    (hboundary : ∀ p ∈ hot', ∀ q ∈ cold', p.2 ≤ q.2) (hstart : coldStart = cold'.head?.map Prod.fst) :
    Placements { unit' with coldStart } hot' cold' := by
  obtain ⟨hold, hnew, hwrap⟩ := h.offset_of_place hplace
  refine ⟨fun p hp => ?_, hwrap, hhot, hcold, fun p hp => ?_, hboundary, hstart⟩
  · rcases hmem p hp with hp | rfl
    · exact hold p hp
    · exact hnew
  · change p.2 ≤ unit'.encoder.code.size
    rw [UnitCode.code_of_place hplace]
    rcases hmem p hp with hp | rfl
    · exact h.le_size p hp
    · exact Nat.le_refl _

/-- A location that is placed before the cold section begins. -/
theorem place_hot (h : Placements unit hot []) {location : Location}
    (hplace : UnitCode.place location unit = .ok () unit') :
    Placements unit' (hot ++ [(location, unit.encoder.code.size)]) [] := by
  have hstart : unit'.coldStart = none := by
    obtain ⟨encoder, -, rfl⟩ := UnitCode.place_eq_ok_iff.1 hplace
    exact h.coldStart
  refine h.place hplace (fun p hp => ?_) (pairwise_concat h.hot_sorted fun p hp => h.le_size p ?_) .nil ?_ hstart
  · simpa only [List.append_nil, List.mem_append, List.mem_singleton] using hp
  · exact List.mem_append_left _ hp
  · intro p _ q hq
    cases hq

/-- A location that is placed in the cold section. -/
theorem place_cold (h : Placements unit hot cold) (hne : cold ≠ []) {location : Location}
    (hplace : UnitCode.place location unit = .ok () unit') :
    Placements unit' hot (cold ++ [(location, unit.encoder.code.size)]) := by
  have hstart : unit'.coldStart = (cold ++ [(location, unit.encoder.code.size)]).head?.map Prod.fst := by
    obtain ⟨encoder, -, rfl⟩ := UnitCode.place_eq_ok_iff.1 hplace
    rw [List.head?_append_of_ne_nil _ hne]
    exact h.coldStart
  refine h.place hplace (fun p hp => ?_) h.hot_sorted (pairwise_concat h.cold_sorted fun p hp => h.le_size p ?_) ?_
    hstart
  · simpa only [List.mem_append, List.mem_singleton, or_assoc] using hp
  · exact List.mem_append_right _ hp
  · intro p hp q hq
    rcases List.mem_append.1 hq with hq | hq
    · exact h.boundary p hp q hq
    · rw [List.mem_singleton.1 hq]
      exact h.le_size p (List.mem_append_left _ hp)

/-- The location at which the cold section begins. -/
theorem begin_cold (h : Placements unit hot []) {location : Location}
    (hplace : UnitCode.place location unit = .ok () unit') :
    Placements { unit' with coldStart := some location } (hot ++ [(location, unit.encoder.code.size)])
      [(location, unit.encoder.code.size)] := by
  have hle (p : Placement) (hp : p ∈ hot) : p.2 ≤ unit.encoder.code.size := h.le_size p (List.mem_append_left _ hp)
  refine h.place hplace (fun p hp => ?_) (pairwise_concat h.hot_sorted hle) (List.pairwise_singleton _ _) ?_ rfl
  · simp only [List.mem_append, List.mem_singleton] at hp
    simp only [List.append_nil]
    tauto
  · intro p hp q hq
    rw [List.mem_singleton.1 hq]
    rcases List.mem_append.1 hp with hp | hp
    · exact hle p hp
    · exact Nat.le_of_eq (congrArg Prod.snd (List.mem_singleton.1 hp))

end Placements

end StackUnwind
