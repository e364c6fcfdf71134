import StackUnwind.AssembledUnit
import StackUnwind.Proofs.Outcome

namespace StackUnwind

/-- The offset of a label in finished code, if it was placed. -/
def AssembledCode.offset? (a : AssembledCode) (label : Nat) : Option UInt32 := a.labelOffsets[label]?.join

namespace Encoder

variable {e e' : Encoder} {label : Nat} {u : Unit} {err : EncodeError}

/-- The offset of a label, if it has been placed. -/
def offset? (e : Encoder) (label : Nat) : Option Nat := e.labels[label]?.join

/-- A label is placed at the end of the code, or everything stays as it is. -/
theorem place_eq (label : Nat) (e : Encoder) :
    place label e = match e.labels[label]? with
      | none => .error (.unknownLabel label) e
      | some (some _) => .error .labelPlacedTwice e
      | some none => .ok () { e with labels := e.labels.setIfInBounds label (some e.code.size) } := by
  rw [place, run_get_bind]
  cases e.labels[label]? with
  | none => rfl
  | some offset => cases offset <;> rfl

/-- A label can be placed once it exists and as long as it has not been placed. -/
theorem place_eq_ok_iff :
    place label e = .ok u e' ↔ e.labels[label]? = some none ∧
      e' = { e with labels := e.labels.setIfInBounds label (some e.code.size) } := by
  rw [place_eq]
  split <;> simp [*, eq_comm]

/-- A label that cannot be placed leaves the encoder as it is. -/
theorem place_eq_error_iff :
    place label e = .error err e' ↔ e' = e ∧
      (e.labels[label]? = none ∧ err = .unknownLabel label ∨
        (∃ offset, e.labels[label]? = some (some offset)) ∧ err = .labelPlacedTwice) := by
  rw [place_eq]
  split <;> simp [*, eq_comm, and_comm]

@[simp] theorem offset?_newLabel (e : Encoder) (n : Nat) : e.newLabel.2.offset? n = e.offset? n := by
  simp only [offset?, newLabel, Array.getElem?_push]
  split
  next h => simp [h]
  next => rfl

/-- Placing a label gives it the offset of the end of the code, and it had none before. -/
theorem offset?_place (h : place label e = .ok u e') (n : Nat) :
    e'.offset? n = if n = label then some e.code.size else e.offset? n := by
  obtain ⟨hnone, rfl⟩ := place_eq_ok_iff.1 h
  obtain ⟨hlt, -⟩ := Array.getElem?_eq_some_iff.1 hnone
  simp only [offset?, Array.getElem?_setIfInBounds, eq_comm (a := label)]
  by_cases heq : n = label
  · simp [heq, hlt]
  · simp [heq]

/-- A label that can be placed has no offset. -/
theorem offset?_of_place (h : place label e = .ok u e') : e.offset? label = none := by
  obtain ⟨hnone, -⟩ := place_eq_ok_iff.1 h
  rw [offset?, hnone, Option.join_some]

/-- Placing a label does not change the code. -/
theorem code_of_place (h : place label e = .ok u e') : e'.code = e.code := by
  obtain ⟨-, rfl⟩ := place_eq_ok_iff.1 h
  rfl

private theorem offsetWord_eq_ok_iff {offset : Nat} {w : UInt32} : offsetWord offset = .ok w ↔ offset = w.toNat := by
  unfold offsetWord
  split
  next h =>
    rw [Except.ok.injEq, ← UInt32.toNat_inj, UInt32.toNat_ofNat_of_lt' h]
  next h =>
    simp only [reduceCtorEq, false_iff]
    rintro rfl
    exact h w.toNat_lt

private theorem mapM_offsetWord_eq_ok_iff {offset : Option Nat} {w : Option UInt32} :
    offset.mapM offsetWord = .ok w ↔ offset = w.map UInt32.toNat := by
  cases offset with
  | none =>
    rw [Option.mapM_none, pure_eq_ok_iff]
    cases w <;> simp
  | some offset =>
    rw [Option.mapM_some, map_eq_ok_iff]
    simp only [offsetWord_eq_ok_iff]
    cases w <;> simp

private theorem labelOffsets_eq_ok_iff {offsets : Array (Option UInt32)} :
    e.labelOffsets = .ok offsets ↔ e.labels.toList = offsets.toList.map (·.map UInt32.toNat) := by
  have hforall (labels : List (Option Nat)) (offsets : List (Option UInt32)) :
      List.Forall₂ (fun label offset => label = offset.map UInt32.toNat) labels offsets ↔
        labels = offsets.map (·.map UInt32.toNat) := by
    rw [← List.forall₂_map_right_iff (f := fun offset : Option UInt32 => offset.map UInt32.toNat),
      List.forall₂_eq_eq_eq]
  simp only [labelOffsets, Array.mapM_eq_mapM_toList, map_eq_ok_iff, mapM_eq_ok_iff, mapM_offsetWord_eq_ok_iff,
    hforall]
  constructor
  · rintro ⟨offsets, hoffsets, rfl⟩
    exact hoffsets
  · intro hoffsets
    exact ⟨_, hoffsets, rfl⟩

/-- Assembly leaves the encoder as it is, so that more may be appended. -/
theorem assemble_eq (e : Encoder) :
    assemble e = match e.labelOffsets with
      | .ok offsets => .ok ⟨e.code, offsets⟩ e
      | .error err => .error err e := by
  rw [assemble, run_get_bind]
  cases e.labelOffsets <;> rfl

/-- Assembly gives the code as it is and the offset of every label, which has to fit its word. -/
theorem assemble_eq_ok_iff {a : AssembledCode} :
    assemble e = .ok a e' ↔ a.code = e.code ∧ e.labels.toList = a.labelOffsets.toList.map (·.map UInt32.toNat) ∧
      e' = e := by
  obtain ⟨code, offsets⟩ := a
  rw [assemble_eq, ← labelOffsets_eq_ok_iff]
  cases e.labelOffsets <;> simp [eq_comm, and_assoc]

/-- Assembly keeps the offset of every label. -/
theorem offset?_of_assemble {a : AssembledCode} (h : assemble e = .ok a e') (n : Nat) :
    e.offset? n = (a.offset? n).map UInt32.toNat := by
  obtain ⟨-, hlabels, -⟩ := assemble_eq_ok_iff.1 h
  rw [AssembledCode.offset?, offset?, ← Array.getElem?_toList, hlabels, List.getElem?_map, Array.getElem?_toList]
  cases a.labelOffsets[n]? <;> simp

/-- Assembly succeeds as long as every offset fits its word. -/
theorem exists_assemble (h : ∀ n offset, e.offset? n = some offset → offset < 2 ^ 32) :
    ∃ a, assemble e = .ok a e := by
  refine ⟨⟨e.code, e.labels.map (·.map UInt32.ofNat)⟩, assemble_eq_ok_iff.2 ⟨rfl, ?_, rfl⟩⟩
  apply List.ext_getElem?
  intro n
  simp only [Array.toList_map, List.map_map, List.getElem?_map, Array.getElem?_toList]
  cases hlabel : e.labels[n]? with
  | none => rfl
  | some label =>
    cases label with
    | none => rfl
    | some offset =>
      have hlt := h n offset (by rw [offset?, hlabel, Option.join_some])
      simp only [Option.map_some, Function.comp_apply, UInt32.toNat_ofNat_of_lt' hlt]

end Encoder

namespace LocationTable

/-- A location has the number of its label, as long as that is a word. -/
theorem mk_ofNat_eq_iff {number : Nat} (h : number < 2 ^ 32) {location : Location} :
    (⟨.ofNat number⟩ : Location) = location ↔ number = location.id.toNat := by
  obtain ⟨id⟩ := location
  rw [Location.mk.injEq, ← UInt32.toNat_inj, UInt32.toNat_ofNat_of_lt' h]

/-- Where a location is in a table to which labels have been added, as long as there is a location for each
    label that has been placed. -/
theorem offset?_addLabels {table : LocationTable} {number : Nat} {labels : List (Option UInt32)} {location : Location}
    (hwrap : ∀ i, 2 ^ 32 ≤ number + i → labels[i]?.join = none) :
    (table.addLabels number labels).offset? location =
      (if number ≤ location.id.toNat then labels[location.id.toNat - number]?.join else none).or
        (table.offset? location) := by
  induction labels generalizing table number with
  | nil => simp [addLabels]
  | cons label labels ih =>
    have hrest (i : Nat) (hi : 2 ^ 32 ≤ number + 1 + i) : labels[i]?.join = none :=
      hwrap (i + 1) (by omega)
    have hpast (h : number + 1 ≤ location.id.toNat) :
        (label :: labels)[location.id.toNat - number]? = labels[location.id.toNat - (number + 1)]? := by
      rw [show location.id.toNat - number = location.id.toNat - (number + 1) + 1 by omega, List.getElem?_cons_succ]
    cases label with
    | none =>
      rw [addLabels, ih hrest]
      rcases Nat.lt_trichotomy number location.id.toNat with hlt | rfl | hgt
      · rw [if_pos (show number + 1 ≤ _ from hlt), if_pos (Nat.le_of_lt hlt), hpast hlt]
      · rw [if_neg (Nat.not_succ_le_self _)]
        simp
      · rw [if_neg (by omega), if_neg (by omega)]
    | some offset =>
      -- A label that has been placed has a number that is a word, so no later label takes its location.
      have hnumber : number < 2 ^ 32 := by
        refine Nat.lt_of_not_le fun hle => ?_
        have hnone := hwrap 0 hle
        simp at hnone
      rw [addLabels, ih hrest, offset?_insert]
      simp only [mk_ofNat_eq_iff hnumber]
      rcases Nat.lt_trichotomy number location.id.toNat with hlt | rfl | hgt
      · rw [if_neg (Nat.ne_of_lt hlt), if_pos (show number + 1 ≤ _ from hlt), if_pos (Nat.le_of_lt hlt), hpast hlt]
      · rw [if_neg (Nat.not_succ_le_self _)]
        simp
      · rw [if_neg (Nat.ne_of_gt hgt), if_neg (by omega), if_neg (by omega)]

end LocationTable

namespace UnitCode

/-- What is known of a finished unit. -/
structure Finished (unit : UnitCode) (done : AssembledUnit) : Prop where
  code : done.code = unit.encoder.code
  total : done.totalSize.toNat = unit.encoder.code.size
  split : done.isSplit = unit.coldStart.isSome
  hot : done.hotSize.toNat = (unit.coldStart.bind fun location => unit.encoder.offset? location.id.toNat).getD
    unit.encoder.code.size
  offset_lt : ∀ label offset, unit.encoder.offset? label = some offset → offset < 2 ^ 32
  locations : (∀ label, 2 ^ 32 ≤ label → unit.encoder.offset? label = none) → ∀ location,
    (done.locations.offset? location).map UInt32.toNat = unit.encoder.offset? location.id.toNat

/-- What a unit that has been finished consists of. -/
theorem finished_of_finish {unit : UnitCode} {done : AssembledUnit} (h : unit.finish = .ok done) :
    unit.Finished done := by
  simp only [finish, bind_eq_ok_iff, mapError_eq_ok_iff, verdict_eq_ok_iff, check_eq_ok_iff, pure_eq_ok_iff] at h
  obtain ⟨a, ⟨_, hassemble⟩, hsize, rfl⟩ := h
  obtain ⟨hcode, -, rfl⟩ := Encoder.assemble_eq_ok_iff.1 hassemble
  have hoffset := Encoder.offset?_of_assemble hassemble
  have htotal : (UInt32.ofNat a.code.size).toNat = unit.encoder.code.size := by
    rw [UInt32.toNat_ofNat_of_lt' (Nat.lt_of_not_le hsize), hcode]
  refine ⟨hcode, htotal, rfl, ?_, ?_, ?_⟩
  · cases hcold : unit.coldStart with
    | none => exact htotal
    | some location =>
      rw [Option.bind_some, hoffset]
      change ((a.offset? location.id.toNat).getD (.ofNat a.code.size)).toNat = _
      cases a.offset? location.id.toNat with
      | none => exact htotal
      | some offset => rfl
  · intro label offset hlabel
    rw [hoffset, Option.map_eq_some_iff] at hlabel
    obtain ⟨w, -, rfl⟩ := hlabel
    exact w.toNat_lt
  · intro hwrap location
    rw [LocationTable.offset?_addLabels fun i hi => ?_]
    · rw [if_pos (Nat.zero_le _), Nat.sub_zero, LocationTable.offset?_empty, Option.or_none, hoffset,
        Array.getElem?_toList, AssembledCode.offset?]
    · have hnone := hwrap i (by omega)
      rwa [hoffset, Option.map_eq_none_iff, AssembledCode.offset?, ← Array.getElem?_toList] at hnone

/-- All code of a unit that is not split is hot. -/
theorem Finished.hotSize_eq_totalSize {unit : UnitCode} {done : AssembledUnit} (h : unit.Finished done)
    (hnot : done.isSplit = false) : done.hotSize = done.totalSize := by
  rw [h.split, Option.isSome_eq_false_iff, Option.isNone_iff_eq_none] at hnot
  rw [← UInt32.toNat_inj, h.hot, h.total, hnot]
  rfl

end UnitCode

end StackUnwind
