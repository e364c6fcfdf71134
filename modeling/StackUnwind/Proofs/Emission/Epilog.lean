import StackUnwind.Proofs.Emission.Prolog

namespace StackUnwind

namespace Emission

variable {ρ : Type} {x y z : Emission ρ} {u : Unit}

/-- Whether nothing but the instructions of drafts has been appended. -/
def Emits (drafts : List Draft) (x y : Emission ρ) : Prop :=
  ∃ is, List.Forall₂ (fun draft i => draft.check = .ok i) drafts is ∧
    y = { x with unit := { x.unit with encoder := x.unit.encoder.appendAll is } }

private theorem emits_of_forall₂ {drafts : List Draft} {is : List Instruction}
    (h : List.Forall₂ (fun draft i => draft.check = .ok i) drafts is) (x : Emission ρ) :
    Emits drafts x { x with unit := { x.unit with encoder := x.unit.encoder.appendAll is } } :=
  ⟨is, h, rfl⟩

private theorem emits_nil_iff : Emits [] x y ↔ y = x := by
  constructor
  · rintro ⟨is, his, rfl⟩
    cases his
    rfl
  · rintro rfl
    exact ⟨[], .nil, rfl⟩

private theorem emits_append_iff {drafts drafts' : List Draft} :
    Emits (drafts ++ drafts') x z ↔ ∃ y, Emits drafts x y ∧ Emits drafts' y z := by
  have happend (e : Encoder) (is is' : List Instruction) :
      e.appendAll (is ++ is') = (e.appendAll is).appendAll is' := List.foldl_append
  constructor
  · rintro ⟨is, his, rfl⟩
    obtain ⟨is, is', rfl, his, his'⟩ := forall₂_append_left_iff.1 his
    exact ⟨_, ⟨is, his, rfl⟩, is', his', by rw [happend]⟩
  · rintro ⟨_, ⟨is, his, rfl⟩, is', his', rfl⟩
    exact ⟨is ++ is', List.rel_append his his', by rw [happend]⟩

private theorem emit_eq_ok_iff_emits {draft : Draft} : emit draft x = .ok u y ↔ Emits [draft] x y := by
  rw [emit_eq_ok_iff]
  constructor
  · rintro ⟨i, hi, rfl⟩
    exact ⟨[i], .cons hi .nil, rfl⟩
  · rintro ⟨is, his, rfl⟩
    obtain ⟨i, _, hi, hnil, rfl⟩ := List.forall₂_cons_left_iff.1 his
    cases hnil
    exact ⟨i, hi, rfl⟩

private theorem forM_emit_eq_ok_iff {α : Type} {f : α → Draft} {as : List α} :
    (as.forM fun a => emit (f a) : EmissionM ρ Unit) x = .ok u y ↔ Emits (as.map f) x y := by
  induction as generalizing x with
  | nil => rw [List.forM_eq_forM, List.forM_nil, run_pure_eq_ok_iff, List.map_nil, emits_nil_iff, and_iff_right rfl]
  | cons a as ih =>
    rw [List.forM_eq_forM] at ih ⊢
    rw [List.forM_cons, List.map_cons, ← List.singleton_append, emits_append_iff]
    simp only [run_bind_eq_ok_iff, emit_eq_ok_iff_emits, ih, exists_const]

/-- An instruction that is left out on a condition, and what is done after it. -/
theorem emit_if_eq_ok_iff {c : Prop} [Decidable c] {draft : Draft} {rest : EmissionM ρ Unit} :
    (if c then (emit draft >>= fun _ => rest) else rest) x = .ok u y ↔
      ∃ z, Emits (if c then [draft] else []) x z ∧ rest z = .ok u y := by
  split
  · simp only [run_bind_eq_ok_iff, emit_eq_ok_iff_emits, exists_const]
  · simp only [emits_nil_iff, exists_eq_left]

/-- The loads of vector registers from slots that have been computed. -/
inductive XmmLoads (frame : FrameLayout) : Nat → List Register → List Draft → Prop where
  | nil {index : Nat} : XmmLoads frame index [] []
  | cons {index : Nat} {reg : Register} {regs : List Register} {offset : UInt32} {drafts : List Draft}
      (hslot : frame.xmmSlot index = .ok offset) (hrest : XmmLoads frame (index + 1) regs drafts) :
      XmmLoads frame index (reg :: regs) (.load reg .rsp offset :: drafts)

private theorem reloadXmm_eq_ok_iff {frame : FrameLayout} {index : Nat} {regs : List Register} :
    (reloadXmm frame index regs : EmissionM ρ Unit) x = .ok u y ↔
      ∃ loads, XmmLoads frame index regs loads ∧ Emits loads x y := by
  induction regs generalizing x index with
  | nil =>
    rw [reloadXmm, run_pure_eq_ok_iff, and_iff_right rfl, ← emits_nil_iff]
    constructor
    · intro h
      exact ⟨[], .nil, h⟩
    · rintro ⟨_, hloads, h⟩
      cases hloads
      exact h
  | cons reg regs ih =>
    simp only [reloadXmm, run_bind_eq_ok_iff, run_liftM_fault_eq_ok_iff, emit_eq_ok_iff_emits, ih]
    constructor
    · rintro ⟨offset, _, ⟨hslot, rfl⟩, _, z, hload, loads, hloads, hrest⟩
      exact ⟨_, .cons hslot hloads, emits_append_iff.2 ⟨z, hload, hrest⟩⟩
    · rintro ⟨_, hloads, h⟩
      obtain ⟨⟩ | ⟨hslot, hrest⟩ := hloads
      rw [← List.singleton_append, emits_append_iff] at h
      obtain ⟨z, hload, h⟩ := h
      exact ⟨_, x, ⟨hslot, rfl⟩, (), z, hload, _, hrest, h⟩

end Emission

/-- The instructions of an epilog as a code generator asks for them, given the loads of vector registers. -/
def FrameLayout.epilogDrafts (frame : FrameLayout) (loads : List Draft) : List Draft :=
  loads ++ (if frame.frameSize ≠ 0 then [.add .rsp frame.frameSize] else [])
    ++ frame.savedRegisters.reverse.map .pop ++ [.pop .rbp, .ret]

namespace Emission

variable {ρ : Type} [FrameRecorder ρ] {x y z : Emission ρ} {u : Unit}

/-- The end of an epilog, after the vector registers have been reloaded. -/
def takeDown (frame : FrameLayout) : EmissionM ρ Unit := do
  frame.savedRegisters.reverse.forM fun reg => emit (.pop reg)
  emit (.pop .rbp)
  emit .ret
  report .endEpilog

private theorem takeDown_eq_ok_iff {frame : FrameLayout} :
    takeDown frame x = .ok u y ↔ ∃ z recorder,
      Emits (frame.savedRegisters.reverse.map .pop ++ [.pop .rbp, .ret]) x z ∧
        FrameRecorder.record .endEpilog z.recorder = .ok () recorder ∧
        y = { z with recorder, log := z.log ++ FrameRecorder.messages z.recorder .endEpilog } := by
  have hlast : ([.pop .rbp, .ret] : List Draft) = [.pop .rbp] ++ [.ret] := rfl
  simp only [takeDown, run_bind_eq_ok_iff, report_eq_ok_iff, forM_emit_eq_ok_iff, emit_eq_ok_iff_emits, hlast,
    emits_append_iff]
  constructor
  · rintro ⟨_, x₁, hpops, _, x₂, hpop, _, z, hret, recorder, hrecord, rfl⟩
    exact ⟨z, recorder, ⟨x₁, hpops, x₂, hpop, hret⟩, hrecord, rfl⟩
  · rintro ⟨z, recorder, ⟨x₁, hpops, x₂, hpop, hret⟩, hrecord, rfl⟩
    exact ⟨(), x₁, hpops, (), x₂, hpop, (), z, hret, recorder, hrecord, rfl⟩

/-- The epilog of a given frame. -/
def epilogOf (frame : FrameLayout) : EmissionM ρ Unit := do
  report .beginEpilog
  reloadXmm frame 0 frame.savedXmm
  if frame.frameSize ≠ 0 then
    emit (.add .rsp frame.frameSize)
  takeDown frame

/-- An epilog is the program for its frame. -/
theorem epilog_eq (x : Emission ρ) : epilog x = epilogOf x.frame x := rfl

/-- An epilog appends its instructions and reports that it began and ended. -/
theorem epilog_eq_ok_iff :
    epilog x = .ok u y ↔ ∃ loads is opened closed, XmmLoads x.frame 0 x.frame.savedXmm loads ∧
      List.Forall₂ (fun draft i => draft.check = .ok i) (x.frame.epilogDrafts loads) is ∧
      FrameRecorder.record .beginEpilog x.recorder = .ok () opened ∧
      FrameRecorder.record .endEpilog opened = .ok () closed ∧
      y = { x with
        unit := { x.unit with encoder := x.unit.encoder.appendAll is }, recorder := closed
        log := x.log ++ FrameRecorder.messages x.recorder .beginEpilog
          ++ FrameRecorder.messages opened .endEpilog } := by
  rw [epilog_eq]
  simp only [epilogOf, run_bind_eq_ok_iff, report_eq_ok_iff, reloadXmm_eq_ok_iff, emit_if_eq_ok_iff, takeDown_eq_ok_iff]
  constructor
  · rintro ⟨_, _, ⟨opened, hopened, rfl⟩, _, x₂, ⟨loads, hloads, hreload⟩, x₃, hadd, x₄, closed, hpops, hclosed, rfl⟩
    have hemits := emits_append_iff.2 ⟨x₃, emits_append_iff.2 ⟨x₂, hreload, hadd⟩, hpops⟩
    rw [← List.append_assoc] at hemits
    obtain ⟨is, his, rfl⟩ := hemits
    exact ⟨loads, is, opened, closed, hloads, his, hopened, hclosed, rfl⟩
  · rintro ⟨loads, is, opened, closed, hloads, his, hopened, hclosed, rfl⟩
    have hemits := emits_of_forall₂ his
      { x with recorder := opened, log := x.log ++ FrameRecorder.messages x.recorder .beginEpilog }
    rw [FrameLayout.epilogDrafts, List.append_assoc, emits_append_iff] at hemits
    obtain ⟨x₃, hfirst, hpops⟩ := hemits
    obtain ⟨x₂, hreload, hadd⟩ := emits_append_iff.1 hfirst
    exact ⟨(), _, ⟨opened, hopened, rfl⟩, (), x₂, ⟨loads, hloads, hreload⟩, x₃, hadd, _, closed, hpops, hclosed, rfl⟩

/-- An epilog that succeeds has appended its instructions and reported its beginning and its end. -/
theorem epilog_run (h : epilog x = .ok u y) :
    ∃ loads is, XmmLoads x.frame 0 x.frame.savedXmm loads ∧
      List.Forall₂ (fun draft i => draft.check = .ok i) (x.frame.epilogDrafts loads) is ∧
      y.unit = { x.unit with encoder := x.unit.encoder.appendAll is } ∧ y.frame = x.frame ∧
      FrameRecorder.recordAll FrameEvent.ofEpilog x.recorder = .ok () y.recorder := by
  obtain ⟨loads, is, opened, closed, hloads, his, hopened, hclosed, rfl⟩ := epilog_eq_ok_iff.1 h
  refine ⟨loads, is, hloads, his, rfl, rfl, ?_⟩
  refine FrameRecorder.recordAll_cons_eq_ok_iff.2 ⟨opened, hopened, ?_⟩
  exact FrameRecorder.recordAll_cons_eq_ok_iff.2 ⟨closed, hclosed, rfl⟩

end Emission

end StackUnwind
