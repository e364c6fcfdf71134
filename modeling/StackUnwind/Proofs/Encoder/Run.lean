import StackUnwind.Proofs.Encoder.Append
import StackUnwind.Proofs.Encoder.Labels
import StackUnwind.Proofs.Instruction.Operands

namespace StackUnwind

namespace Encoder

/-- A call on an encoder. -/
inductive Call where
  | newLabel
  | place (label : Nat)
  | emit (draft : Draft)
  | assemble
  deriving DecidableEq, Repr

/-- Make a call. -/
def apply : Call → EncoderM Unit
  | .newLabel => modify fun e => e.newLabel.2
  | .place label => place label
  | .emit draft => emit draft
  | .assemble => do let _ ← assemble

/-- The encoder after a call, however it ends. -/
def after (e : Encoder) (call : Call) : Encoder := endState (apply call e)

/-- The encoder after a run of calls, failing ones among them. -/
def run (calls : List Call) : Encoder := calls.foldl after {}

private theorem run_concat (calls : List Call) (call : Call) : run (calls ++ [call]) = (run calls).after call := by
  rw [run, List.foldl_append]
  rfl

/-- The machine code a call asks for, which is none if an operand has a fault. -/
def Call.bytes : Call → List UInt8
  | .emit draft => match draft.check with
    | .ok i => i.bytes
    | .error _ => []
  | .newLabel | .place _ | .assemble => []

/-- The machine code that a run of calls asks for. -/
def codeOf (calls : List Call) : List UInt8 := calls.flatMap Call.bytes

/-- The number of labels a run creates. -/
def labelCount (calls : List Call) : Nat := calls.count .newLabel

/-- Whether a run has placed a label: it asked for that when the label existed. -/
def Placed (calls : List Call) (label : Nat) : Prop :=
  ∃ before after, calls = before ++ .place label :: after ∧ label < labelCount before

/-- Where a run places a label: at the end of the code of the calls before the first one that asks for it when the
    label exists. -/
def PlacedAt (calls : List Call) (label offset : Nat) : Prop :=
  ∃ before after, calls = before ++ .place label :: after ∧ label < labelCount before ∧ ¬ Placed before label ∧
    offset = (codeOf before).length

/-- The calls that fail after a run, each with its error. -/
def Refused (calls : List Call) : Call → EncodeError → Prop
  | .place label, e => labelCount calls ≤ label ∧ e = .unknownLabel label ∨ Placed calls label ∧ e = .labelPlacedTwice
  | .emit draft, e => draft.fault? = some e
  | .newLabel, _ | .assemble, _ => False

section Calls

variable {calls : List Call} {call : Call} {label offset : Nat}

private theorem codeOf_concat : codeOf (calls ++ [call]) = codeOf calls ++ call.bytes := by
  simp [codeOf]

/-- More calls ask for more code. -/
theorem codeOf_append (more : List Call) : codeOf (calls ++ more) = codeOf calls ++ codeOf more :=
  List.flatMap_append

private theorem labelCount_concat :
    labelCount (calls ++ [call]) = labelCount calls + if call = .newLabel then 1 else 0 := by
  simp [labelCount, List.count_append, List.count_singleton]

/-- A list that ends in an element is cut before it or at a place inside the rest. -/
theorem concat_eq_append_cons_iff {α : Type} {as before after : List α} {a b : α} :
    as ++ [a] = before ++ b :: after ↔
      as = before ∧ a = b ∧ after = [] ∨ ∃ after', after = after' ++ [a] ∧ as = before ++ b :: after' := by
  induction after using List.reverseRecOn with
  | nil => simp [List.append_singleton_inj]
  | append_singleton after c _ =>
    rw [← List.cons_append, ← List.append_assoc, List.append_singleton_inj]
    constructor
    · rintro ⟨rfl, rfl⟩
      exact .inr ⟨after, rfl, rfl⟩
    · rintro (⟨-, -, hnil⟩ | ⟨after', hafter, rfl⟩)
      · simp at hnil
      · obtain ⟨rfl, rfl⟩ := List.append_singleton_inj.1 hafter
        exact ⟨rfl, rfl⟩

private theorem exists_place_concat_iff {P : List Call → Prop} :
    (∃ before after, calls ++ [call] = before ++ .place label :: after ∧ P before) ↔
      (∃ before after, calls = before ++ .place label :: after ∧ P before) ∨ call = .place label ∧ P calls := by
  constructor
  · rintro ⟨before, after, heq, hbefore⟩
    rcases concat_eq_append_cons_iff.1 heq with ⟨rfl, hcall, -⟩ | ⟨after', -, rfl⟩
    · exact .inr ⟨hcall, hbefore⟩
    · exact .inl ⟨before, after', rfl, hbefore⟩
  · rintro (⟨before, after, rfl, hbefore⟩ | ⟨rfl, hcalls⟩)
    · exact ⟨before, after ++ [call], by simp, hbefore⟩
    · exact ⟨calls, [], rfl, hcalls⟩

private theorem placed_concat_iff :
    Placed (calls ++ [call]) label ↔ Placed calls label ∨ call = .place label ∧ label < labelCount calls :=
  exists_place_concat_iff

private theorem placedAt_concat_iff :
    PlacedAt (calls ++ [call]) label offset ↔ PlacedAt calls label offset ∨
      call = .place label ∧ label < labelCount calls ∧ ¬ Placed calls label ∧ offset = (codeOf calls).length :=
  exists_place_concat_iff

/-- A label that has been placed has been placed somewhere. -/
theorem placed_iff_exists_placedAt : Placed calls label ↔ ∃ offset, PlacedAt calls label offset := by
  induction calls using List.reverseRecOn with
  | nil => simp [Placed, PlacedAt]
  | append_singleton calls call ih =>
    simp only [placed_concat_iff, placedAt_concat_iff, exists_or, ← ih]
    constructor
    · rintro (h | ⟨hcall, hlt⟩)
      · exact .inl h
      · by_cases h : Placed calls label
        · exact .inl h
        · exact .inr ⟨_, hcall, hlt, h, rfl⟩
    · rintro (h | ⟨_, hcall, hlt, -, -⟩)
      · exact .inl h
      · exact .inr ⟨hcall, hlt⟩

/-- No label is placed beyond the end of the code. -/
theorem PlacedAt.le (h : PlacedAt calls label offset) : offset ≤ (codeOf calls).length := by
  obtain ⟨before, after, rfl, -, -, rfl⟩ := h
  rw [codeOf_append, List.length_append]
  omega

/-- More calls do not move a label. -/
theorem PlacedAt.append (h : PlacedAt calls label offset) (more : List Call) :
    PlacedAt (calls ++ more) label offset := by
  obtain ⟨before, after, rfl, hat⟩ := h
  exact ⟨before, after ++ more, by simp, hat⟩

/-- A label that is placed later is not placed before the end of the code so far. -/
theorem PlacedAt.le_of_not_placed {more : List Call} (h : PlacedAt (calls ++ more) label offset)
    (hnot : ¬ Placed calls label) : (codeOf calls).length ≤ offset := by
  obtain ⟨before, after, heq, hlt, -, rfl⟩ := h
  rcases List.append_eq_append_iff.1 heq with ⟨between, rfl, -⟩ | ⟨between, rfl, hbetween⟩
  · rw [codeOf_append, List.length_append]
    omega
  · cases between with
    | nil => simp
    | cons call between =>
      obtain ⟨rfl, -⟩ := List.cons_eq_cons.1 hbetween
      exact absurd ⟨before, between, rfl, hlt⟩ hnot

end Calls

/-- An encoder that holds what a run of calls asks for. -/
structure Holds (e : Encoder) (calls : List Call) : Prop where
  code : e.code.toList = codeOf calls
  size : e.labels.size = labelCount calls
  offsets : ∀ label offset, e.offset? label = some offset ↔ PlacedAt calls label offset

section Holds

variable {e e' : Encoder} {calls : List Call} {label : Nat} {err : EncodeError}

/-- The code has the length of what was asked for. -/
theorem Holds.size_code (h : e.Holds calls) : e.code.size = (codeOf calls).length := by
  rw [← h.code, Array.length_toList]

/-- The labels with an offset are those that were placed. -/
theorem Holds.placed_iff (h : e.Holds calls) : Placed calls label ↔ e.offset? label ≠ none := by
  rw [placed_iff_exists_placedAt, Option.ne_none_iff_exists']
  simp only [h.offsets]

/-- A label is refused exactly for one of the reasons that the calls before give, and nothing changes. -/
theorem Holds.place_eq_error_iff (h : e.Holds calls) :
    Encoder.place label e = .error err e' ↔ Refused calls (.place label) err ∧ e' = e := by
  simp only [Encoder.place_eq_error_iff, Refused, h.placed_iff, ← h.size, offset?]
  cases hlabel : e.labels[label]? with
  | none =>
    have hle : e.labels.size ≤ label := Array.getElem?_eq_none_iff.1 hlabel
    simp [hle, and_comm]
  | some offset =>
    obtain ⟨hlt, -⟩ := Array.getElem?_eq_some_iff.1 hlabel
    cases offset <;> simp [Nat.not_le.2 hlt, and_comm]

private theorem Holds.exists_assemble (h : e.Holds calls) (hfit : (codeOf calls).length < 2 ^ 32) :
    ∃ a, Encoder.assemble e = .ok a e := by
  apply Encoder.exists_assemble
  intro label offset hoffset
  exact Nat.lt_of_le_of_lt ((h.offsets label offset).1 hoffset).le hfit

private theorem Holds.apply_eq_error_iff (h : e.Holds calls) (hfit : (codeOf calls).length < 2 ^ 32) {call : Call} :
    Encoder.apply call e = .error err e' ↔ Refused calls call err ∧ e' = e := by
  cases call with
  | newLabel => simp [apply, Refused, run_modify_eq_error_iff]
  | place label => exact h.place_eq_error_iff
  | emit draft => exact emit_eq_error_iff
  | assemble =>
    obtain ⟨a, ha⟩ := h.exists_assemble hfit
    have happly : apply .assemble e = .ok () e := run_bind_of_eq_ok ha
    simp [happly, Refused]

private theorem Holds.newLabel (h : e.Holds calls) : e.newLabel.2.Holds (calls ++ [.newLabel]) where
  code := by
    change e.code.toList = _
    simpa [codeOf_concat, Call.bytes] using h.code
  size := by simp [Encoder.newLabel, labelCount_concat, h.size]
  offsets label offset := by simpa [placedAt_concat_iff] using h.offsets label offset

private theorem Holds.place (h : e.Holds calls) (hplace : Encoder.place label e = .ok () e') :
    e'.Holds (calls ++ [.place label]) where
  code := by
    rw [code_of_place hplace, h.code]
    simp [codeOf_concat, Call.bytes]
  size := by
    obtain ⟨-, rfl⟩ := place_eq_ok_iff.1 hplace
    simp [labelCount_concat, h.size]
  offsets n offset := by
    have hnot : ¬ Placed calls label := by
      rw [h.placed_iff, not_not]
      exact offset?_of_place hplace
    obtain ⟨hlabel, -⟩ := place_eq_ok_iff.1 hplace
    obtain ⟨hlt, -⟩ := Array.getElem?_eq_some_iff.1 hlabel
    rw [offset?_place hplace, placedAt_concat_iff]
    by_cases heq : n = label
    · subst n
      have hnone : ¬ PlacedAt calls label offset := fun hat => hnot (placed_iff_exists_placedAt.2 ⟨_, hat⟩)
      simp [hnone, hnot, ← h.size, hlt, h.size_code, eq_comm]
    · simp [heq, Ne.symm heq, h.offsets]

private theorem Holds.append (h : e.Holds calls) {draft : Draft} {i : Instruction} (hcheck : draft.check = .ok i) :
    (e.append i).Holds (calls ++ [.emit draft]) where
  code := by
    simp only [Encoder.append, Array.toList_append, h.code, codeOf_concat, Call.bytes, hcheck]
  size := by simp [Encoder.append, labelCount_concat, h.size]
  offsets label offset := by
    change e.offset? label = _ ↔ _
    simpa [placedAt_concat_iff] using h.offsets label offset

/-- A call that asks for no code and for no label that there is not leaves what is held. -/
theorem Holds.idle (h : e.Holds calls) {call : Call} (hbytes : call.bytes = []) (hnew : call ≠ .newLabel)
    (hplace : ∀ label, call = .place label → label < labelCount calls → Placed calls label) :
    e.Holds (calls ++ [call]) where
  code := by rw [codeOf_concat, hbytes, List.append_nil, h.code]
  size := by rw [labelCount_concat, if_neg hnew, Nat.add_zero, h.size]
  offsets label offset := by
    rw [h.offsets, placedAt_concat_iff]
    refine (or_iff_left ?_).symm
    rintro ⟨hcall, hlt, hnot, -⟩
    exact hnot (hplace label hcall hlt)

private theorem after_assemble : e.after .assemble = e := by
  simp only [after, apply, bind, EStateM.bind, assemble_eq]
  cases e.labelOffsets <;> rfl

private theorem Holds.after (h : e.Holds calls) (call : Call) : (e.after call).Holds (calls ++ [call]) := by
  cases call with
  | newLabel => exact h.newLabel
  | place label =>
    rw [Encoder.after, apply]
    cases hplace : Encoder.place label e with
    | ok u e' => exact h.place hplace
    | error err e' =>
      obtain ⟨hrefused, rfl⟩ := h.place_eq_error_iff.1 hplace
      refine h.idle rfl (by simp) fun n heq hlt => ?_
      obtain rfl : label = n := by simpa using heq
      rcases hrefused with ⟨hle, -⟩ | ⟨hplaced, -⟩
      · exact absurd hlt (Nat.not_lt.2 hle)
      · exact hplaced
  | emit draft =>
    rw [Encoder.after, apply, emit_eq]
    cases hcheck : draft.check with
    | ok i => exact h.append hcheck
    | error err => exact h.idle (by rw [Call.bytes, hcheck]) (by simp) (by simp)
  | assemble =>
    rw [after_assemble]
    exact h.idle rfl (by simp) (by simp)

end Holds

/-- After any calls, failing ones among them, the encoder holds what was asked for. -/
theorem holds_run (calls : List Call) : (run calls).Holds calls := by
  induction calls using List.reverseRecOn with
  | nil => exact ⟨rfl, rfl, by simp [PlacedAt, run, offset?]⟩
  | append_singleton calls call ih =>
    rw [run_concat]
    exact ih.after call

end Encoder

namespace AssembledCode

variable {a a' : AssembledCode} {calls : List Encoder.Call}

/-- Machine code as a run of calls has asked for it: the bytes of its instructions, and of each label the place where
    it was put, if it was. -/
structure Of (a : AssembledCode) (calls : List Encoder.Call) : Prop where
  code : a.code.toList = Encoder.codeOf calls
  size : a.labelOffsets.size = Encoder.labelCount calls
  offset?_eq_some_iff : ∀ label w, a.offset? label = some w ↔ Encoder.PlacedAt calls label w.toNat
  offset_le : ∀ label w, a.offset? label = some w → w.toNat ≤ a.code.size

/-- Machine code to which a run has gone on: the code before it is kept, and so is each offset that was known. A label
    that is placed later is not placed before one that was. -/
structure Extends (a' a : AssembledCode) : Prop where
  code : a.code.toList <+: a'.code.toList
  offset?_eq_some : ∀ label w, a.offset? label = some w → a'.offset? label = some w
  ordered : ∀ label label' w w', a.offset? label = some w → a.offset? label' = none → a'.offset? label' = some w' →
    w ≤ w'

/-- What is assembled from an encoder is what it holds. -/
theorem of_assemble {e e' : Encoder} (h : e.Holds calls) (ha : Encoder.assemble e = .ok a e') : a.Of calls := by
  obtain ⟨hcode, hlabels, -⟩ := Encoder.assemble_eq_ok_iff.1 ha
  have hiff (label : Nat) (w : UInt32) : a.offset? label = some w ↔ Encoder.PlacedAt calls label w.toNat := by
    rw [← h.offsets, Encoder.offset?_of_assemble ha, Option.map_eq_some_iff]
    simp [UInt32.toNat_inj]
  refine ⟨by rw [hcode, h.code], ?_, hiff, fun label w hw => ?_⟩
  · rw [← h.size, ← Array.length_toList, ← Array.length_toList, hlabels, List.length_map]
  · rw [hcode, h.size_code]
    exact ((hiff label w).1 hw).le

private theorem Of.offset?_ne_none (h : a.Of calls) (hfit : (Encoder.codeOf calls).length < 2 ^ 32) {label : Nat}
    (hplaced : Encoder.Placed calls label) : a.offset? label ≠ none := by
  obtain ⟨offset, hat⟩ := Encoder.placed_iff_exists_placedAt.1 hplaced
  have hoffset : (UInt32.ofNat offset).toNat = offset :=
    UInt32.toNat_ofNat_of_lt' (Nat.lt_of_le_of_lt hat.le hfit)
  rw [(h.offset?_eq_some_iff label (.ofNat offset)).2 (hoffset.symm ▸ hat)]
  simp

private theorem Of.extends {more : List Encoder.Call} (ha : a.Of calls) (ha' : a'.Of (calls ++ more))
    (hfit : (Encoder.codeOf calls).length < 2 ^ 32) : a'.Extends a where
  code := by
    rw [ha.code, ha'.code, Encoder.codeOf_append]
    exact List.prefix_append _ _
  offset?_eq_some label w hw := by
    rw [ha'.offset?_eq_some_iff]
    exact ((ha.offset?_eq_some_iff label w).1 hw).append more
  ordered label label' w w' hw hnone hw' := by
    have hnot : ¬ Encoder.Placed calls label' := fun hplaced => ha.offset?_ne_none hfit hplaced hnone
    have hend := ((ha'.offset?_eq_some_iff label' w').1 hw').le_of_not_placed hnot
    have hle := ((ha.offset?_eq_some_iff label w).1 hw).le
    exact UInt32.le_iff_toNat_le.2 (Nat.le_trans hle hend)

end AssembledCode

namespace Encoder

/-- At every point of a run the machine code is what the calls so far have asked for, whatever calls have failed among
    them, and what follows only adds to it. A call that fails leaves the encoder as it was, and so does assembly. -/
theorem run_assembled (calls more : List Call) (hfit : (codeOf (calls ++ more)).length < 2 ^ 32) :
    (∃ a a', assemble (run calls) = .ok a (run calls) ∧
      assemble (run (calls ++ more)) = .ok a' (run (calls ++ more)) ∧ a.Of calls ∧ a'.Of (calls ++ more) ∧
      a'.Extends a) ∧
    (run calls).newLabel.1 = labelCount calls ∧
    (∀ call err e, apply call (run calls) = .error err e ↔ Refused calls call err ∧ e = run calls) ∧
    (∀ call err, Refused calls call err → run (calls ++ [call]) = run calls) ∧
    run (calls ++ [.assemble]) = run calls := by
  have hfit' : (codeOf calls).length < 2 ^ 32 := by
    rw [codeOf_append, List.length_append] at hfit
    omega
  have hholds := holds_run calls
  have hrefused (call : Call) (err : EncodeError) (e : Encoder) :
      apply call (run calls) = .error err e ↔ Refused calls call err ∧ e = run calls := hholds.apply_eq_error_iff hfit'
  obtain ⟨a, ha⟩ := hholds.exists_assemble hfit'
  obtain ⟨a', ha'⟩ := (holds_run (calls ++ more)).exists_assemble hfit
  have hof := AssembledCode.of_assemble hholds ha
  have hof' := AssembledCode.of_assemble (holds_run (calls ++ more)) ha'
  refine ⟨⟨a, a', ha, ha', hof, hof', hof.extends hof' hfit'⟩, hholds.size, hrefused, ?_, ?_⟩
  · intro call err h
    rw [run_concat, after, (hrefused call err _).2 ⟨h, rfl⟩]
    rfl
  · rw [run_concat]
    exact after_assemble

/-- Labels that share a position, one that is placed twice and one that is not placed, and calls that fail. -/
def sampleCalls : List Call :=
  [.newLabel, .newLabel, .newLabel, .place 0, .emit (.push (.gp 3)), .emit (.push (.xmm 3)), .place 1, .place 7]

/-- More calls after them. -/
def sampleRest : List Call :=
  [.assemble, .place 0, .newLabel, .place 2, .emit (.sub .rsp 0x80000000), .emit .ret]

theorem run_assembled_sampleCalls :
    (codeOf (sampleCalls ++ sampleRest)).length < 2 ^ 32 ∧
      ∃ a a', assemble (run sampleCalls) = .ok a (run sampleCalls) ∧
        assemble (run (sampleCalls ++ sampleRest)) = .ok a' (run (sampleCalls ++ sampleRest)) ∧
        a = ⟨#[0x53], #[some 0, some 1, none]⟩ ∧ a' = ⟨#[0x53, 0xC3], #[some 0, some 1, some 1, none]⟩ ∧
        a'.Extends a := by
  have hfit : (codeOf (sampleCalls ++ sampleRest)).length < 2 ^ 32 := by decide
  obtain ⟨⟨a, a', ha, ha', -, -, hextends⟩, -⟩ := run_assembled _ _ hfit
  have hbefore : assemble (run sampleCalls) = .ok ⟨#[0x53], #[some 0, some 1, none]⟩ (run sampleCalls) :=
    assemble_eq_ok_iff.2 (by decide)
  have hafter : assemble (run (sampleCalls ++ sampleRest)) =
      .ok ⟨#[0x53, 0xC3], #[some 0, some 1, some 1, none]⟩ (run (sampleCalls ++ sampleRest)) :=
    assemble_eq_ok_iff.2 (by decide +kernel)
  obtain ⟨rfl, -⟩ := EStateM.Result.ok.inj (hbefore.symm.trans ha)
  obtain ⟨rfl, -⟩ := EStateM.Result.ok.inj (hafter.symm.trans ha')
  exact ⟨hfit, _, _, ha, ha', rfl, rfl, hextends⟩

end Encoder

end StackUnwind
