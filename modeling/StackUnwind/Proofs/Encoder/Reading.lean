import StackUnwind.Proofs.Encoder.Run
import StackUnwind.Proofs.Instruction.Reading

namespace StackUnwind

namespace Instruction

/-- The draft that stands for an instruction. -/
def draft : Instruction → Draft
  | push src => .push (.gp (.ofNat src.val))
  | pop dst => .pop (.gp (.ofNat dst.val))
  | mov dst src => .mov (.gp (.ofNat dst.val)) (.gp (.ofNat src.val))
  | sub dst imm => .sub (.gp (.ofNat dst.val)) (.ofNat imm.val)
  | add dst imm => .add (.gp (.ofNat dst.val)) (.ofNat imm.val)
  | lea dst src => .lea (.gp (.ofNat dst.val)) (.gp (.ofNat src.base.val)) (.ofNat src.disp.val)
  | store dst src => .store (.gp (.ofNat dst.base.val)) (.ofNat dst.disp.val) (.gp (.ofNat src.val))
  | load dst src => .load (.gp (.ofNat dst.val)) (.gp (.ofNat src.base.val)) (.ofNat src.disp.val)
  | storeXmm dst src => .store (.gp (.ofNat dst.base.val)) (.ofNat dst.disp.val) (.xmm (.ofNat src.val))
  | loadXmm dst src => .load (.xmm (.ofNat dst.val)) (.gp (.ofNat src.base.val)) (.ofNat src.disp.val)
  | ret => .ret
  | nop => .nop
  | int3 => .int3

end Instruction

namespace Draft

/-- Read the drafts that machine code was written for. -/
def readAll (code : List UInt8) : Option (List Draft) := (Instruction.readAll code).map (·.map Instruction.draft)

private theorem operandIn_eq_ok_iff_eq {bank : UInt8} {r : Register} {n : RegNumber} :
    operandIn bank r = .ok n ↔ r = ⟨bank, .ofNat n.val⟩ := by
  rw [operandIn_eq_ok_iff, Register.numberIn?_eq_some_iff]

private theorem immediate_eq_ok_iff_eq {value : UInt32} {imm : Immediate} :
    immediate value = .ok imm ↔ value = .ofNat imm.val := by
  have himm : (UInt32.ofNat imm.val).toNat = imm.val :=
    UInt32.toNat_ofNat_of_lt' (Nat.lt_trans imm.isLt (by decide))
  rw [immediate_eq_ok_iff, ← UInt32.toNat_inj, himm, eq_comm]

/-- An instruction has one draft, the one that it is checked from. -/
theorem eq_draft_of_check {d : Draft} {i : Instruction} (h : d.check = .ok i) : d = i.draft := by
  cases d with
  | push r | pop r =>
    simp only [check, bind_eq_ok_iff, operandIn_eq_ok_iff_eq, pure_eq_ok_iff] at h
    obtain ⟨n, rfl, rfl⟩ := h
    rfl
  | mov dst src =>
    simp only [check, bind_eq_ok_iff, operandIn_eq_ok_iff_eq, pure_eq_ok_iff] at h
    obtain ⟨n, rfl, m, rfl, rfl⟩ := h
    rfl
  | sub dst value | add dst value =>
    simp only [check, bind_eq_ok_iff, operandIn_eq_ok_iff_eq, immediate_eq_ok_iff_eq, pure_eq_ok_iff] at h
    obtain ⟨n, rfl, imm, rfl, rfl⟩ := h
    rfl
  | lea dst base disp =>
    simp only [check, bind_eq_ok_iff, operandIn_eq_ok_iff_eq, immediate_eq_ok_iff_eq, pure_eq_ok_iff] at h
    obtain ⟨n, rfl, b, rfl, imm, rfl, rfl⟩ := h
    rfl
  | store base disp r | load r base disp =>
    simp only [check, bind_eq_ok_iff, operandIn_eq_ok_iff_eq, immediate_eq_ok_iff_eq] at h
    obtain ⟨b, rfl, imm, rfl, h⟩ := h
    split at h
    · simp only [bind_eq_ok_iff, operandIn_eq_ok_iff_eq, pure_eq_ok_iff] at h
      obtain ⟨n, rfl, rfl⟩ := h
      rfl
    · simp only [bind_eq_ok_iff, operandIn_eq_ok_iff_eq, pure_eq_ok_iff] at h
      obtain ⟨n, rfl, rfl⟩ := h
      rfl
  | ret | nop | int3 =>
    rw [check, pure_eq_ok_iff] at h
    rw [h]
    rfl

private theorem exists_check_iff {d : Draft} : (∃ i, d.check = .ok i) ↔ d.fault? = none := by
  cases hcheck : d.check with
  | ok i =>
    have hnone : d.fault? = none := by
      by_contra hne
      obtain ⟨e, he⟩ := Option.ne_none_iff_exists'.1 hne
      cases hcheck.symm.trans (check_eq_error_iff.2 he)
    simp [hnone]
  | error e => simp [check_eq_error_iff.1 hcheck]

private theorem readAll_flatMap_bytes (is : List Instruction) :
    readAll (is.flatMap Instruction.bytes) = some (is.map Instruction.draft) := by
  rw [readAll, Instruction.readAll_flatMap_bytes]
  rfl

private theorem map_draft_of_forall₂ {drafts : List Draft} {is : List Instruction}
    (h : List.Forall₂ (fun draft i => draft.check = .ok i) drafts is) : is.map Instruction.draft = drafts := by
  induction h with
  | nil => rfl
  | cons hcheck _ ih => rw [List.map_cons, ih, ← eq_draft_of_check hcheck]

private theorem exists_forall₂_check {drafts : List Draft} (h : ∀ d ∈ drafts, d.fault? = none) :
    ∃ is, List.Forall₂ (fun draft i => draft.check = .ok i) drafts is := by
  induction drafts with
  | nil => exact ⟨[], .nil⟩
  | cons d drafts ih =>
    obtain ⟨i, hi⟩ := exists_check_iff.2 (h d List.mem_cons_self)
    obtain ⟨is, his⟩ := ih fun d' hd' => h d' (List.mem_cons_of_mem d hd')
    exact ⟨i :: is, .cons hi his⟩

end Draft

namespace Encoder

/-- The draft that a call has an instruction appended for, if it is accepted. -/
def Call.accepted? : Call → Option Draft
  | .emit draft => if draft.fault? = none then some draft else none
  | .newLabel | .place _ | .assemble => none

/-- The instruction calls of a run that are accepted. -/
def accepted (calls : List Call) : List Draft := calls.filterMap Call.accepted?

/-- A run asks for the code of the instructions that its accepted calls stand for. -/
theorem exists_codeOf_eq (calls : List Call) :
    ∃ is : List Instruction, codeOf calls = is.flatMap Instruction.bytes ∧ is.map Instruction.draft = accepted calls := by
  induction calls with
  | nil => exact ⟨[], rfl, rfl⟩
  | cons call calls ih =>
    obtain ⟨is, hcode, hdrafts⟩ := ih
    have hskip (hbytes : call.bytes = []) (hnone : call.accepted? = none) :
        ∃ is : List Instruction, codeOf (call :: calls) = is.flatMap Instruction.bytes ∧
          is.map Instruction.draft = accepted (call :: calls) := by
      refine ⟨is, ?_, ?_⟩
      · rw [codeOf, List.flatMap_cons, hbytes, List.nil_append]
        exact hcode
      · rw [accepted, List.filterMap_cons_none hnone]
        exact hdrafts
    cases call with
    | emit draft =>
      cases hcheck : draft.check with
      | ok i =>
        refine ⟨i :: is, ?_, ?_⟩
        · rw [codeOf, List.flatMap_cons, List.flatMap_cons, Call.bytes, hcheck, ← hcode]
          rfl
        · have hsome : (Call.emit draft).accepted? = some draft := if_pos (Draft.exists_check_iff.1 ⟨i, hcheck⟩)
          rw [accepted, List.filterMap_cons_some hsome, List.map_cons, hdrafts, ← Draft.eq_draft_of_check hcheck]
          rfl
      | error e =>
        have hfault := Draft.check_eq_error_iff.1 hcheck
        exact hskip (by rw [Call.bytes, hcheck]) (if_neg (by simp [hfault]))
    | newLabel | place label | assemble => exact hskip rfl rfl

/-- Whatever calls are made, the machine code reads back as the instruction calls that were accepted. -/
theorem readAll_of_assemble {calls : List Call} {a : AssembledCode} {e : Encoder} (h : assemble (run calls) = .ok a e) :
    Draft.readAll a.code.toList = some (accepted calls) := by
  obtain ⟨is, hcode, hdrafts⟩ := exists_codeOf_eq calls
  rw [(AssembledCode.of_assemble (holds_run calls) h).code, hcode, Draft.readAll_flatMap_bytes, hdrafts]

/-- Machine code determines the instructions it was written for: calls with encodable operands are all accepted, the
    code reads back as exactly these calls, and no other accepted calls give the same code. -/
theorem code_determines_calls (drafts : List Draft) (h : ∀ d ∈ drafts, d.fault? = none) :
    ∃ e a, emitAll drafts {} = .ok () e ∧ assemble e = .ok a e ∧
      Draft.readAll a.code.toList = some drafts ∧
      ∀ calls a' e', assemble (run calls) = .ok a' e' → a'.code = a.code → accepted calls = drafts := by
  obtain ⟨is, his⟩ := Draft.exists_forall₂_check h
  have hemit : emitAll drafts {} = .ok () (({} : Encoder).appendAll is) := emitAll_eq_ok_iff.2 ⟨is, his, rfl⟩
  obtain ⟨a, ha⟩ : ∃ a, assemble (({} : Encoder).appendAll is) = .ok a (({} : Encoder).appendAll is) := by
    apply exists_assemble
    intro label offset hoffset
    simp [offset?] at hoffset
  have hcode : a.code.toList = is.flatMap Instruction.bytes := by
    rw [(assemble_eq_ok_iff.1 ha).1, code_appendAll]
    simp
  have hread : Draft.readAll a.code.toList = some drafts := by
    rw [hcode, Draft.readAll_flatMap_bytes, Draft.map_draft_of_forall₂ his]
  refine ⟨_, a, hemit, ha, hread, fun calls a' e' ha' heq => ?_⟩
  have hread' := readAll_of_assemble ha'
  rw [heq, hread] at hread'
  exact (Option.some.inj hread').symm

/-- Operands where the forms of an instruction part: bases that need one byte more, registers that a REX byte extends,
    `rax`, and the largest immediates of each width. -/
def sampleDrafts : List Draft :=
  [.push (.gp 12), .mov (.gp 13) .rsp, .sub .rsp 127, .sub (.gp 0) 8, .add (.gp 12) 128, .lea (.gp 5) (.gp 12) 0,
    .store .rsp 0 (.gp 0), .store (.gp 13) 0 (.xmm 9), .load (.xmm 6) .rsp 0x7FFFFFFF, .ret]

/-- Their machine code, one instruction a line. -/
def sampleCode : Array UInt8 :=
  #[0x41, 0x54,
    0x49, 0x89, 0xE5,
    0x48, 0x83, 0xEC, 0x7F,
    0x48, 0x2D, 0x08, 0x00, 0x00, 0x00,
    0x49, 0x81, 0xC4, 0x80, 0x00, 0x00, 0x00,
    0x49, 0x8D, 0x2C, 0x24,
    0x48, 0x89, 0x04, 0x24,
    0x45, 0x0F, 0x29, 0x4D, 0x00,
    0x0F, 0x28, 0xB4, 0x24, 0xFF, 0xFF, 0xFF, 0x7F,
    0xC3]

theorem code_determines_calls_sampleDrafts :
    (∀ d ∈ sampleDrafts, d.fault? = none) ∧
      emitAll sampleDrafts {} = .ok () ⟨sampleCode, #[]⟩ ∧
      Draft.readAll sampleCode.toList = some sampleDrafts ∧
      ∀ calls a e, assemble (run calls) = .ok a e → a.code = sampleCode → accepted calls = sampleDrafts := by
  have h : ∀ d ∈ sampleDrafts, d.fault? = none := by decide +kernel
  have hemit : emitAll sampleDrafts {} = .ok () ⟨sampleCode, #[]⟩ := outcome_eq_ok_iff.1 (by decide +kernel)
  obtain ⟨e, a, he, ha, hread, hunique⟩ := code_determines_calls sampleDrafts h
  cases hemit.symm.trans he
  rw [(assemble_eq_ok_iff.1 ha).1] at hread hunique
  exact ⟨h, hemit, hread, hunique⟩

end Encoder

end StackUnwind
