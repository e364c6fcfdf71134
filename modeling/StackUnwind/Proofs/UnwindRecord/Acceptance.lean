import StackUnwind.Proofs.Prolog.Demands
import StackUnwind.Proofs.UnwindRecord.Reading

namespace StackUnwind

namespace PrologOp

/-- The length of the instruction that performs an operation, or zero if none does. -/
def length (op : PrologOp) : Nat := op.instructionLength.toOption.getD 0

/-- The length of a prolog as far as there are instructions for it. -/
def totalLength (ops : List PrologOp) : Nat := (ops.map length).sum

/-- What an operation demands after the operations before it, in the order in which it is checked: its instruction,
    the length of the prolog so far, and its unwind code. -/
def demands (before : List PrologOp) (op : PrologOp) : List Demand :=
  op.operandDemands ++ .short (totalLength (before ++ [op])) :: op.codeDemands before

/-- The first demand of an operation that is not met, as it is reported. -/
def flaw? (before : List PrologOp) (op : PrologOp) : Option RecordError := (op.demands before).findSome? Demand.error?

private theorem PerformedBy.length_eq {op : PrologOp} {i : Instruction} (h : op.PerformedBy i) :
    op.length = i.bytes.length := by
  rw [length, instructionLength_eq_ok_iff.2 ⟨i, h, rfl⟩]
  rfl

private theorem totalLength_of_performed {ops : List PrologOp} {is : List Instruction}
    (h : List.Forall₂ PerformedBy ops is) : totalLength ops = Instruction.totalLength is := by
  induction h with
  | nil => rfl
  | @cons op i ops is hop _ ih =>
    rw [totalLength, List.map_cons, List.sum_cons, hop.length_eq, Instruction.totalLength_cons, ← ih, totalLength]

private theorem totalLength_append (ops ops' : List PrologOp) :
    totalLength (ops ++ ops') = totalLength ops + totalLength ops' := by
  simp [totalLength]

private theorem exists_of_mapM_instructionLength {ops : List PrologOp} {lengths : List Nat}
    (h : ops.mapM instructionLength = .ok lengths) :
    ∃ is, List.Forall₂ PerformedBy ops is ∧ lengths = is.map fun i => i.bytes.length := by
  induction mapM_eq_ok_iff.1 h with
  | nil => exact ⟨[], .nil, rfl⟩
  | cons hlength _ ih =>
    obtain ⟨i, hi, rfl⟩ := instructionLength_eq_ok_iff.1 hlength
    obtain ⟨is, his, rfl⟩ := ih (mapM_eq_ok_iff.2 ‹_›)
    exact ⟨i :: is, .cons hi his, rfl⟩

end PrologOp

namespace UnwindRecord

/-- The prologs that a record can describe, by their operations alone. -/
structure Describable (ops : List PrologOp) : Prop where
  push : ∀ reg, .push reg ∈ ops → reg.NamesGp
  alloc : ∀ size, .alloc size ∈ ops → 0 < size.toNat ∧ 8 ∣ size.toNat ∧ size.toNat ≤ 2 ^ 31 - 1
  save : ∀ reg offset, .save reg offset ∈ ops → (reg.NamesGp ∨ reg.NamesXmm) ∧ offset.toNat ≤ 2 ^ 31 - 1
  frame : ∀ reg offset, .setFrame reg offset ∈ ops → reg.NamesGp ∧ 16 ∣ offset.toNat ∧ offset.toNat ≤ 240
  frame_once : (ops.filterMap PrologOp.frame?).length ≤ 1
  short : PrologOp.totalLength ops ≤ 255

private theorem Describable.encodable {ops : List PrologOp} (h : Describable ops) : ∀ op ∈ ops, op.Encodable := by
  intro op hop
  cases op with
  | push reg => exact h.push reg hop
  | alloc size => exact Nat.lt_succ_of_le (h.alloc size hop).2.2
  | save reg offset =>
    obtain ⟨hreg, hoffset⟩ := h.save reg offset hop
    exact ⟨hreg, Nat.lt_succ_of_le hoffset⟩
  | setFrame reg offset =>
    obtain ⟨hreg, -, hoffset⟩ := h.frame reg offset hop
    exact ⟨hreg, Nat.lt_of_le_of_lt hoffset (by decide)⟩

private theorem describable_iff_exists_expressible {ops : List PrologOp} :
    Describable ops ↔ ∃ is, Expressible ops is := by
  constructor
  · intro h
    obtain ⟨is, his⟩ := PrologOp.exists_performed_iff.2 h.encodable
    refine ⟨is, his, ?_, h.frame_once, ?_, ?_⟩
    · rw [← PrologOp.totalLength_of_performed his]
      exact h.short
    · exact fun reg offset hop => (h.frame reg offset hop).2
    · intro size hop
      obtain ⟨hpos, hdvd, -⟩ := h.alloc size hop
      exact ⟨hpos, hdvd⟩
  · rintro ⟨is, his⟩
    have hencodable := PrologOp.exists_performed_iff.1 ⟨is, his.performed⟩
    refine ⟨fun reg hop => hencodable _ hop, ?_, ?_, ?_, his.frame_once, ?_⟩
    · intro size hop
      obtain ⟨hpos, hdvd⟩ := his.alloc_size size hop
      exact ⟨hpos, hdvd, Nat.le_of_lt_succ (hencodable _ hop)⟩
    · intro reg offset hop
      obtain ⟨hreg, hoffset⟩ := hencodable _ hop
      exact ⟨hreg, Nat.le_of_lt_succ hoffset⟩
    · intro reg offset hop
      obtain ⟨hreg, -⟩ := hencodable _ hop
      exact ⟨hreg, his.frame_offset reg offset hop⟩
    · rw [PrologOp.totalLength_of_performed his.performed]
      exact his.short

namespace Scan

variable {s : Scan} {before : List PrologOp} {op : PrologOp} {e : RecordError}

/-- An operation has no unwind code because of the first demand of the code that is not met. -/
theorem frameAfter_eq_error_iff (hframe : s.frame = (before.filterMap PrologOp.frame?).head?) :
    s.frameAfter op = .error e ↔ (op.codeDemands before).findSome? Demand.error? = some e := by
  cases op with
  | push reg | save reg offset => simp [frameAfter, PrologOp.codeDemands]
  | alloc size =>
    have hzero : size = 0 ↔ ¬ 0 < size.toNat := by simp [← UInt32.toNat_inj]
    have hmod : size % 8 = 0 ↔ 8 ∣ size.toNat := by
      simp [← UInt32.toNat_inj, Nat.dvd_iff_mod_eq_zero]
    simp only [frameAfter, PrologOp.codeDemands, findSome?_cons_eq_some_iff, List.findSome?_nil, reduceCtorEq, and_false,
      or_false, Demand.error?, hzero, ne_eq, hmod, ← not_and_or]
    by_cases h : 0 < size.toNat ∧ 8 ∣ size.toNat <;> simp [h]
  | setFrame reg offset =>
    have hmod : offset % 16 = 0 ↔ 16 ∣ offset.toNat := by
      simp [← UInt32.toNat_inj, Nat.dvd_iff_mod_eq_zero]
    have hle : maxFrameOffset < offset ↔ ¬ offset.toNat ≤ 240 := by
      simp [maxFrameOffset, UInt32.lt_iff_toNat_lt]
    have hsome : s.frame.isSome = true ↔ ¬ (before.filterMap PrologOp.frame?).length = 0 := by
      rw [hframe, List.isSome_head?, List.length_eq_zero_iff]
    simp only [frameAfter, PrologOp.codeDemands, findSome?_cons_eq_some_iff, List.findSome?_nil, reduceCtorEq, and_false,
      or_false, Demand.error?, hsome, hle, ne_eq, hmod, ← not_and_or]
    by_cases hfirst : (before.filterMap PrologOp.frame?).length = 0
    · by_cases h : 16 ∣ offset.toNat ∧ offset.toNat ≤ 240 <;> simp [hfirst, h]
    · simp [hfirst]

/-- A scan does not go on with an operation that has an instruction because the prolog is too long or there is no
    unwind code. -/
theorem step_eq_error_iff_of_performedBy {i : Instruction} (hop : op.PerformedBy i) (hsize : s.size.toNat ≤ 255) :
    s.step op = .error (.error e) ↔ (Demand.short (s.size.toNat + i.bytes.length)).error? = some e ∨
      (Demand.short (s.size.toNat + i.bytes.length)).error? = none ∧ s.frameAfter op = .error e := by
  have hlength : op.instructionLength = .ok i.bytes.length := PrologOp.instructionLength_eq_ok_iff.2 ⟨i, hop, rfl⟩
  have hbound := (Instruction.length_bytes_bounds i).2
  obtain ⟨size, hword⟩ := exists_word (n := s.size.toNat + i.bytes.length) (by omega)
  have hlong : 255 < size ↔ ¬ size.toNat ≤ 255 := by simp [UInt32.lt_iff_toNat_lt]
  simp only [step, hlength, bind_eq_error_iff, liftM_error_eq_error_iff, liftM_error_eq_ok_iff, reduceCtorEq, false_or,
    Except.ok.injEq, exists_eq_left', liftM_fault_eq_error_iff, liftM_fault_eq_ok_iff, word32_eq_ok_iff, hword,
    UInt32.toNat_inj, check_eq_error_iff, Stop.error.injEq, PrologOp.length_slots_form, ne_eq, not_true, if_false,
    pure_eq_error_iff, and_false, exists_false, or_false, Demand.error?, hlong, UInt32.ofNat_toNat]
  by_cases hshort : size.toNat ≤ 255 <;> simp [hshort, eq_comm]

/-- A scan does not go on with an operation because of the first of its demands that is not met. -/
theorem step_eq_error_iff {is : List Instruction} (his : Expressible before is) :
    (scanOf before is).step op = .error (.error e) ↔ op.flaw? before = some e := by
  rw [PrologOp.flaw?, PrologOp.demands, List.findSome?_append]
  -- Without an instruction the scan gets no further than the operands, and with one they have nothing to report.
  cases hop : op.instruction with
  | error e' =>
    have hstep : (scanOf before is).step op = .error (.error e') := by
      rw [step, PrologOp.instructionLength, hop]
      rfl
    rw [hstep, PrologOp.instruction_eq_error_iff.1 hop]
    simp
  | ok i =>
    have hi := PrologOp.instruction_eq_ok_iff.1 hop
    have hoperands : op.operandDemands.findSome? Demand.error? = none := by
      apply Option.eq_none_iff_forall_ne_some.2
      intro e' he'
      rw [← PrologOp.instruction_eq_error_iff, hop] at he'
      cases he'
    have hsize := toNat_size_scanOf his
    have hshort := his.short
    have htotal : PrologOp.totalLength (before ++ [op]) = (scanOf before is).size.toNat + i.bytes.length := by
      rw [hsize, PrologOp.totalLength_append, PrologOp.totalLength_of_performed his.performed,
        PrologOp.totalLength_of_performed (.cons hi .nil), Instruction.totalLength_cons]
      rfl
    have hcode : (scanOf before is).frameAfter op = .error e ↔ (op.codeDemands before).findSome? Demand.error? = some e :=
      frameAfter_eq_error_iff rfl
    rw [hoperands, Option.none_or, findSome?_cons_eq_some_iff, htotal,
      step_eq_error_iff_of_performedBy hi (by omega), hcode]

end Scan

/-- A record is refused because of the first operation that has a flaw, all operations before it having none. -/
theorem ofOps_eq_error_iff {ops : List PrologOp} {e : RecordError} :
    ofOps ops = .error (.error e) ↔ ∃ before op after, ops = before ++ op :: after ∧ Describable before ∧
      op.flaw? before = some e := by
  have hscan : ofOps ops = .error (.error e) ↔ ops.foldlM Scan.step {} = .error (.error e) := by
    cases hfold : ops.foldlM Scan.step {} with
    | error stop =>
      have hstop : ofOps ops = .error stop := by
        unfold ofOps
        rw [hfold]
        rfl
      rw [hstop]
      simp
    | ok s =>
      obtain ⟨is, his, -⟩ := foldlM_step_eq_ok_iff.1 hfold
      rw [ofOps_eq_ok_iff.2 ⟨is, his, rfl⟩]
      simp
  rw [hscan, foldlM_eq_error_iff]
  constructor
  · rintro ⟨before, op, after, t, rfl, hbefore, hop⟩
    obtain ⟨is, his, rfl⟩ := foldlM_step_eq_ok_iff.1 hbefore
    exact ⟨before, op, after, rfl, describable_iff_exists_expressible.2 ⟨is, his⟩, (Scan.step_eq_error_iff his).1 hop⟩
  · rintro ⟨before, op, after, rfl, hbefore, hop⟩
    obtain ⟨is, his⟩ := describable_iff_exists_expressible.1 hbefore
    exact ⟨before, op, after, _, rfl, foldlM_step_eq_ok_iff.2 ⟨is, his, rfl⟩, (Scan.step_eq_error_iff his).2 hop⟩

/-- A prolog has a record exactly when a record can describe it. Otherwise the first operation that breaks a condition
    is reported, with the first of its conditions that is not met. Nothing else goes wrong, and in particular the slots
    of the unwind codes are never too many, because there are no more of them than bytes of instructions. -/
theorem record_iff_describable (ops : List PrologOp) :
    ((∃ record, ofOps ops = .ok record) ↔ Describable ops) ∧
    (¬ Describable ops → ∃ before op after e, ops = before ++ op :: after ∧ Describable before ∧
      ¬ Describable (before ++ [op]) ∧ op.flaw? before = some e ∧ ofOps ops = .error (.error e)) ∧
    (∀ fault, ofOps ops ≠ .error (.fault fault)) ∧
    (∀ slots, ofOps ops ≠ .error (.error (.tooManySlots slots))) ∧
    ∀ lengths, ops.mapM PrologOp.instructionLength = .ok lengths → slotCount ops ≤ lengths.sum := by
  have hok (ops : List PrologOp) : (∃ record, ofOps ops = .ok record) ↔ Describable ops := by
    simp only [describable_iff_exists_expressible, ofOps_eq_ok_iff]
    constructor
    · rintro ⟨_, is, his, -⟩
      exact ⟨is, his⟩
    · rintro ⟨is, his⟩
      exact ⟨_, is, his, rfl⟩
  refine ⟨hok ops, fun hnot => ?_, ofOps_ne_fault ops, fun slots hslots => ?_, fun lengths hlengths => ?_⟩
  · cases hops : ofOps ops with
    | ok record => exact absurd ((hok ops).1 ⟨record, hops⟩) hnot
    | error stop =>
      cases stop with
      | fault fault => exact absurd hops (ofOps_ne_fault ops fault)
      | error e =>
        obtain ⟨before, op, after, hsplit, hbefore, hflaw⟩ := ofOps_eq_error_iff.1 hops
        refine ⟨before, op, after, e, hsplit, hbefore, fun hlonger => ?_, hflaw, rfl⟩
        -- The operations up to the flawed one are refused on their own too.
        have hrefused : ofOps (before ++ [op]) = .error (.error e) :=
          ofOps_eq_error_iff.2 ⟨before, op, [], rfl, hbefore, hflaw⟩
        obtain ⟨record, hrecord⟩ := (hok _).2 hlonger
        rw [hrecord] at hrefused
        cases hrefused
  · obtain ⟨before, op, after, -, -, hflaw⟩ := ofOps_eq_error_iff.1 hslots
    obtain ⟨demand, -, hdemand⟩ := List.exists_of_findSome?_eq_some hflaw
    exact demand.error?_ne_tooManySlots slots hdemand
  · obtain ⟨is, his, rfl⟩ := PrologOp.exists_of_mapM_instructionLength hlengths
    exact slotCount_le_totalLength his

/-- The second frame register is the first mistake of this prolog, before the allocation of twelve bytes. -/
theorem record_iff_describable_twoFrames :
    let ops : List PrologOp :=
      [.push .rbp, .alloc 4096, .setFrame .rbp 0, .save (.xmm 6) 40, .setFrame .rbp 16, .alloc 12]
    ¬ Describable ops ∧
    (∃ before op after e, ops = before ++ op :: after ∧ Describable before ∧
      ¬ Describable (before ++ [op]) ∧ op.flaw? before = some e ∧ ofOps ops = .error (.error e)) ∧
    slotCount ops ≤ 25 := by
  intro ops
  obtain ⟨-, hrefused, -, -, hslots⟩ := record_iff_describable ops
  have htwice : ¬ Describable ops := fun h => absurd h.frame_once (by decide)
  have hlengths : ops.mapM PrologOp.instructionLength = .ok [1, 7, 3, 5, 5, 4] := by decide
  exact ⟨htwice, hrefused htwice, hslots _ hlengths⟩

end UnwindRecord

end StackUnwind
