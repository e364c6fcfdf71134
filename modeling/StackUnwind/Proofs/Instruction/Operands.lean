import StackUnwind.Proofs.Prolog.Instruction

namespace StackUnwind

namespace Draft

/-- What an instruction needs of an operand: a general purpose register, a register of either bank, or an
    immediate. -/
inductive Operand where
  | gp (reg : Register)
  | either (reg : Register)
  | immediate (value : UInt32)
  deriving DecidableEq, Repr

/-- What is wrong with an operand. -/
def Operand.fault? : Operand → Option EncodeError
  | gp reg => if reg.gpNumber?.isSome then none else some .invalidRegister
  | either reg => if reg.gpNumber?.isSome ∨ reg.xmmNumber?.isSome then none else some .invalidRegister
  | immediate value => if value.toNat < 2 ^ 31 then none else some (.immediateOutOfRange value)

/-- The operands of a draft, in the order in which they are checked. -/
def operands : Draft → List Operand
  | push reg | pop reg => [.gp reg]
  | mov dst src => [.gp dst, .gp src]
  | sub dst imm | add dst imm => [.gp dst, .immediate imm]
  | lea dst base disp => [.gp dst, .gp base, .immediate disp]
  | store base disp reg | load reg base disp => [.gp base, .immediate disp, .either reg]
  | ret | nop | int3 => []

/-- The first fault of a draft. -/
def fault? (draft : Draft) : Option EncodeError := draft.operands.findSome? Operand.fault?

private theorem gpOperand_eq_error_iff {r : Register} {e : EncodeError} :
    gpOperand r = .error e ↔ (Operand.gp r).fault? = some e := by
  unfold gpOperand operandIn Operand.fault?
  cases hr : r.gpNumber? <;> simp [hr]

private theorem exists_gpOperand_iff {r : Register} : (∃ n, gpOperand r = .ok n) ↔ (Operand.gp r).fault? = none := by
  simp [operandIn_eq_ok_iff, Operand.fault?, Option.isSome_iff_exists]

private theorem immediate_eq_error_iff {value : UInt32} {e : EncodeError} :
    immediate value = .error e ↔ (Operand.immediate value).fault? = some e := by
  unfold immediate Operand.fault?
  by_cases h : value.toNat < 0x80000000 <;> simp [h]

private theorem exists_immediate_iff {value : UInt32} :
    (∃ imm, immediate value = .ok imm) ↔ (Operand.immediate value).fault? = none := by
  unfold immediate Operand.fault?
  by_cases h : value.toNat < 0x80000000 <;> simp [h]

/-- A register that is stored or loaded is looked up in the bank it belongs to. -/
theorem either_eq_error_iff {α : Type} {r : Register} {e : EncodeError} {f g : RegNumber → α} :
    (if r.isXmm then (return f (← xmmOperand r)) else (return g (← gpOperand r)) : Except EncodeError α) = .error e ↔
      (Operand.either r).fault? = some e := by
  unfold Operand.fault?
  cases hgp : r.gpNumber? with
  | some n =>
    have hok : gpOperand r = .ok n := operandIn_eq_ok_iff.2 hgp
    rw [if_neg (by simp [Register.isXmm_of_gpNumber? hgp]), hok]
    simp [hgp, bind, Except.bind, pure, Except.pure]
  | none =>
    cases hxmm : r.xmmNumber? with
    | some n =>
      have hok : xmmOperand r = .ok n := operandIn_eq_ok_iff.2 hxmm
      rw [if_pos (Register.isXmm_of_xmmNumber? hxmm), hok]
      simp [hxmm, bind, Except.bind, pure, Except.pure]
    | none => split <;> simp [bind, Except.bind, operandIn, hgp, hxmm]

/-- A draft stands for an instruction exactly when none of its operands has a fault, and otherwise the first
    fault is reported. -/
theorem check_eq_error_iff {draft : Draft} {e : EncodeError} : draft.check = .error e ↔ draft.fault? = some e := by
  cases draft <;>
    simp only [check, fault?, operands, findSome?_cons_eq_some_iff, List.findSome?_nil, bind_eq_error_iff,
      pure_eq_error_iff, gpOperand_eq_error_iff, exists_gpOperand_iff, immediate_eq_error_iff, exists_immediate_iff,
      either_eq_error_iff, exists_and_right, exists_false, and_false, or_false, reduceCtorEq]

end Draft

end StackUnwind
