import StackUnwind.Proofs.Machine.Basic
import StackUnwind.Proofs.UnwindRecord.Reading

namespace StackUnwind

namespace Machine

section Fields

variable (m : Machine)

@[simp] theorem gp_setGp (r n : RegNumber) (value : Int) :
    (m.setGp r value).gp n = if n = r then value else m.gp n := Function.update_apply ..

@[simp] private theorem xmm_setGp (r : RegNumber) (value : Int) : (m.setGp r value).xmm = m.xmm := rfl

@[simp] private theorem gp_setXmm (r : RegNumber) (value : Int) : (m.setXmm r value).gp = m.gp := rfl

@[simp] private theorem xmm_setXmm (r n : RegNumber) (value : Int) :
    (m.setXmm r value).xmm n = if n = r then value else m.xmm n := Function.update_apply ..

@[simp] private theorem gp_store (width : Nat) (address value : Int) : (m.store width address value).gp = m.gp := rfl

@[simp] private theorem stack_store (width : Nat) (address value : Int) :
    (m.store width address value).stack = m.stack.write width address value := rfl

end Fields

/-- The machine after an operation of a prolog. -/
def perform (m : Machine) : PrologOp → Machine
  | .push reg => m.push (m.gp (nibble reg.id.toNat))
  | .alloc size => m.setGp 4 (m.sp - size.toNat)
  | .setFrame reg offset => m.setGp (nibble reg.id.toNat) (m.sp + offset.toNat)
  | .save reg offset =>
    if reg.isXmm then m.store 16 (m.sp + offset.toNat) (m.xmm (nibble reg.id.toNat))
    else m.store 8 (m.sp + offset.toNat) (m.gp (nibble reg.id.toNat))

/-- The machine after operations of a prolog one after another. -/
def performAll (m : Machine) (ops : List PrologOp) : Machine := ops.foldl perform m

/-- The machine after the unwinder has undone an operation of a prolog: a pushed register is popped, the
    stack pointer is raised by an allocation or computed from the frame register, and a stored register
    is loaded again. -/
def revert (m : Machine) : PrologOp → Machine
  | .push reg => m.drop.setGp (nibble reg.id.toNat) (m.stack.read 8 m.sp)
  | .alloc size => m.setGp 4 (m.sp + size.toNat)
  | .setFrame reg offset => m.setGp 4 (m.gp (nibble reg.id.toNat) - offset.toNat)
  | .save reg offset =>
    if reg.isXmm then m.setXmm (nibble reg.id.toNat) (m.stack.read 16 (m.sp + offset.toNat))
    else m.setGp (nibble reg.id.toNat) (m.stack.read 8 (m.sp + offset.toNat))

/-- The machine after the unwinder has undone operations, last one first. -/
def revertAll (m : Machine) (ops : List PrologOp) : Machine := ops.foldr (fun op m => m.revert op) m

/-- The instruction of an operation does what the operation is meant to do. -/
theorem exec_eq_perform {op : PrologOp} {i : Instruction} (h : op.PerformedBy i) (m : Machine) :
    m.exec i = m.perform op := by
  cases h with
  | push hreg => rw [exec, perform, Register.nibble_id_of_numberIn? hreg]
  | alloc hsize => rw [exec, perform, hsize, sp]
  | mov hreg =>
    rw [exec, perform, Register.nibble_id_of_numberIn? hreg, UInt32.toNat_zero, Int.natCast_zero, Int.add_zero, sp]
  | lea hreg hoffset => rw [exec, perform, Register.nibble_id_of_numberIn? hreg, address, hoffset, sp]
  | store hreg hoffset =>
    rw [exec, perform, Register.isXmm_of_gpNumber? hreg, Register.nibble_id_of_numberIn? hreg, address, hoffset, sp]
    rfl
  | storeXmm hreg hoffset =>
    rw [exec, perform, Register.isXmm_of_xmmNumber? hreg, Register.nibble_id_of_numberIn? hreg, address, hoffset,
      sp]
    rfl

/-- Instructions do what the operations do that they were made for. -/
theorem run_eq_performAll {ops : List PrologOp} {is : List Instruction}
    (h : List.Forall₂ PrologOp.PerformedBy ops is) (m : Machine) : m.run is = m.performAll ops := by
  induction h generalizing m with
  | nil => rfl
  | cons hop _ ih =>
    rw [run, List.foldl_cons, exec_eq_perform hop]
    exact ih _

/-- Operations are performed in order. -/
theorem performAll_append (m : Machine) (ops ops' : List PrologOp) :
    m.performAll (ops ++ ops') = (m.performAll ops).performAll ops' :=
  List.foldl_append

/-- Operations are reverted last one first. -/
theorem revertAll_append (m : Machine) (ops ops' : List PrologOp) :
    m.revertAll (ops ++ ops') = (m.revertAll ops').revertAll ops :=
  List.foldr_append

/-- Whether an operation writes to a cell of the stack. -/
def Writes (m : Machine) (a : Int) : PrologOp → Prop
  | .push _ => m.sp - 8 ≤ a ∧ a < m.sp
  | .save reg offset =>
    m.sp + offset.toNat ≤ a ∧ a < m.sp + offset.toNat + (if reg.isXmm then 16 else 8)
  | .alloc _ | .setFrame _ _ => False

/-- Whether one of several operations writes to a cell of the stack. -/
def WritesAny (m : Machine) (a : Int) : List PrologOp → Prop
  | [] => False
  | op :: ops => m.Writes a op ∨ (m.perform op).WritesAny a ops

/-- Whether no operation writes to a cell that an earlier one has written to. -/
def Separate (m : Machine) : List PrologOp → Prop
  | [] => True
  | op :: ops => (∀ a, m.Writes a op → ¬ (m.perform op).WritesAny a ops) ∧ (m.perform op).Separate ops

/-- What is written by two lists of operations is written by one of them. -/
theorem writesAny_append {m : Machine} {a : Int} {ops ops' : List PrologOp} :
    m.WritesAny a (ops ++ ops') ↔ m.WritesAny a ops ∨ (m.performAll ops).WritesAny a ops' := by
  induction ops generalizing m with
  | nil => simp [WritesAny, performAll]
  | cons op ops ih =>
    rw [List.cons_append, WritesAny, ih, WritesAny, or_assoc]
    rfl

/-- Two lists of operations write each address once exactly if both do and no address is written by both. -/
theorem separate_append {m : Machine} {ops ops' : List PrologOp} :
    m.Separate (ops ++ ops') ↔ m.Separate ops ∧ (m.performAll ops).Separate ops' ∧
      ∀ a, m.WritesAny a ops → ¬ (m.performAll ops).WritesAny a ops' := by
  induction ops generalizing m with
  | nil => simp [Separate, WritesAny, performAll]
  | cons op ops ih =>
    have hall : (m.perform op).performAll ops = m.performAll (op :: ops) := rfl
    simp only [List.cons_append, Separate, WritesAny, ih, writesAny_append, hall, not_or]
    constructor
    · rintro ⟨hop, hops, hops', hdisjoint⟩
      refine ⟨⟨fun a ha => (hop a ha).1, hops⟩, hops', ?_⟩
      rintro a (ha | ha)
      · exact (hop a ha).2
      · exact hdisjoint a ha
    · rintro ⟨⟨hop, hops⟩, hops', hdisjoint⟩
      exact ⟨fun a ha => ⟨hop a ha, hdisjoint a (.inl ha)⟩, hops, hops', fun a ha => hdisjoint a (.inr ha)⟩

private theorem stack_perform_of_not_writes {m : Machine} {op : PrologOp} {a : Int} (h : ¬ m.Writes a op) :
    (m.perform op).stack a = m.stack a := by
  cases op with
  | push reg =>
    refine if_neg ?_
    rintro ⟨hle, hlt⟩
    exact h ⟨hle, by omega⟩
  | alloc size | setFrame reg offset => rfl
  | save reg offset =>
    simp only [Writes] at h
    rw [perform]
    split at h
    next hxmm =>
      rw [if_pos hxmm]
      exact if_neg h
    next hxmm =>
      rw [if_neg hxmm]
      exact if_neg h

/-- An address that no operation writes keeps its byte. -/
theorem stack_performAll_of_not_writesAny {m : Machine} {ops : List PrologOp} {a : Int}
    (h : ¬ m.WritesAny a ops) : (m.performAll ops).stack a = m.stack a := by
  induction ops generalizing m with
  | nil => rfl
  | cons op ops ih =>
    rw [WritesAny, not_or] at h
    exact (ih h.2).trans (stack_perform_of_not_writes h.1)

/-- Whether a stack holds what an operation has stored there. -/
def Kept (stack : Stack) (m : Machine) : PrologOp → Prop
  | .push reg => stack.read 8 (m.sp - 8) = m.gp (nibble reg.id.toNat)
  | .save reg offset =>
    if reg.isXmm then stack.read 16 (m.sp + offset.toNat) = m.xmm (nibble reg.id.toNat)
    else stack.read 8 (m.sp + offset.toNat) = m.gp (nibble reg.id.toNat)
  | .alloc _ | .setFrame _ _ => True

/-- Whether a stack holds what operations have stored there one after another. -/
def KeptAll (stack : Stack) (m : Machine) : List PrologOp → Prop
  | [] => True
  | op :: ops => Kept stack m op ∧ KeptAll stack (m.perform op) ops

private theorem kept_of_agree {stack : Stack} {m : Machine} {op : PrologOp}
    (h : ∀ a, m.Writes a op → stack a = (m.perform op).stack a) : Kept stack m op := by
  cases op with
  | push reg =>
    have hread : stack.read 8 (m.sp - 8) = (m.perform (.push reg)).stack.read 8 (m.sp - 8) :=
      Stack.read_congr (by decide) fun a hle hlt => h a ⟨hle, by omega⟩
    rw [Kept, hread, perform, push, stack_store, Stack.read_write _ (by decide)]
  | alloc size | setFrame reg offset => trivial
  | save reg offset =>
    simp only [Writes, perform] at h
    rw [Kept]
    split
    next hxmm =>
      simp only [if_pos hxmm] at h
      rw [Stack.read_congr (by decide) fun a hle hlt => h a ⟨hle, hlt⟩, stack_store,
        Stack.read_write _ (by decide)]
    next hxmm =>
      simp only [if_neg hxmm] at h
      rw [Stack.read_congr (by decide) fun a hle hlt => h a ⟨hle, hlt⟩, stack_store,
        Stack.read_write _ (by decide)]

/-- What operations have stored is on the stack as long as only other cells are written to. -/
theorem keptAll_of_separate {stack : Stack} {m : Machine} {ops : List PrologOp} (hseparate : m.Separate ops)
    (hagree : ∀ a, m.WritesAny a ops → stack a = (m.performAll ops).stack a) : KeptAll stack m ops := by
  induction ops generalizing m with
  | nil => trivial
  | cons op ops ih =>
    obtain ⟨hop, hops⟩ := hseparate
    refine ⟨kept_of_agree fun a ha => ?_, ih hops fun a ha => hagree a (.inr ha)⟩
    rw [hagree a (.inl ha)]
    exact stack_performAll_of_not_writesAny (hop a ha)

end Machine

namespace PrologOp

/-- The general purpose register that an operation stores. -/
def storedGp? : PrologOp → Option RegNumber
  | push reg => some (nibble reg.id.toNat)
  | save reg _ => if reg.isXmm then none else some (nibble reg.id.toNat)
  | alloc _ | setFrame _ _ => none

/-- The vector register that an operation stores. -/
def storedXmm? : PrologOp → Option RegNumber
  | save reg _ => if reg.isXmm then some (nibble reg.id.toNat) else none
  | push _ | alloc _ | setFrame _ _ => none

/-- An operation that changes no register but the stack pointer, and does not store that. -/
structure Plain (op : PrologOp) : Prop where
  frame : op.frame? = none
  stored : op.storedGp? ≠ some 4

end PrologOp

namespace Machine

private theorem gp_perform_of_plain {m : Machine} {op : PrologOp} (h : op.Plain) {n : RegNumber} (hn : n ≠ 4) :
    (m.perform op).gp n = m.gp n := by
  cases op with
  | push reg => simp [perform, push, hn]
  | alloc size => simp [perform, hn]
  | setFrame reg offset => cases h.frame
  | save reg offset =>
    rw [perform]
    split <;> rfl

/-- Operations of a prolog change no vector register. -/
theorem xmm_perform (m : Machine) (op : PrologOp) : (m.perform op).xmm = m.xmm := by
  cases op with
  | push reg | alloc size | setFrame reg offset => rfl
  | save reg offset =>
    rw [perform]
    split <;> rfl

/-- Plain operations change no general register but the stack pointer. -/
theorem gp_performAll_of_plain {m : Machine} {ops : List PrologOp} (h : ∀ op ∈ ops, op.Plain) {n : RegNumber}
    (hn : n ≠ 4) : (m.performAll ops).gp n = m.gp n := by
  induction ops generalizing m with
  | nil => rfl
  | cons op ops ih =>
    rw [performAll, List.foldl_cons]
    exact (ih fun op' hmem => h op' (.tail _ hmem)).trans (gp_perform_of_plain (h op (.head _)) hn)

/-- All of them together change no vector register. -/
theorem xmm_performAll (m : Machine) (ops : List PrologOp) : (m.performAll ops).xmm = m.xmm := by
  induction ops generalizing m with
  | nil => rfl
  | cons op ops ih => exact (ih _).trans (xmm_perform m op)

/-- What the unwinder restores by undoing operations that started from `m`: the stack pointer and each
    register that was stored. Everything else is left as it is. -/
structure Restores (ops : List PrologOp) (m t t' : Machine) : Prop where
  sp : t'.sp = m.sp
  stack : t'.stack = t.stack
  gp : ∀ n ≠ 4, t'.gp n = if n ∈ ops.filterMap PrologOp.storedGp? then m.gp n else t.gp n
  xmm : ∀ n, t'.xmm n = if n ∈ ops.filterMap PrologOp.storedXmm? then m.xmm n else t.xmm n

/-- One turn of the unwinder. -/
theorem restores_revert {op : PrologOp} {ops : List PrologOp} {m t t' : Machine} (hop : op.Plain)
    (hkept : Kept t.stack m op) (h : Restores ops (m.perform op) t t') :
    Restores (op :: ops) m t (t'.revert op) := by
  obtain ⟨hsp, hstack, hgp, hxmm⟩ := h
  have hother {n : RegNumber} (hn : n ≠ 4) : (m.perform op).gp n = m.gp n := gp_perform_of_plain hop hn
  rw [xmm_perform] at hxmm
  cases op with
  | push reg =>
    have hreg : (4 : RegNumber) ≠ nibble reg.id.toNat := fun heq => hop.stored (congrArg some heq.symm)
    have hlow : t'.sp = m.sp - 8 := by simpa [sp, perform, push] using hsp
    rw [Kept, ← hlow] at hkept
    refine ⟨?_, hstack, fun n hn => ?_, fun n => hxmm n⟩
    · simp only [sp] at hlow ⊢
      simp only [revert, gp_setGp, if_neg hreg, drop, if_true, sp]
      omega
    · simp only [revert, gp_setGp, drop, if_neg hn, hstack, hkept, hgp n hn, hother hn, PrologOp.storedGp?,
        List.filterMap_cons, List.mem_cons]
      by_cases heq : n = nibble reg.id.toNat <;> simp [heq]
  | alloc size =>
    have hlow : t'.sp = m.sp - size.toNat := by simpa [sp, perform] using hsp
    refine ⟨?_, hstack, fun n hn => ?_, fun n => hxmm n⟩
    · simp only [sp] at hlow ⊢
      simp only [revert, gp_setGp, if_true, sp]
      omega
    · have hrest := hgp n hn
      rw [hother hn] at hrest
      simp only [revert, gp_setGp, if_neg hn]
      exact hrest
  | setFrame reg offset => cases hop.frame
  | save reg offset =>
    have hlow : t'.sp = m.sp := by
      rw [hsp, perform]
      split <;> rfl
    rw [Kept, ← hlow] at hkept
    cases hbank : reg.isXmm with
    | false =>
      have hreg : (4 : RegNumber) ≠ nibble reg.id.toNat := fun heq =>
        hop.stored (by simp [PrologOp.storedGp?, hbank, heq])
      simp only [hbank, Bool.false_eq_true, if_false] at hkept
      simp only [revert, hbank, Bool.false_eq_true, if_false]
      refine ⟨?_, hstack, fun n hn => ?_, fun n => ?_⟩
      · simp only [sp, gp_setGp, if_neg hreg] at hlow ⊢
        exact hlow
      · simp only [gp_setGp, hstack, hkept, hgp n hn, hother hn, PrologOp.storedGp?, hbank, Bool.false_eq_true,
          if_false, List.filterMap_cons, List.mem_cons]
        by_cases heq : n = nibble reg.id.toNat <;> simp [heq]
      · simp only [xmm_setGp, hxmm n, PrologOp.storedXmm?, hbank, Bool.false_eq_true, if_false,
          List.filterMap_cons]
    | true =>
      simp only [hbank, if_true] at hkept
      simp only [revert, hbank, if_true]
      refine ⟨hlow, hstack, fun n hn => ?_, fun n => ?_⟩
      · simp only [gp_setXmm, hgp n hn, hother hn, PrologOp.storedGp?, hbank, if_true, List.filterMap_cons]
      · simp only [xmm_setXmm, hstack, hkept, hxmm n, PrologOp.storedXmm?, hbank, if_true, List.filterMap_cons,
          List.mem_cons]
        by_cases heq : n = nibble reg.id.toNat <;> simp [heq]

/-- The unwinder undoes operations whose stores are still on the stack. -/
theorem restores_revertAll {ops : List PrologOp} {m t : Machine} (hops : ∀ op ∈ ops, op.Plain)
    (hkept : KeptAll t.stack m ops) (hsp : t.sp = (m.performAll ops).sp) :
    Restores ops m t (t.revertAll ops) := by
  induction ops generalizing m with
  | nil => exact ⟨hsp, rfl, by simp [revertAll], by simp [revertAll]⟩
  | cons op ops ih =>
    exact restores_revert (hops op (.head _)) hkept.1 (ih (fun op' hmem => hops op' (.tail _ hmem)) hkept.2 hsp)

end Machine

end StackUnwind
