import Mathlib
import StackUnwind.Instruction

namespace StackUnwind

/-- One byte of a value in memory: the byte of the given index among the `width` bytes of `value`. -/
structure Cell where
  value : Int
  width : Nat
  index : Nat
  deriving DecidableEq, Repr

/-- The memory of a stack, at all addresses. -/
abbrev Stack := Int → Cell

namespace Stack

/-- The value whose bytes are in `width` cells, or zero where the cells are not those of one value. -/
def read (stack : Stack) (width : Nat) (address : Int) : Int :=
  let value := (stack address).value
  if ∀ index < width, stack (address + index) = ⟨value, width, index⟩ then value else 0

/-- The memory in which the bytes of a value are in `width` cells. -/
def write (stack : Stack) (width : Nat) (address value : Int) : Stack := fun a =>
  if address ≤ a ∧ a < address + width then ⟨value, width, (a - address).toNat⟩ else stack a

/-- What is read depends on nothing but the bytes that are read. -/
theorem read_congr {stack stack' : Stack} {width : Nat} {address : Int} (hwidth : 0 < width)
    (h : ∀ a, address ≤ a → a < address + width → stack a = stack' a) :
    stack.read width address = stack'.read width address := by
  have hfirst : stack address = stack' address := h address (by omega) (by omega)
  have hcells : (∀ index < width, stack (address + index) = ⟨(stack' address).value, width, index⟩) ↔
      ∀ index < width, stack' (address + index) = ⟨(stack' address).value, width, index⟩ := by
    refine forall₂_congr fun index hindex => ?_
    rw [h (address + index) (by omega) (by omega)]
  simp only [read, hfirst, hcells]

/-- What has been written can be read. -/
@[simp] theorem read_write (stack : Stack) {width : Nat} (hwidth : 0 < width) (address value : Int) :
    (stack.write width address value).read width address = value := by
  have hcell (index : Nat) (hindex : index < width) :
      stack.write width address value (address + index) = ⟨value, width, index⟩ := by
    rw [write, if_pos (by omega), show (address + index - address).toNat = index by omega]
  have hfirst : (stack.write width address value address).value = value := by
    have hzero := hcell 0 hwidth
    rw [Int.natCast_zero, Int.add_zero] at hzero
    rw [hzero]
  rw [read, hfirst, if_pos hcell]

end Stack

/-- What instructions work on: the registers and the stack. Addresses and what registers hold are not
    bounded. -/
structure Machine where
  gp : RegNumber → Int
  xmm : RegNumber → Int
  stack : Stack
  /-- The address that was returned to, if a return has been executed. -/
  returned : Option Int := none

namespace Machine

/-- The stack pointer. -/
def sp (m : Machine) : Int := m.gp 4

/-- The address of a place in memory. -/
def address (m : Machine) (place : Memory) : Int := m.gp place.base + place.disp.val

def setGp (m : Machine) (r : RegNumber) (value : Int) : Machine :=
  { m with gp := Function.update m.gp r value }

def setXmm (m : Machine) (r : RegNumber) (value : Int) : Machine :=
  { m with xmm := Function.update m.xmm r value }

def store (m : Machine) (width : Nat) (address value : Int) : Machine :=
  { m with stack := m.stack.write width address value }

/-- Lower the stack pointer by eight bytes and store a value there. -/
def push (m : Machine) (value : Int) : Machine := (m.setGp 4 (m.sp - 8)).store 8 (m.sp - 8) value

/-- Raise the stack pointer by eight bytes. -/
def drop (m : Machine) : Machine := m.setGp 4 (m.sp + 8)

/-- The machine after an instruction. A trap changes nothing. -/
def exec (m : Machine) : Instruction → Machine
  | .push src => m.push (m.gp src)
  | .pop dst => m.drop.setGp dst (m.stack.read 8 m.sp)
  | .mov dst src => m.setGp dst (m.gp src)
  | .sub dst imm => m.setGp dst (m.gp dst - imm.val)
  | .add dst imm => m.setGp dst (m.gp dst + imm.val)
  | .lea dst src => m.setGp dst (m.address src)
  | .store dst src => m.store 8 (m.address dst) (m.gp src)
  | .load dst src => m.setGp dst (m.stack.read 8 (m.address src))
  | .storeXmm dst src => m.store 16 (m.address dst) (m.xmm src)
  | .loadXmm dst src => m.setXmm dst (m.stack.read 16 (m.address src))
  | .ret => { m.drop with returned := some (m.stack.read 8 m.sp) }
  | .nop | .int3 => m

/-- The machine after instructions one after another. -/
def run (m : Machine) (is : List Instruction) : Machine := is.foldl exec m

end Machine

end StackUnwind
