/-!
Register handles. A handle is a bank and a number and may name no register at all; the
partial maps `gpNumber?` and `xmmNumber?` say which handles an instruction can use.
-/

namespace StackUnwind

/-- A register handle. General purpose numbers follow the hardware order
    (`rax`, `rcx`, `rdx`, `rbx`, `rsp`, `rbp`, `rsi`, `rdi`, `r8` to `r15`), which is also the
    numbering of unwind codes. -/
structure Register where
  bank : UInt8
  id : UInt8
  deriving DecidableEq, Repr

/-- The number of one of the sixteen registers of a bank. -/
abbrev RegNumber := Fin 16

/-- Numbers of registers are written as numerals. -/
instance RegNumber.instNeZero : @NeZero Nat Zero.ofOfNat0 16 := ⟨Nat.succ_ne_zero 15⟩

namespace Register

/-- The bank of the general purpose registers. -/
def gpBank : UInt8 := 0

/-- The bank of the vector registers. -/
def xmmBank : UInt8 := 1

def gp (id : UInt8) : Register := ⟨gpBank, id⟩

def xmm (id : UInt8) : Register := ⟨xmmBank, id⟩

/-- The stack pointer. -/
def rsp : Register := gp 4

/-- The register that frames are addressed through. -/
def rbp : Register := gp 5

def isGp (r : Register) : Bool := r.bank == gpBank

def isXmm (r : Register) : Bool := r.bank == xmmBank

/-- The number of a handle within its bank, if the bank has such a register. -/
def number? (r : Register) : Option RegNumber :=
  if h : r.id.toNat < 16 then some ⟨r.id.toNat, h⟩ else none

/-- The register of a bank that a handle names, if it names one. -/
def numberIn? (r : Register) (bank : UInt8) : Option RegNumber :=
  if r.bank == bank then r.number? else none

/-- The general purpose register a handle names, if it names one. -/
abbrev gpNumber? (r : Register) : Option RegNumber := r.numberIn? gpBank

/-- The vector register a handle names, if it names one. -/
abbrev xmmNumber? (r : Register) : Option RegNumber := r.numberIn? xmmBank

/-- The names of the general purpose registers, by number. -/
def gpNames : List String :=
  ["rax", "rcx", "rdx", "rbx", "rsp", "rbp", "rsi", "rdi",
   "r8", "r9", "r10", "r11", "r12", "r13", "r14", "r15"]

/-- The names of the vector registers, by number. -/
def xmmNames : List String :=
  ["xmm0", "xmm1", "xmm2", "xmm3", "xmm4", "xmm5", "xmm6", "xmm7",
   "xmm8", "xmm9", "xmm10", "xmm11", "xmm12", "xmm13", "xmm14", "xmm15"]

/-- The assembly name of a handle; a handle that names no register is `?`. -/
def name (r : Register) : String :=
  let names := if r.isGp then gpNames else if r.isXmm then xmmNames else []
  names[r.id.toNat]?.getD "?"

/-- The handle as traces show it. -/
def describe (r : Register) : String :=
  s!"AsmReg \x7b bank: {r.bank}, id: {r.id} \x7d"

end Register

end StackUnwind
