import StackUnwind.Register

/-!
What a code generator reports about the prologs and epilogs it writes: the four frame
operations, the brackets around them, and the phases that the brackets lead through.
-/

namespace StackUnwind

/-- One step of setting a frame up, as the unwinder has to know it. -/
inductive PrologOp where
  /-- A callee-saved register was pushed. -/
  | push (reg : Register)
  /-- The stack pointer was lowered by `size` bytes. -/
  | alloc (size : UInt32)
  /-- `reg` became the frame pointer, at `offset` bytes above the stack pointer. -/
  | setFrame (reg : Register) (offset : UInt32)
  /-- A callee-saved register was stored at `offset` bytes above the stack pointer. -/
  | save (reg : Register) (offset : UInt32)
  deriving DecidableEq, Repr

namespace PrologOp

/-- The operation's name in complaints about where it was reported. -/
def keyword : PrologOp → String
  | push _ => "push"
  | alloc _ => "alloc_stack"
  | setFrame _ _ => "set_frame_reg"
  | save _ _ => "save_reg"

/-- The operation as traces show it. -/
def describe : PrologOp → String
  | push reg => s!"PushNonvol \x7b reg: {reg.describe} \x7d"
  | alloc size => s!"AllocStack \x7b size: {size} \x7d"
  | setFrame reg offset => s!"SetFrameReg \x7b reg: {reg.describe}, offset: {offset} \x7d"
  | save reg offset => s!"SaveReg \x7b reg: {reg.describe}, offset: {offset} \x7d"

end PrologOp

/-- What is reported while code is written. Operations belong inside a bracket: one prolog
    bracket first, then any number of epilog brackets. -/
inductive FrameEvent where
  | beginProlog
  | endProlog
  | beginEpilog
  | endEpilog
  | op (op : PrologOp)
  deriving DecidableEq, Repr

/-- Where a function is between its brackets. -/
inductive Phase where
  | beforeProlog
  | inProlog
  | body
  | inEpilog
  deriving DecidableEq, Repr

namespace Phase

def name : Phase → String
  | beforeProlog => "BeforeProlog"
  | inProlog => "InProlog"
  | body => "Body"
  | inEpilog => "InEpilog"

/-- Whether frame operations may be reported. -/
def isBracket : Phase → Bool
  | inProlog | inEpilog => true
  | beforeProlog | body => false

end Phase

end StackUnwind
