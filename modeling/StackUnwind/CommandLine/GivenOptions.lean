import StackUnwind.CommandLine.TypedSpan
import StackUnwind.Recorder
import StackUnwind.Text.Style

/-!
The options of the command line: which there are, how their values are read, and what they say
about a unit. Options may be given in any order and, but for funclets, only once.
-/

namespace StackUnwind

/-- A unit as the command line describes it. -/
structure CommandLine where
  arch : Arch := .x64
  hotSize : UInt32
  /-- The number of bytes of hot and cold code, if it is not that of the hot code. -/
  totalSize : Option UInt32 := none
  hotBase : UInt64 := 0x10000
  root : TypedSpan := {}
  cold : Option TypedSpan := none
  funclets : List TypedFunclet := []
  fakeSplit : Bool := false
  deriving DecidableEq, Repr

/-- The options that take a value. -/
inductive OptionName where
  | arch
  | hotSize
  | totalSize
  | hotBase
  | root
  | cold
  | funclet
  deriving DecidableEq, Repr

namespace OptionName

/-- The name of an option without its dashes. -/
def long : OptionName → String
  | arch => "arch"
  | hotSize => "hot-size"
  | totalSize => "total-size"
  | hotBase => "hot-base"
  | root => "root"
  | cold => "cold"
  | funclet => "funclet"

/-- The placeholder for the value of an option. -/
def placeholder : OptionName → String
  | arch => "ARCH"
  | hotSize => "HOT_SIZE"
  | totalSize => "TOTAL_SIZE"
  | hotBase => "HOT_BASE"
  | root => "ROOT"
  | cold => "COLD"
  | funclet => "FUNCLET"

def all : List OptionName := [arch, hotSize, totalSize, hotBase, root, cold, funclet]

/-- The option of the given name. Names are not abbreviated. -/
def ofLong? (name : String) : Option OptionName := all.find? (·.long == name)

/-- The option with its placeholder. -/
def usage (o : OptionName) : String := s!"--{o.long} <{o.placeholder}>"

end OptionName

/-- The options without a value. -/
inductive Flag where
  | fakeSplit
  /-- Asks what the options are. -/
  | help
  deriving DecidableEq, Repr

namespace Flag

/-- The name of a flag without its dashes. -/
def long : Flag → String
  | fakeSplit => "fake-split"
  | help => "help"

def all : List Flag := [fakeSplit, help]

/-- The flag of the given name. Names are not abbreviated. -/
def ofLong? (name : String) : Option Flag := all.find? (·.long == name)

def usage (flag : Flag) : String := s!"--{flag.long}"

/-- The letter that asks what the options are. -/
def helpLetter : Char := 'h'

end Flag

/-- Why a command line is refused. -/
inductive ArgumentError where
  | unexpected (argument : String)
  /-- An option is given without its value. -/
  | valueMissing (name : OptionName)
  /-- An option or a flag that may be given once is given again. -/
  | repeated (usage : String)
  | invalidValue (name : OptionName) (value : String) (reason : Option String)
  /-- A value is given to a flag. -/
  | valueNotNeeded (flag : Flag) (value : String)
  | hotSizeMissing
  deriving DecidableEq, Repr

namespace ArgumentError

/-- What is wrong, with styles. A reason is given in no style. -/
def message : ArgumentError → String
  | unexpected argument => s!"unexpected argument '{invalid argument}' found"
  | valueMissing name =>
    s!"a value is required for '{invalid name.usage}' but none was supplied"
  | repeated usage => s!"the argument '{invalid usage}' cannot be used multiple times"
  | invalidValue name value reason =>
    s!"invalid value '{invalid value}' for '{literal name.usage}'" ++
      match reason with
      | none => ""
      | some reason => s!": {reason}"
  | valueNotNeeded flag value =>
    s!"unexpected value '{invalid value}' for '{literal flag.usage}' found; "
      ++ "no more were expected"
  | hotSizeMissing =>
    "the following required arguments were not provided:\n  "
      ++ Style.valid.paint OptionName.hotSize.usage
where
  invalid (text : String) : String := Style.invalid.paint text
  literal (text : String) : String := Style.literal.paint text

/-- All that is said about a refused command line, with styles. -/
def complaint (e : ArgumentError) : String :=
  s!"{Style.error.paint announcement} {e.message}\n\n"
    ++ s!"For more information, try '{Style.literal.paint Flag.help.usage}'.\n"
where
  announcement : String := "error:"

end ArgumentError

/-- The options given so far. -/
structure GivenOptions where
  arch : Option Arch := none
  hotSize : Option UInt32 := none
  totalSize : Option UInt32 := none
  hotBase : Option UInt64 := none
  root : Option TypedSpan := none
  cold : Option TypedSpan := none
  funclets : List TypedFunclet := []
  fakeSplit : Bool := false
  deriving DecidableEq, Repr

namespace GivenOptions

/-- An architecture. An empty name counts as a missing value. -/
def readArch (value : String) : Except ArgumentError Arch :=
  match value with
  | "x86" => .ok .x86
  | "x64" => .ok .x64
  | "" => .error (.valueMissing .arch)
  | value => .error (.invalidValue .arch value none)

/-- A size. Numbers outside of the range of a word are told apart from numbers that cannot be
    read at all. -/
def readSize (name : OptionName) (value : String) : Except ArgumentError UInt32 :=
  match readInteger 0x7fffffffffffffff value.toList with
  | .error cause => .error (.invalidValue name value (some cause.message))
  | .ok n =>
    if 0 ≤ n ∧ n ≤ maxOffset then .ok (.ofNat n.toNat)
    else .error (.invalidValue name value (some s!"{n} is not in 0..={maxOffset}"))

/-- A decimal address. -/
def readAddress (name : OptionName) (value : String) : Except ArgumentError UInt64 :=
  match readNatural 10 0xffffffffffffffff value.toList with
  | .error cause => .error (.invalidValue name value (some cause.message))
  | .ok n => .ok (.ofNat n)

/-- Read a value by the rule for spans or funclets. -/
def readBy {α : Type} (read : List Char → Except SpanError α) (name : OptionName)
    (value : String) : Except ArgumentError α :=
  (read value.toList).mapError fun e => .invalidValue name value (some e.message)

/-- The value of an option that may be given only once. -/
def once {α : Type} (old : Option α) (name : OptionName)
    (read : OptionName → String → Except ArgumentError α) (value : String) :
    Except ArgumentError (Option α) :=
  if old.isSome then .error (.repeated name.usage) else some <$> read name value

/-- Give an option its value. -/
def accept (given : GivenOptions) (name : OptionName) (value : String) :
    Except ArgumentError GivenOptions :=
  match name with
  | .arch => return { given with arch := ← once given.arch name (fun _ => readArch) value }
  | .hotSize => return { given with hotSize := ← once given.hotSize name readSize value }
  | .totalSize => return { given with totalSize := ← once given.totalSize name readSize value }
  | .hotBase => return { given with hotBase := ← once given.hotBase name readAddress value }
  | .root => return { given with root := ← once given.root name (readBy TypedSpan.read) value }
  | .cold => return { given with cold := ← once given.cold name (readBy TypedSpan.read) value }
  | .funclet =>
    return { given with
      funclets := given.funclets ++ [← readBy TypedFunclet.read name value] }

/-- Give the flag for fake splitting. -/
def acceptFakeSplit (given : GivenOptions) : Except ArgumentError GivenOptions :=
  if given.fakeSplit then .error (.repeated Flag.fakeSplit.usage)
  else .ok { given with fakeSplit := true }

/-- Complete the options with defaults. Only the size of the hot code has none. -/
def complete (given : GivenOptions) : Except ArgumentError CommandLine :=
  match given.hotSize with
  | none => .error .hotSizeMissing
  | some hotSize => .ok {
      arch := given.arch.getD .x64
      hotSize, totalSize := given.totalSize
      hotBase := given.hotBase.getD 0x10000
      root := given.root.getD {}
      cold := given.cold, funclets := given.funclets, fakeSplit := given.fakeSplit }

end GivenOptions

end StackUnwind
