import StackUnwind.CommandLine.GivenOptions

/-!
The command line. Arguments are read from left to right. The value of an option may be attached
with `=` or follow as the next argument; in the second case the option is settled only when the
next option begins or the arguments end, so an argument that is not understood is reported
first.
-/

namespace StackUnwind

/-- An argument by its dashes. -/
inductive Argument where
  /-- `--name` or `--name=value`. -/
  | long (name : String) (value : Option String)
  /-- A single dash and at least one more character. -/
  | short (c : Char)
  /-- `--` alone. -/
  | escape
  | plain (text : String)
  deriving DecidableEq, Repr

namespace Argument

/-- A text is told to be an option by its dashes; a single dash is none. -/
def ofString (text : String) : Argument :=
  match text.toList with
  | ['-', '-'] => escape
  | '-' :: '-' :: rest =>
    match splitOnce? '=' rest with
    | some (name, value) => long (.ofList name) (some (.ofList value))
    | none => long (.ofList rest) none
  | '-' :: c :: _ => short c
  | _ => plain text

end Argument

/-- What a command line asks for. -/
inductive Request where
  /-- To be told what the options are. -/
  | help
  /-- To trace the unit that is described. -/
  | trace (commandLine : CommandLine)
  deriving DecidableEq, Repr

/-- Arguments read up to some point. -/
structure ArgumentScan where
  given : GivenOptions := {}
  /-- The last option, as long as it is not settled, and its value once that is known. -/
  pending : Option (OptionName × Option String) := none
  deriving DecidableEq, Repr

namespace ArgumentScan

/-- Settle the last option. -/
def settle (s : ArgumentScan) : Except ArgumentError GivenOptions :=
  match s.pending with
  | none => .ok s.given
  | some (name, none) => .error (.valueMissing name)
  | some (name, some value) => s.given.accept name value

/-- Read the value of an option. Whatever came before is settled first. -/
def option (s : ArgumentScan) (name : OptionName) (value : Option String) :
    Except ArgumentError ArgumentScan := do
  let given ← s.settle
  match value with
  | none => return { given, pending := some (name, none) }
  | some value => return { given := ← given.accept name value }

/-- Settle what came before a flag, which must not have a value. -/
def flag (s : ArgumentScan) (flag : Flag) (value : Option String) :
    Except ArgumentError GivenOptions :=
  match value with
  | some value => .error (.valueNotNeeded flag value)
  | none => s.settle

/-- Read arguments up to their end, or up to the question what the options are. Nothing may
    follow `--`. -/
def finish (s : ArgumentScan) : List String → Except ArgumentError Request
  | [] => do return .trace (← (← s.settle).complete)
  | argument :: arguments =>
    match Argument.ofString argument with
    | .long name value =>
      match Flag.ofLong? name, OptionName.ofLong? name with
      | some .fakeSplit, _ => do
        finish { given := ← (← s.flag .fakeSplit value).acceptFakeSplit } arguments
      | some .help, _ => do
        let _ ← s.flag .help value
        return .help
      | none, some name => do finish (← s.option name value) arguments
      | none, none => .error (.unexpected s!"--{name}")
    | .short c =>
      if c = Flag.helpLetter then do
        let _ ← s.flag .help none
        return .help
      else .error (.unexpected s!"-{c}")
    | .escape =>
      match arguments with
      | [] => do return .trace (← (← s.settle).complete)
      | next :: _ => .error (.unexpected next)
    | .plain text =>
      match s.pending with
      | some (name, none) => finish { s with pending := some (name, some text) } arguments
      | some (_, some _) | none => .error (.unexpected text)

end ArgumentScan

/-- Read a command line. -/
def Request.ofArguments (arguments : List String) : Except ArgumentError Request :=
  ArgumentScan.finish {} arguments

end StackUnwind
