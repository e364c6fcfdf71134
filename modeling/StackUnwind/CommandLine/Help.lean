import StackUnwind.CommandLine.GivenOptions

/-!
What the command says about its options.
-/

namespace StackUnwind

/-- What an option is for. -/
def OptionName.purpose : OptionName → String
  | arch => "Recorder variant to run [default: x64] [possible values: x86, x64]"
  | hotSize => "Bytes of hot code in the unit"
  | totalSize => "Bytes of hot plus cold code; defaults to the hot size"
  | hotBase => "Base address of the hot code [default: 65536]"
  | root => "Root hot span, START:END with `-` for an absent marker [default: -:-]"
  | cold => "Root cold span; its presence splits the unit"
  | funclet => "Funclet as KIND:START:END, KIND being `handler` or `filter`"

/-- What a flag is for. -/
def Flag.purpose : Flag → String
  | fakeSplit => "Request fake procedure splitting (debug builds only)"
  | help => "Print help"

/-- The options and flags with their purposes, each set off by the letter it may be given by. -/
def helpEntries : List (String × String) :=
  (OptionName.all.map fun name => (s!"      {name.usage}", name.purpose)) ++
    [(s!"      {Flag.fakeSplit.usage}", Flag.fakeSplit.purpose),
     (s!"  -{Flag.helpLetter}, {Flag.help.usage}", Flag.help.purpose)]

/-- The width of the column of options, up to the purposes. -/
def helpColumn : Nat := (helpEntries.map (·.1.length)).foldl max 0 + 2

/-- A line of help. -/
def helpLine (entry : String × String) : String :=
  entry.1 ++ .ofList (List.replicate (helpColumn - entry.1.length) ' ') ++ entry.2 ++ "\n"

/-- The help as a text. -/
def helpText : String :=
  "Trace unwind info reservation and commit for one unit\n\n"
    ++ s!"Usage: unwind-trace [OPTIONS] {OptionName.hotSize.usage}\n\nOptions:\n"
    ++ String.join (helpEntries.map helpLine)

end StackUnwind
