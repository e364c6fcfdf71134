import StackUnwind.Text.Blank

/-!
Settings of a compiled unit. The only one is fake procedure splitting: hot and cold code are
laid out in one piece and the root is reported as one undivided hot range, which exercises a
host's handling of split units without a cold allocation.
-/

namespace StackUnwind

/-- What a compiled unit is set up with. -/
structure Settings where
  /-- Whether fake procedure splitting was asked for. -/
  fakeSplitting : Bool := false
  deriving DecidableEq, Repr

namespace Settings

/-- The texts that switch a setting on. -/
def onTexts : List String := ["1", "true", "yes", "on"]

/-- Whether a text switches a setting on: blanks around it and the case of its ASCII letters do
    not matter. -/
def isOn (text : String) : Bool :=
  onTexts.any fun on => (trimBlank text.toList).map Char.toLower == on.toList

/-- The settings that the environment asks for, given the value of its variable if it is set. -/
def ofEnvironment (value? : Option String) : Settings :=
  { fakeSplitting := value?.any isOn }

/-- Fake splitting applies only to a unit that has cold code to hide. -/
def fakeSplittingActive (settings : Settings) (hasColdRegion : Bool) : Bool :=
  settings.fakeSplitting && hasColdRegion

end Settings

end StackUnwind
