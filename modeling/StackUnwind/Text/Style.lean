/-!
Styles of terminal text. A style is switched on before the text it applies to and off after it.
-/

namespace StackUnwind

/-- A way of showing text. -/
inductive Style where
  /-- The word that announces an error. -/
  | error
  /-- A part of the input that is not accepted. -/
  | invalid
  /-- A part of the input that would be accepted. -/
  | valid
  /-- Something to be typed as it stands. -/
  | literal
  deriving DecidableEq, Repr

namespace Style

/-- The control sequences that switch a style on. -/
def on : Style → String
  | error => "\x1B[1m\x1B[31m"
  | invalid => "\x1B[33m"
  | valid => "\x1B[32m"
  | literal => "\x1B[1m"

/-- The control sequence that switches all styles off. -/
def off : String := "\x1B[0m"

/-- A text in a style. -/
def paint (style : Style) (text : String) : String := style.on ++ text ++ off

end Style

end StackUnwind
