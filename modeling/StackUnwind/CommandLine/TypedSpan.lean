import StackUnwind.FunctionSet
import StackUnwind.Text.Numeral
import StackUnwind.Text.Split

/-!
Spans as they are typed: two offsets with a colon between them, either of which may be `-` for
none. An offset is decimal, or hexadecimal after `0x`. A funclet is a kind, a colon and a span.
-/

namespace StackUnwind

/-- The offsets of a typed span. -/
structure TypedSpan where
  start : Option UInt32 := none
  stop : Option UInt32 := none
  deriving DecidableEq, Repr

/-- A typed funclet. -/
structure TypedFunclet where
  kind : Kind
  span : TypedSpan
  deriving DecidableEq, Repr

/-- Why a text is not a span or a funclet. -/
inductive SpanError where
  /-- A span has no colon. -/
  | notSpan (text : List Char)
  /-- A funclet has no colon. -/
  | notFunclet (text : List Char)
  | unknownKind (text : List Char)
  | invalidOffset (text : List Char) (cause : NumeralError)
  deriving DecidableEq, Repr

namespace SpanError

def message : SpanError → String
  | notSpan text => s!"expected START:END, got `{String.ofList text}`"
  | notFunclet text => s!"expected KIND:START:END, got `{String.ofList text}`"
  | unknownKind text => s!"unknown funclet kind `{String.ofList text}`"
  | invalidOffset text cause => s!"invalid offset `{String.ofList text}`: {cause.message}"

end SpanError

/-- The largest offset. -/
def maxOffset : Nat := 0xffffffff

/-- The number that the text of an offset stands for. -/
def readOffsetNumber : List Char → Except NumeralError Nat
  | '0' :: 'x' :: digits => readNatural 16 maxOffset digits
  | text => readNatural 10 maxOffset text

/-- The offset that a text stands for, if any. -/
def readOffset (text : List Char) : Except SpanError (Option UInt32) :=
  if text = ['-'] then .ok none
  else
    match readOffsetNumber text with
    | .ok n => .ok (some (.ofNat n))
    | .error cause => .error (.invalidOffset text cause)

namespace TypedSpan

/-- Two offsets around the first colon. A second colon spoils the stop. -/
def read (text : List Char) : Except SpanError TypedSpan :=
  match splitOnce? ':' text with
  | none => .error (.notSpan text)
  | some (start, stop) => return ⟨← readOffset start, ← readOffset stop⟩

end TypedSpan

/-- The kind of a funclet. -/
def readFuncletKind (text : List Char) : Except SpanError Kind :=
  if text = Kind.handler.name.toList then .ok .handler
  else if text = Kind.filter.name.toList then .ok .filter
  else .error (.unknownKind text)

namespace TypedFunclet

/-- A kind before the first colon and a span after it. -/
def read (text : List Char) : Except SpanError TypedFunclet :=
  match splitOnce? ':' text with
  | none => .error (.notFunclet text)
  | some (kind, span) => return ⟨← readFuncletKind kind, ← TypedSpan.read span⟩

end TypedFunclet

end StackUnwind
