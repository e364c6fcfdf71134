/-!
Terminal control sequences. A text for a terminal may hold sequences of characters, introduced by
an escape character, that are not shown but change how or where text is shown. `plainText` is
the text without them, and without the other control characters except for layout.
-/

namespace StackUnwind

/-- What a character of a terminal text is part of. -/
inductive SequenceState where
  /-- Text to be shown. -/
  | text
  /-- A sequence of which only the escape character has been read. -/
  | escape
  /-- An escape sequence that has to be ended by one more character. -/
  | intermediate
  /-- A control sequence: parameters, and a letter that ends it. -/
  | control
  /-- A device control string before its parameters. -/
  | deviceStart
  /-- A device control string in its parameters. -/
  | deviceParameter
  /-- A device control string after its parameters. -/
  | deviceIntermediate
  /-- A string for the device, or one without a meaning. -/
  | string
  /-- A command for the operating system. -/
  | command
  deriving DecidableEq, Repr

/-- Layout characters: tabulator, line feed, form feed and carriage return. -/
def isLayout (c : Char) : Bool :=
  c == '\t' || c == '\n' || c == '\x0C' || c == '\r'

/-- Whether a character of text is shown: all are but for the control characters of ASCII, of
    which layout is. -/
def isShown (c : Char) : Bool :=
  (' ' ≤ c && c != '\x7F') || isLayout c

/-- Whether a character holds the byte that ends a string, in the encoding that is sent to the
    terminal. -/
def hasTerminator (c : Char) : Bool :=
  (String.utf8EncodeChar c).contains 0x9C

namespace SequenceState

/-- Whether layout has its effect within a sequence. -/
def executes : SequenceState → Bool
  | text | escape | intermediate | control => true
  | deviceStart | deviceParameter | deviceIntermediate | string | command => false

/-- What follows the character that tells the kind of a sequence. -/
def ofIntroducer (c : Char) : SequenceState :=
  if c = '[' then control
  else if c = 'P' then deviceStart
  else if c = ']' then command
  else if c = 'X' ∨ c = '^' ∨ c = '_' then string
  else if ' ' ≤ c ∧ c ≤ '/' then intermediate
  else if '0' ≤ c ∧ c ≤ '~' then text
  else escape

/-- What follows a character that neither cancels the sequence nor begins another. -/
def continued : SequenceState → Char → SequenceState
  | text, _ => text
  | escape, c => ofIntroducer c
  | intermediate, c => if '0' ≤ c ∧ c ≤ '~' then text else intermediate
  | control, c => if '@' ≤ c ∧ c ≤ '~' then text else control
  | deviceStart, c =>
    if ' ' ≤ c ∧ c ≤ '/' then deviceIntermediate
    else if '0' ≤ c ∧ c ≤ '?' then deviceParameter
    else if '@' ≤ c ∧ c ≤ '~' then string
    else deviceStart
  | deviceParameter, c =>
    if ' ' ≤ c ∧ c ≤ '/' then deviceIntermediate
    else if '<' ≤ c ∧ c ≤ '~' then string
    else deviceParameter
  | deviceIntermediate, c => if '0' ≤ c ∧ c ≤ '~' then string else deviceIntermediate
  | string, c => if hasTerminator c then text else string
  | command, c => if c = '\x07' then text else command

/-- What follows a character. An escape character always begins a sequence, and two control
    characters cancel the one that is being read. -/
def next (s : SequenceState) (c : Char) : SequenceState :=
  if c = '\x1B' then escape
  else if c = '\x18' ∨ c = '\x1A' then text
  else s.continued c

end SequenceState

/-- A reader of a terminal text. Layout within a sequence is shown and suspends the sequence:
    text follows, which lasts until a control character other than layout. -/
structure SequenceReader where
  state : SequenceState := .text
  suspended : Bool := false
  deriving DecidableEq, Repr

namespace SequenceReader

/-- Whether a character is shown, and the reader after it. -/
def step (r : SequenceReader) (c : Char) : Bool × SequenceReader :=
  if r.suspended || r.state == .text then
    if isShown c then (true, if c.toNat < 128 then r else {})
    else (false, { state := r.state.next c })
  else if r.state.executes && isLayout c then (true, { r with suspended := true })
  else (false, { state := r.state.next c })

/-- The characters that are shown. -/
def shown (r : SequenceReader) : List Char → List Char
  | [] => []
  | c :: cs =>
    match r.step c with
    | (true, r) => c :: r.shown cs
    | (false, r) => r.shown cs

end SequenceReader

/-- A terminal text as far as it is shown. -/
def plainText (text : String) : String :=
  .ofList (({} : SequenceReader).shown text.toList)

end StackUnwind
