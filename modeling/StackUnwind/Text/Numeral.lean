/-!
Reading numerals: an optional sign, then digits of the given base, the whole bounded by the
range of the number's type. Digits are read from the left and the first thing wrong decides:
where a byte is wanted, `999x` is too large and `99x9` has an invalid digit.
-/

namespace StackUnwind

/-- Why a text is not the numeral of a number in range. -/
inductive NumeralError where
  | empty
  | invalidDigit
  | tooLarge
  | tooSmall
  deriving DecidableEq, Repr

namespace NumeralError

def message : NumeralError → String
  | empty => "cannot parse integer from empty string"
  | invalidDigit => "invalid digit found in string"
  | tooLarge => "number too large to fit in target type"
  | tooSmall => "number too small to fit in target type"

end NumeralError

/-- The value of a digit or letter, letters standing for ten onwards in either case. -/
def alphanumericValue? (c : Char) : Option Nat :=
  if '0' ≤ c ∧ c ≤ '9' then some (c.toNat - '0'.toNat)
  else if 'a' ≤ c ∧ c ≤ 'z' then some (c.toNat - 'a'.toNat + 10)
  else if 'A' ≤ c ∧ c ≤ 'Z' then some (c.toNat - 'A'.toNat + 10)
  else none

/-- The value of a character that is a digit in the given base. -/
def digitValue? (base : Nat) (c : Char) : Option Nat :=
  (alphanumericValue? c).filter (· < base)

/-- The value of a run of digits that continues the number `value`, at most `limit`; `beyond` is
    the complaint about a number that is larger. -/
def readDigits (base limit : Nat) (beyond : NumeralError) (value : Nat) :
    List Char → Except NumeralError Nat
  | [] => .ok value
  | c :: cs =>
    match digitValue? base c with
    | none => .error .invalidDigit
    | some digit =>
      if base * value + digit ≤ limit then
        readDigits base limit beyond (base * value + digit) cs
      else .error beyond

/-- The value of the digits after a sign, of which there has to be one. -/
def readMagnitude (base limit : Nat) (beyond : NumeralError) : List Char → Except NumeralError Nat
  | [] => .error .invalidDigit
  | cs => readDigits base limit beyond 0 cs

/-- A number of at most `limit`, in digits of `base` after an optional `+`. -/
def readNatural (base limit : Nat) : List Char → Except NumeralError Nat
  | [] => .error .empty
  | '+' :: cs => readMagnitude base limit .tooLarge cs
  | cs => readMagnitude base limit .tooLarge cs

/-- A decimal number from `-limit - 1` to `limit`, after an optional sign. -/
def readInteger (limit : Nat) : List Char → Except NumeralError Int
  | [] => .error .empty
  | '-' :: cs => do
    let n ← readMagnitude 10 (limit + 1) .tooSmall cs
    return -n
  | '+' :: cs => do
    let n ← readMagnitude 10 limit .tooLarge cs
    return n
  | cs => do
    let n ← readMagnitude 10 limit .tooLarge cs
    return n

end StackUnwind
