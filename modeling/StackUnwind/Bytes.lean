/-!
Numbers and bytes. Words are written least significant byte first; bytes are shown as two
hexadecimal digits each.
-/

namespace StackUnwind

/-- The `width` low bytes of a number, least significant first. -/
def littleEndian : (width : Nat) → Nat → List UInt8
  | 0, _ => []
  | width + 1, n => .ofNat n :: littleEndian width (n / 256)

/-- A number is written in as many bytes as asked for, whatever its size. -/
@[simp] theorem length_littleEndian (width n : Nat) : (littleEndian width n).length = width := by
  induction width generalizing n with
  | zero => rfl
  | succ width ih => simp [littleEndian, ih]

/-- The two hexadecimal digits of a byte. -/
def hexByte (b : UInt8) : List Char :=
  [Nat.digitChar (b.toNat / 16), Nat.digitChar (b.toNat % 16)]

/-- Bytes in hexadecimal, two digits each and nothing between them. -/
def hexBytes (bytes : List UInt8) : String := .ofList (bytes.flatMap hexByte)

/-- A number in hexadecimal, as addresses are shown. -/
def hexNumber (n : Nat) : String := "0x" ++ .ofList (Nat.toDigits 16 n)

end StackUnwind
