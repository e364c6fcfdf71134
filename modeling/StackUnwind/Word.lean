import StackUnwind.Fault

/-!
Arithmetic on machine words. Sums and products are formed without bound and then have to fit
the word; `word32_eq_ok_iff` and its companions say exactly when they do.
-/

namespace StackUnwind

/-- The word of value `n`, which arose from `operation`. -/
def word32 (operation : Arithmetic) (n : Nat) : Except Fault UInt32 :=
  if n < 0x100000000 then .ok (.ofNat n) else .error (.overflow operation)

/-- The double word of value `n`, which arose from `operation`. -/
def word64 (operation : Arithmetic) (n : Nat) : Except Fault UInt64 :=
  if n < 0x10000000000000000 then .ok (.ofNat n) else .error (.overflow operation)

/-- The difference of two words, or zero where it would be negative. -/
def monus32 (a b : UInt32) : UInt32 := .ofNat (a.toNat - b.toNat)

/-- A number below the bound is one of a word. -/
theorem exists_word {n : Nat} (h : n < 0x100000000) : ∃ w : UInt32, n = w.toNat :=
  ⟨.ofNat n, (UInt32.toNat_ofNat_of_lt' h).symm⟩

/-- Arithmetic on words succeeds exactly if the result is a word. -/
theorem word32_eq_ok_iff {operation : Arithmetic} {n : Nat} {w : UInt32} :
    word32 operation n = .ok w ↔ n = w.toNat := by
  unfold word32
  split
  next h =>
    constructor
    · intro hw
      cases hw
      exact (UInt32.toNat_ofNat_of_lt' h).symm
    · rintro rfl
      simp
  next h =>
    constructor
    · intro hw
      cases hw
    · rintro rfl
      exact absurd w.toNat_lt h

/-- Otherwise it overflows. -/
theorem word32_eq_error_iff {operation : Arithmetic} {n : Nat} {f : Fault} :
    word32 operation n = .error f ↔ 0x100000000 ≤ n ∧ f = .overflow operation := by
  unfold word32
  split
  next h =>
    constructor
    · intro hw
      cases hw
    · rintro ⟨hle, -⟩
      exact absurd h (Nat.not_lt.2 hle)
  next h =>
    constructor
    · intro hw
      cases hw
      exact ⟨Nat.not_lt.1 h, rfl⟩
    · rintro ⟨-, rfl⟩
      rfl

/-- Arithmetic on words of 64 bits succeeds exactly if the result is one. -/
theorem word64_eq_ok_iff {operation : Arithmetic} {n : Nat} {w : UInt64} :
    word64 operation n = .ok w ↔ n = w.toNat := by
  unfold word64
  split
  next h =>
    constructor
    · intro hw
      cases hw
      exact (UInt64.toNat_ofNat_of_lt' h).symm
    · rintro rfl
      simp
  next h =>
    constructor
    · intro hw
      cases hw
    · rintro rfl
      exact absurd w.toNat_lt h

/-- It overflows where the result is none. -/
theorem word64_eq_error_iff {operation : Arithmetic} {n : Nat} {f : Fault} :
    word64 operation n = .error f ↔ 0x10000000000000000 ≤ n ∧ f = .overflow operation := by
  unfold word64
  split
  next h =>
    constructor
    · intro hw
      cases hw
    · rintro ⟨hle, -⟩
      exact absurd h (Nat.not_lt.2 hle)
  next h =>
    constructor
    · intro hw
      cases hw
      exact ⟨Nat.not_lt.1 h, rfl⟩
    · rintro ⟨-, rfl⟩
      rfl

/-- Subtraction stops at zero, as it does for numbers. -/
theorem toNat_monus32 (a b : UInt32) :
    (monus32 a b).toNat = a.toNat - b.toNat :=
  UInt32.toNat_ofNat_of_lt' (Nat.lt_of_le_of_lt (Nat.sub_le ..) a.toNat_lt)

end StackUnwind
