import Mathlib.Data.Nat.Digits.Defs
import StackUnwind.Proofs.Outcome
import StackUnwind.Text.Numeral

namespace StackUnwind

/-- A character stands for a digit of a base. Letters stand for the digits from ten on, in either case. -/
def IsDigit (base : Nat) (c : Char) (digit : Nat) : Prop :=
  digit < base ∧ (c = digit.digitChar ∨ c = digit.digitChar.toUpper)

/-- A text is a number in digits of a base, of which there is at least one. -/
def IsNumeral (base : Nat) (cs : List Char) (n : Nat) : Prop :=
  cs ≠ [] ∧ ∃ digits, List.Forall₂ (IsDigit base) cs digits ∧ n = Nat.ofDigits base digits.reverse

/-- A text is a number with an optional plus sign. -/
def IsSignedNumeral (base : Nat) (cs : List Char) (n : Nat) : Prop :=
  IsNumeral base cs n ∨ ∃ digits, cs = '+' :: digits ∧ IsNumeral base digits n

variable {base limit n : Nat} {c : Char} {cs : List Char}

section Digits

variable {digit : Nat}

private theorem alphanumericValue?_digitChar :
    ∀ digit < 16, alphanumericValue? digit.digitChar = some digit ∧
      alphanumericValue? digit.digitChar.toUpper = some digit := by
  decide

/-- Below sixteen the value of a letter or digit determines it up to its case. -/
theorem eq_digitChar_of_alphanumericValue? (h : alphanumericValue? c = some digit) (hdigit : digit < 16) :
    c = digit.digitChar ∨ c = digit.digitChar.toUpper := by
  have hdecimal : ∀ d < 10, Char.ofNat (d + '0'.toNat) = d.digitChar := by decide
  have hlower : ∀ d < 6, Char.ofNat (d + 'a'.toNat) = (d + 10).digitChar := by decide
  have hupper : ∀ d < 6, Char.ofNat (d + 'A'.toNat) = (d + 10).digitChar.toUpper := by decide
  rw [← Char.ofNat_toNat c]
  unfold alphanumericValue? at h
  split_ifs at h with hc hc' hc''
  · have hle : '0'.toNat ≤ c.toNat ∧ c.toNat ≤ '9'.toNat := hc
    have heq : c.toNat = digit + '0'.toNat := by simp only [Option.some.injEq] at h; omega
    rw [heq, hdecimal digit (by simp at hle heq; omega)]
    exact .inl rfl
  · have hle : 'a'.toNat ≤ c.toNat ∧ c.toNat ≤ 'z'.toNat := hc'
    obtain ⟨letter, rfl⟩ : ∃ letter, digit = letter + 10 := ⟨digit - 10, by simp at h; omega⟩
    have heq : c.toNat = letter + 'a'.toNat := by simp only [Option.some.injEq] at h; omega
    rw [heq, hlower letter (by omega)]
    exact .inl rfl
  · have hle : 'A'.toNat ≤ c.toNat ∧ c.toNat ≤ 'Z'.toNat := hc''
    obtain ⟨letter, rfl⟩ : ∃ letter, digit = letter + 10 := ⟨digit - 10, by simp at h; omega⟩
    have heq : c.toNat = letter + 'A'.toNat := by simp only [Option.some.injEq] at h; omega
    rw [heq, hupper letter (by omega)]
    exact .inr rfl

/-- The value of a digit is the one the grammar gives it. -/
theorem digitValue?_eq_some_iff (hbase : base ≤ 16) : digitValue? base c = some digit ↔ IsDigit base c digit := by
  simp only [digitValue?, Option.filter_eq_some_iff, decide_eq_true_eq]
  constructor
  · rintro ⟨hvalue, hlt⟩
    exact ⟨hlt, eq_digitChar_of_alphanumericValue? hvalue (by omega)⟩
  · rintro ⟨hlt, hc⟩
    obtain ⟨hlower, hupper⟩ := alphanumericValue?_digitChar digit (by omega)
    refine ⟨?_, hlt⟩
    cases hc with
    | inl hc => exact hc ▸ hlower
    | inr hc => exact hc ▸ hupper

/-- The digit of a value has this value. -/
theorem isDigit_digitChar (h : digit < base) : IsDigit base digit.digitChar digit := ⟨h, .inl rfl⟩

/-- A digit is a letter or a digit, and so neither a sign nor a separator. -/
theorem IsDigit.isAlphanum (hbase : base ≤ 16) (h : IsDigit base c digit) : c.isAlphanum := by
  have hchars : ∀ d < 16, d.digitChar.isAlphanum ∧ d.digitChar.toUpper.isAlphanum := by decide
  obtain ⟨hlower, hupper⟩ := hchars digit (by have := h.1; omega)
  obtain rfl | rfl := h.2
  · exact hlower
  · exact hupper

end Digits

/-- Digits are read as a number in their base, which they continue. -/
theorem readDigits_eq_ok_iff (hbase : base ≤ 16) (hpos : 0 < base) {beyond : NumeralError} {value : Nat}
    (hvalue : value ≤ limit) :
    readDigits base limit beyond value cs = .ok n ↔
      ∃ digits, List.Forall₂ (IsDigit base) cs digits ∧
        n = Nat.ofDigits base digits.reverse + base ^ digits.length * value ∧ n ≤ limit := by
  induction cs generalizing value with
  | nil =>
    rw [readDigits]
    constructor
    · rintro ⟨⟩
      exact ⟨[], .nil, by simp, hvalue⟩
    · rintro ⟨digits, hdigits, rfl, -⟩
      cases hdigits
      simp
  | cons c cs ih =>
    have hnumber : ∀ digit digits,
        Nat.ofDigits base (digit :: digits).reverse + base ^ (digit :: digits).length * value
          = Nat.ofDigits base digits.reverse + base ^ digits.length * (base * value + digit) := by
      intro digit digits
      simp only [List.reverse_cons, Nat.ofDigits_append, Nat.ofDigits_singleton, List.length_reverse,
        List.length_cons]
      ring
    rw [readDigits]
    constructor
    · intro h
      split at h
      · cases h
      next digit hdigit =>
        split at h
        next hle =>
          obtain ⟨digits, hdigits, rfl, hn⟩ := (ih hle).1 h
          exact ⟨digit :: digits, .cons ((digitValue?_eq_some_iff hbase).1 hdigit) hdigits, (hnumber _ _).symm, hn⟩
        · cases h
    · rintro ⟨digits, hdigits, hn, hlimit⟩
      cases hdigits with
      | @cons _ digit _ digits hdigit hdigits =>
        rw [hnumber] at hn
        have hle : base * value + digit ≤ limit := by
          have := Nat.le_mul_of_pos_left (base * value + digit) (Nat.pow_pos (n := digits.length) hpos)
          omega
        rw [(digitValue?_eq_some_iff hbase).2 hdigit]
        simp only [hle, if_true]
        exact (ih hle).2 ⟨digits, hdigits, hn, hlimit⟩

private theorem readMagnitude_eq_ok_iff (hbase : base ≤ 16) (hpos : 0 < base) {beyond : NumeralError} :
    readMagnitude base limit beyond cs = .ok n ↔ IsNumeral base cs n ∧ n ≤ limit := by
  cases cs with
  | nil =>
    constructor
    · intro h
      cases h
    · rintro ⟨⟨hne, -⟩, -⟩
      exact absurd rfl hne
  | cons c cs =>
    rw [readMagnitude, readDigits_eq_ok_iff hbase hpos (Nat.zero_le _)]
    · constructor
      · rintro ⟨digits, hdigits, rfl, hn⟩
        exact ⟨⟨by simp, digits, hdigits, by simp⟩, hn⟩
      · rintro ⟨⟨-, digits, hdigits, rfl⟩, hn⟩
        exact ⟨digits, hdigits, by simp, hn⟩
    · simp

/-- A numeral is made of letters and digits, and so has neither signs nor separators in it. -/
theorem IsNumeral.isAlphanum (hbase : base ≤ 16) (h : IsNumeral base cs n) (hc : c ∈ cs) : c.isAlphanum := by
  obtain ⟨-, digits, hdigits, -⟩ := h
  induction hdigits with
  | nil => cases hc
  | cons hdigit _ ih =>
    cases hc with
    | head => exact hdigit.isAlphanum hbase
    | tail _ hc => exact ih hc

/-- A numeral has no characters but letters and digits. -/
theorem IsNumeral.not_mem (hbase : base ≤ 16) (h : IsNumeral base cs n) (hc : c.isAlphanum = false) : c ∉ cs := by
  intro hmem
  rw [h.isAlphanum hbase hmem] at hc
  cases hc

/-- The numerals within the limit, with or without a plus sign, are read, and nothing else is. -/
theorem readNatural_eq_ok_iff (hbase : base ≤ 16) (hpos : 0 < base) :
    readNatural base limit cs = .ok n ↔ IsSignedNumeral base cs n ∧ n ≤ limit := by
  unfold readNatural IsSignedNumeral
  split
  next =>
    constructor
    · intro h
      cases h
    · rintro ⟨⟨hne, -⟩ | ⟨digits, hcs, -⟩, -⟩
      · exact absurd rfl hne
      · cases hcs
  next cs =>
    rw [readMagnitude_eq_ok_iff hbase hpos]
    have hplus : ¬ IsNumeral base ('+' :: cs) n := fun h => h.not_mem hbase rfl List.mem_cons_self
    simp [hplus]
  next _ hplus =>
    rw [readMagnitude_eq_ok_iff hbase hpos]
    have hunsigned : ¬ ∃ digits, cs = '+' :: digits ∧ IsNumeral base digits n := by
      rintro ⟨digits, hcs, -⟩
      exact hplus digits hcs
    simp [hunsigned]

/-- One more digit at the end continues a number. -/
theorem IsNumeral.snoc {digit : Nat} (h : IsNumeral base cs n) (hdigit : IsDigit base c digit) :
    IsNumeral base (cs ++ [c]) (base * n + digit) := by
  obtain ⟨-, digits, hdigits, rfl⟩ := h
  refine ⟨by simp, digits ++ [digit], List.rel_append hdigits (.cons hdigit .nil), ?_⟩
  rw [List.reverse_append, List.reverse_singleton, List.singleton_append, Nat.ofDigits_cons]
  exact Nat.add_comm _ _

/-- Numbers are written as numerals. -/
theorem isNumeral_toDigits (hbase : 1 < base) (n : Nat) : IsNumeral base (Nat.toDigits base n) n := by
  induction n using Nat.strongRecOn with
  | ind n ih =>
    by_cases hn : n < base
    · rw [Nat.toDigits_of_lt_base hn]
      exact ⟨by simp, [n], .cons (isDigit_digitChar hn) .nil, by simp⟩
    · rw [Nat.toDigits_of_base_le hbase (by omega)]
      have hlt : n / base < n := Nat.div_lt_self (by omega) hbase
      have hdigit := isDigit_digitChar (Nat.mod_lt n (show 0 < base by omega))
      have h := (ih (n / base) hlt).snoc hdigit
      rwa [Nat.div_add_mod] at h

/-- A number that is written and within the limit is read back. -/
theorem readNatural_toDigits (hbase : 1 < base) (hbase' : base ≤ 16) (hlimit : n ≤ limit) :
    readNatural base limit (Nat.toDigits base n) = .ok n :=
  (readNatural_eq_ok_iff hbase' (by omega)).2 ⟨.inl (isNumeral_toDigits hbase n), hlimit⟩

end StackUnwind
