import StackUnwind.Bytes
import StackUnwind.CommandLine.TypedSpan
import StackUnwind.Proofs.Text.Numeral

namespace StackUnwind

/-- A text is an offset: a decimal number, or a hexadecimal one after `0x`. -/
inductive IsOffset : List Char → Nat → Prop where
  | decimal {cs : List Char} {n : Nat} (h : IsSignedNumeral 10 cs n) : IsOffset cs n
  | hexadecimal {cs : List Char} {n : Nat} (h : IsSignedNumeral 16 cs n) : IsOffset ('0' :: 'x' :: cs) n

/-- How an offset is written. -/
inductive Radix where
  | decimal
  | hexadecimal
  deriving DecidableEq, Repr

/-- The text of an offset. -/
def Radix.write : Radix → UInt32 → List Char
  | decimal, offset => Nat.toDigits 10 offset.toNat
  | hexadecimal, offset => (hexNumber offset.toNat).toList

/-- The text of an offset that may be left to the boundary of its region. -/
def writeOffset (radix : Radix) : Option UInt32 → List Char
  | none => ['-']
  | some offset => radix.write offset

namespace TypedSpan

/-- The text of a span. -/
def write (start stop : Radix) (span : TypedSpan) : List Char :=
  writeOffset start span.start ++ ':' :: writeOffset stop span.stop

end TypedSpan

namespace TypedFunclet

/-- The text of a funclet. -/
def write (start stop : Radix) (funclet : TypedFunclet) : List Char :=
  funclet.kind.name.toList ++ ':' :: funclet.span.write start stop

end TypedFunclet

section Offsets

variable {cs : List Char} {n : Nat} {offset : UInt32}

/-- The letter after the zero tells the two ways to write an offset apart. -/
theorem not_isSignedNumeral_hexadecimal : ¬ IsSignedNumeral 10 ('0' :: 'x' :: cs) n := by
  rintro (⟨-, digits, hdigits, -⟩ | ⟨digits, hcs, -⟩)
  · have hx : ∀ d < 10, ¬ ('x' = d.digitChar ∨ 'x' = d.digitChar.toUpper) := by decide
    cases hdigits with
    | cons _ hdigits =>
      cases hdigits with
      | cons hdigit _ => exact hx _ hdigit.1 hdigit.2
  · cases hcs

private theorem readOffsetNumber_eq_ok_iff : readOffsetNumber cs = .ok n ↔ IsOffset cs n ∧ n ≤ maxOffset := by
  unfold readOffsetNumber
  split
  next digits =>
    rw [readNatural_eq_ok_iff (by decide) (by decide)]
    refine and_congr_left fun _ => ⟨.hexadecimal, fun h => ?_⟩
    cases h with
    | decimal h => exact absurd h not_isSignedNumeral_hexadecimal
    | hexadecimal h => exact h
  next _ hdecimal =>
    rw [readNatural_eq_ok_iff (by decide) (by decide)]
    refine and_congr_left fun _ => ⟨.decimal, fun h => ?_⟩
    cases h with
    | decimal h => exact h
    | hexadecimal h => exact absurd rfl (hdecimal _)

/-- Letters and digits are all that stands in a numeral after its sign. -/
theorem IsSignedNumeral.not_mem {base : Nat} {c : Char} (hbase : base ≤ 16) (h : IsSignedNumeral base cs n)
    (hc : c.isAlphanum = false) (hplus : c ≠ '+') : c ∉ cs := by
  obtain h | ⟨digits, rfl, h⟩ := h
  · exact h.not_mem hbase hc
  · exact List.not_mem_cons_of_ne_of_not_mem hplus (h.not_mem hbase hc)

private theorem IsOffset.not_mem {c : Char} (h : IsOffset cs n) (hc : c.isAlphanum = false) (hplus : c ≠ '+') :
    c ∉ cs := by
  cases h with
  | decimal h => exact h.not_mem (by decide) hc hplus
  | hexadecimal h =>
    have hne : ∀ d : Char, d.isAlphanum = true → c ≠ d := by
      rintro d hd rfl
      rw [hd] at hc
      cases hc
    apply List.not_mem_cons_of_ne_of_not_mem (hne '0' rfl)
    apply List.not_mem_cons_of_ne_of_not_mem (hne 'x' rfl)
    exact h.not_mem (by decide) hc hplus

/-- A dash, and only a dash, leaves an offset to the boundary of its region. -/
theorem readOffset_eq_ok_none_iff : readOffset cs = .ok none ↔ cs = ['-'] := by
  unfold readOffset
  split
  · simp_all
  · split <;> simp_all

private theorem readOffset_eq_ok_some_iff : readOffset cs = .ok (some offset) ↔ IsOffset cs offset.toNat := by
  have hle : offset.toNat ≤ maxOffset := Nat.le_of_lt_succ offset.toNat_lt
  unfold readOffset
  split
  next hdash =>
    constructor
    · rintro ⟨⟩
    · intro h
      exact absurd (hdash ▸ List.mem_singleton_self '-') (h.not_mem rfl (by decide))
  next =>
    constructor
    · intro h
      split at h
      next n hn =>
        obtain ⟨hoffset, hlimit⟩ := readOffsetNumber_eq_ok_iff.1 hn
        cases h
        rwa [UInt32.toNat_ofNat_of_lt' (Nat.lt_succ_of_le hlimit)]
      · cases h
    · intro h
      rw [readOffsetNumber_eq_ok_iff.2 ⟨h, hle⟩]
      simp

private theorem exists_error_readOffset_iff :
    (∃ e, readOffset cs = .error e) ↔ cs ≠ ['-'] ∧ ∀ n ≤ maxOffset, ¬ IsOffset cs n := by
  constructor
  · rintro ⟨e, h⟩
    refine ⟨fun hdash => ?_, fun n hn hoffset => ?_⟩
    · rw [readOffset_eq_ok_none_iff.2 hdash] at h
      cases h
    · have hnat : (UInt32.ofNat n).toNat = n := UInt32.toNat_ofNat_of_lt' (Nat.lt_succ_of_le hn)
      rw [readOffset_eq_ok_some_iff.2 (hnat.symm ▸ hoffset)] at h
      cases h
  · rintro ⟨hdash, hoffset⟩
    cases h : readOffset cs with
    | error e => exact ⟨e, rfl⟩
    | ok o =>
      cases o with
      | none => exact absurd (readOffset_eq_ok_none_iff.1 h) hdash
      | some offset =>
        exact absurd (readOffset_eq_ok_some_iff.1 h) (hoffset _ (Nat.le_of_lt_succ offset.toNat_lt))

/-- No offset has a colon in it. -/
theorem colon_not_mem_of_readOffset {o : Option UInt32} (h : readOffset cs = .ok o) : ':' ∉ cs := by
  cases o with
  | none => simp [readOffset_eq_ok_none_iff.1 h]
  | some offset => exact (readOffset_eq_ok_some_iff.1 h).not_mem rfl (by decide)

private theorem isOffset_write (radix : Radix) (offset : UInt32) : IsOffset (radix.write offset) offset.toNat := by
  cases radix with
  | decimal => exact .decimal (.inl (isNumeral_toDigits (by decide) _))
  | hexadecimal =>
    have htext : Radix.write .hexadecimal offset = '0' :: 'x' :: Nat.toDigits 16 offset.toNat := by
      simp [Radix.write, hexNumber]
    rw [htext]
    exact .hexadecimal (.inl (isNumeral_toDigits (by decide) _))

private theorem readOffset_writeOffset (radix : Radix) (o : Option UInt32) :
    readOffset (writeOffset radix o) = .ok o := by
  cases o with
  | none => exact readOffset_eq_ok_none_iff.2 rfl
  | some offset => exact readOffset_eq_ok_some_iff.2 (isOffset_write radix offset)

end Offsets

namespace TypedSpan

variable {cs : List Char} {span : TypedSpan}

private theorem read_eq_ok_iff :
    read cs = .ok span ↔
      ∃ start stop, cs = start ++ ':' :: stop ∧ ':' ∉ start ∧
        readOffset start = .ok span.start ∧ readOffset stop = .ok span.stop := by
  unfold read
  split
  next hsplit =>
    constructor
    · rintro ⟨⟩
    · rintro ⟨start, stop, hcs, hcolon, -, -⟩
      rw [splitOnce?_eq_some_iff.2 ⟨hcs, hcolon⟩] at hsplit
      cases hsplit
  next start stop hsplit =>
    simp only [bind_eq_ok_iff, pure_eq_ok_iff]
    constructor
    · rintro ⟨a, ha, b, hb, rfl⟩
      obtain ⟨hcs, hcolon⟩ := splitOnce?_eq_some_iff.1 hsplit
      exact ⟨start, stop, hcs, hcolon, ha, hb⟩
    · rintro ⟨start', stop', hcs, hcolon, ha, hb⟩
      have heq := splitOnce?_eq_some_iff.2 ⟨hcs, hcolon⟩
      rw [hsplit] at heq
      cases heq
      exact ⟨span.start, ha, span.stop, hb, rfl⟩

/-- A span has one colon. -/
theorem count_colon_of_read (h : read cs = .ok span) : cs.count ':' = 1 := by
  obtain ⟨start, stop, rfl, hcolon, -, hstop⟩ := read_eq_ok_iff.1 h
  simp [List.count_eq_zero_of_not_mem hcolon, List.count_eq_zero_of_not_mem (colon_not_mem_of_readOffset hstop)]

private theorem read_write (start stop : Radix) (span : TypedSpan) : read (span.write start stop) = .ok span := by
  have hstart := readOffset_writeOffset start span.start
  exact read_eq_ok_iff.2
    ⟨_, _, rfl, colon_not_mem_of_readOffset hstart, hstart, readOffset_writeOffset stop span.stop⟩

end TypedSpan

private theorem readFuncletKind_eq_ok_iff {cs : List Char} {kind : Kind} :
    readFuncletKind cs = .ok kind ↔ kind.isFunclet ∧ cs = kind.name.toList := by
  unfold readFuncletKind
  cases kind with
  | root => split_ifs <;> simp [Kind.isFunclet]
  | handler => split_ifs with hhandler hfilter <;> simp_all [Kind.isFunclet]
  | filter => split_ifs with hhandler hfilter <;> simp_all [Kind.isFunclet, Kind.name]

private theorem Kind.colon_not_mem_name (kind : Kind) : ':' ∉ kind.name.toList := by
  cases kind <;> decide

namespace TypedFunclet

variable {cs : List Char} {funclet : TypedFunclet}

/-- A funclet is the name of its kind and its span, with a colon between them. -/
theorem read_eq_ok_iff :
    read cs = .ok funclet ↔
      ∃ span, cs = funclet.kind.name.toList ++ ':' :: span ∧ funclet.kind.isFunclet ∧
        TypedSpan.read span = .ok funclet.span := by
  unfold read
  split
  next hsplit =>
    constructor
    · rintro ⟨⟩
    · rintro ⟨span, hcs, -, -⟩
      rw [splitOnce?_eq_some_iff.2 ⟨hcs, funclet.kind.colon_not_mem_name⟩] at hsplit
      cases hsplit
  next kind span hsplit =>
    simp only [bind_eq_ok_iff, pure_eq_ok_iff, readFuncletKind_eq_ok_iff]
    constructor
    · rintro ⟨k, ⟨hk, rfl⟩, typed, htyped, rfl⟩
      exact ⟨span, (splitOnce?_eq_some_iff.1 hsplit).1, hk, htyped⟩
    · rintro ⟨span', hcs, hk, htyped⟩
      have heq := splitOnce?_eq_some_iff.2 ⟨hcs, funclet.kind.colon_not_mem_name⟩
      rw [hsplit] at heq
      cases heq
      exact ⟨funclet.kind, ⟨hk, rfl⟩, funclet.span, htyped, rfl⟩

/-- A funclet has two colons. -/
theorem count_colon_of_read (h : read cs = .ok funclet) : cs.count ':' = 2 := by
  obtain ⟨span, rfl, -, hspan⟩ := read_eq_ok_iff.1 h
  simp [List.count_eq_zero_of_not_mem funclet.kind.colon_not_mem_name, TypedSpan.count_colon_of_read hspan]

private theorem read_write (start stop : Radix) (funclet : TypedFunclet) (hkind : funclet.kind.isFunclet) :
    read (funclet.write start stop) = .ok funclet :=
  read_eq_ok_iff.2 ⟨_, rfl, hkind, TypedSpan.read_write start stop funclet.span⟩

/-- Offsets, spans and funclets are read from exactly the texts of their grammar. Every text with more or fewer colons
    is rejected, and whatever is written, in whichever of the two ways, is read back. -/
theorem grammar_and_round_trip :
    (∀ cs, readOffset cs = .ok none ↔ cs = ['-']) ∧
    (∀ cs offset, readOffset cs = .ok (some offset) ↔ IsOffset cs offset.toNat) ∧
    (∀ cs, (∃ e, readOffset cs = .error e) ↔ cs ≠ ['-'] ∧ ∀ n ≤ maxOffset, ¬ IsOffset cs n) ∧
    (∀ cs span, TypedSpan.read cs = .ok span ↔
      ∃ start stop, cs = start ++ ':' :: stop ∧ ':' ∉ start ∧
        readOffset start = .ok span.start ∧ readOffset stop = .ok span.stop) ∧
    (∀ cs funclet, read cs = .ok funclet ↔
      ∃ span, (funclet.kind = .handler ∧ cs = "handler:".toList ++ span ∨
          funclet.kind = .filter ∧ cs = "filter:".toList ++ span) ∧
        TypedSpan.read span = .ok funclet.span) ∧
    (∀ cs span, cs.count ':' ≠ 1 → TypedSpan.read cs ≠ .ok span) ∧
    (∀ cs funclet, cs.count ':' ≠ 2 → read cs ≠ .ok funclet) ∧
    (∀ start stop span, TypedSpan.read (span.write start stop) = .ok span) ∧
    ∀ start stop funclet, funclet.kind.isFunclet → read (funclet.write start stop) = .ok funclet := by
  refine ⟨fun _ => readOffset_eq_ok_none_iff, fun _ _ => readOffset_eq_ok_some_iff,
    fun _ => exists_error_readOffset_iff, fun _ _ => TypedSpan.read_eq_ok_iff, fun cs funclet => ?_,
    fun _ _ hcount h => hcount (TypedSpan.count_colon_of_read h), fun _ _ hcount h => hcount (count_colon_of_read h),
    TypedSpan.read_write, fun start stop funclet hkind => read_write start stop funclet hkind⟩
  rw [read_eq_ok_iff]
  refine exists_congr fun span => ?_
  rcases funclet with ⟨kind | kind | kind, typed⟩ <;> simp [Kind.isFunclet, Kind.name]

theorem grammar_and_round_trip_of_handler :
    read "handler:16:0xffffffff".toList = .ok ⟨.handler, ⟨some 16, some 0xffffffff⟩⟩ :=
  grammar_and_round_trip.2.2.2.2.2.2.2.2 .decimal .hexadecimal ⟨.handler, ⟨some 16, some 0xffffffff⟩⟩ rfl

end TypedFunclet

end StackUnwind
