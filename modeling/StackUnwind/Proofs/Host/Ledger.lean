import StackUnwind.Host.Ledger
import StackUnwind.Proofs.Text.Numeral
import StackUnwind.Text.Split

namespace StackUnwind

/-- A text without the characters that end words and lines. -/
def IsWord (cs : List Char) : Prop := ' ' ∉ cs ∧ '\n' ∉ cs

instance (cs : List Char) : Decidable (IsWord cs) := inferInstanceAs (Decidable (_ ∧ _))

/-- Words with a blank between any two of them. -/
def unwords (words : List (List Char)) : List Char := [' '].intercalate words

/-- Lines with a line break after each of them. -/
def unlines (lines : List (List Char)) : List Char := lines.flatMap (· ++ ['\n'])

section Words

variable {words lines : List (List Char)} {cs ds : List Char}

private theorem isWord_append (hcs : IsWord cs) (hds : IsWord ds) : IsWord (cs ++ ds) :=
  ⟨List.not_mem_append hcs.1 hds.1, List.not_mem_append hcs.2 hds.2⟩

private theorem isWord_of_isAlphanum (h : ∀ c ∈ cs, c.isAlphanum) : IsWord cs := by
  constructor
  · intro hc
    cases h _ hc
  · intro hc
    cases h _ hc

private theorem isWord_toDigits {base : Nat} (hbase : 1 < base) (hbase' : base ≤ 16) (n : Nat) :
    IsWord (Nat.toDigits base n) :=
  isWord_of_isAlphanum fun _ hc => (isNumeral_toDigits hbase n).isAlphanum hbase' hc

private theorem isWord_hexNumber (n : Nat) : IsWord (hexNumber n).toList := by
  simp only [hexNumber, String.toList_append, String.toList_ofList]
  exact isWord_append (by decide) (isWord_toDigits (by decide) (by decide) n)

private theorem isWord_hexBytes (bytes : List UInt8) : IsWord (hexBytes bytes).toList := by
  rw [hexBytes, String.toList_ofList]
  refine isWord_of_isAlphanum fun c hc => ?_
  obtain ⟨b, -, hc⟩ := List.mem_flatMap.1 hc
  have hlt := b.toNat_lt
  have hdigit : ∀ d < 16, IsDigit 16 d.digitChar d := fun d => isDigit_digitChar
  rw [hexByte, List.mem_pair] at hc
  obtain rfl | rfl := hc
  · exact (hdigit _ (by omega)).isAlphanum (by decide)
  · exact (hdigit _ (by omega)).isAlphanum (by decide)

private theorem splitOn_unwords (hwords : words ≠ []) (h : ∀ w ∈ words, IsWord w) :
    (unwords words).splitOn ' ' = words :=
  List.splitOn_intercalate ' ' (fun w hw => (h w hw).1) hwords

private theorem newline_not_mem_unwords (h : ∀ w ∈ words, IsWord w) : '\n' ∉ unwords words := by
  induction words with
  | nil => simp [unwords]
  | cons w words ih =>
    have hw := (h w List.mem_cons_self).2
    have hwords := ih fun v hv => h v (List.mem_cons_of_mem _ hv)
    cases words with
    | nil => simpa [unwords] using hw
    | cons v words =>
      rw [unwords, List.intercalate_cons_cons]
      simp only [List.mem_append, not_or]
      exact ⟨⟨hw, by decide⟩, hwords⟩

private theorem splitOn_unlines (h : ∀ line ∈ lines, '\n' ∉ line) : (unlines lines).splitOn '\n' = lines ++ [[]] := by
  induction lines with
  | nil => rfl
  | cons line lines ih =>
    rw [unlines, List.flatMap_cons, List.append_assoc, List.singleton_append,
      List.splitOn_append_cons_self_of_not_mem (h line List.mem_cons_self)]
    exact congrArg (line :: ·) (ih fun l hl => h l (List.mem_cons_of_mem _ hl))

end Words

/-- The number that a hexadecimal numeral after `0x` stands for, if it is an address. -/
def readAddress (cs : List Char) : Option UInt64 := do
  let digits ← cs.dropPrefix? "0x".toList
  return .ofNat (← (readNatural 16 0xffffffffffffffff digits).toOption)

/-- The bytes that a text holds, in two hexadecimal digits each. -/
def readHexBytes : List Char → Option (List UInt8)
  | [] => some []
  | [_] => none
  | high :: low :: cs => do
    let byte := UInt8.ofNat (16 * (← digitValue? 16 high) + (← digitValue? 16 low))
    return byte :: (← readHexBytes cs)

/-- Which of two words a text is. -/
def readChoice (no yes : String) (cs : List Char) : Option Bool :=
  if cs = no.toList then some false else if cs = yes.toList then some true else none

private theorem readAddress_hexNumber (address : UInt64) :
    readAddress (hexNumber address.toNat).toList = some address := by
  have hle : address.toNat ≤ 0xffffffffffffffff := Nat.le_of_lt_succ address.toNat_lt
  rw [readAddress, hexNumber, String.toList_append, String.toList_ofList, List.dropPrefix?_append_of_beq _ (by rfl)]
  simp [readNatural_toDigits (by decide : 1 < 16) (by decide) hle, Except.toOption]

private theorem readHexBytes_hexBytes (bytes : List UInt8) : readHexBytes (hexBytes bytes).toList = some bytes := by
  rw [hexBytes, String.toList_ofList]
  induction bytes with
  | nil => rfl
  | cons b bytes ih =>
    have hlt := b.toNat_lt
    have hdigit : ∀ d < 16, digitValue? 16 d.digitChar = some d := fun d hd =>
      (digitValue?_eq_some_iff (by decide)).2 (isDigit_digitChar hd)
    have hhigh := hdigit (b.toNat / 16) (by omega)
    have hlow := hdigit (b.toNat % 16) (by omega)
    have hbyte : UInt8.ofNat (16 * (b.toNat / 16) + b.toNat % 16) = b := by rw [Nat.div_add_mod, UInt8.ofNat_toNat]
    rw [List.flatMap_cons, hexByte, List.cons_append, List.cons_append, List.nil_append, readHexBytes, hhigh, hlow, ih]
    simp only [Option.bind_eq_bind, Option.bind_some, hbyte]
    rfl

private theorem readChoice_of {no yes : String} (hne : yes ≠ no) (b : Bool) :
    readChoice no yes (if b then yes else no).toList = some b := by
  cases b <;> simp [readChoice, String.toList_inj, hne]

namespace Kind

/-- The kind of a name. -/
def read (cs : List Char) : Option Kind := [root, handler, filter].find? (·.name.toList = cs)

private theorem read_name (kind : Kind) : read kind.name.toList = some kind := by cases kind <;> rfl

end Kind

namespace Reservation

/-- The words of a reservation's line. -/
def words (r : Reservation) : List (List Char) :=
  [(if r.isFunclet then "funclet" else "root").toList, (if r.isCold then "cold" else "hot").toList,
    Nat.toDigits 10 r.size.toNat, "bytes".toList]

/-- The reservation that a line describes. -/
def read (cs : List Char) : Option Reservation :=
  match cs.splitOn ' ' with
  | [owner, region, size, _] => do
    let isFunclet ← readChoice "root" "funclet" owner
    let isCold ← readChoice "hot" "cold" region
    let size ← (readNatural 10 0xffffffffffffffff size).toOption
    return ⟨isFunclet, isCold, .ofNat size⟩
  | _ => none

private theorem toList_describe (r : Reservation) : r.describe.toList = unwords r.words := by
  have hstring : ∀ s : String, toString s = s := fun _ => rfl
  have hsize : toString r.size = toString r.size.toNat := rfl
  simp [describe, words, unwords, List.intercalate, hstring, hsize]

private theorem isWord_of_mem_words (r : Reservation) : ∀ w ∈ r.words, IsWord w := by
  intro w hw
  simp only [words, List.mem_cons, List.not_mem_nil, or_false] at hw
  obtain rfl | rfl | rfl | rfl := hw
  · split <;> decide
  · split <;> decide
  · exact isWord_toDigits (by decide) (by decide) _
  · decide

private theorem read_describe (r : Reservation) : read r.describe.toList = some r := by
  have hlt := r.size.toNat_lt
  rw [toList_describe, read, splitOn_unwords (by simp [words]) r.isWord_of_mem_words]
  have howner : "funclet" ≠ "root" := by decide
  have hregion : "cold" ≠ "hot" := by decide
  have hsize : readNatural 10 0xffffffffffffffff (Nat.toDigits 10 r.size.toNat) = .ok r.size.toNat :=
    readNatural_toDigits (by decide) (by decide) (by omega)
  simp only [words, readChoice_of howner, readChoice_of hregion, hsize]
  simp [Except.toOption]

end Reservation

namespace Commit

/-- The words of a commit's line. -/
def words (c : Commit) : List (List Char) :=
  [c.kind.name.toList, '[' :: Nat.toDigits 10 c.range.start.toNat ++ [','],
    Nat.toDigits 10 c.range.stop.toNat ++ [')'], "hot=".toList ++ (hexNumber c.hotBase.toNat).toList,
    "cold=".toList ++ (c.coldBase.elim "-" fun base => hexNumber base.toNat).toList,
    "payload=".toList ++ (hexBytes c.payload).toList]

/-- The cold base that a text stands for, a dash standing for none. -/
def readColdBase (cs : List Char) : Option (Option UInt64) :=
  if cs = ['-'] then some none else (readAddress cs).map some

/-- The commit that a line describes. -/
def read (cs : List Char) : Option Commit :=
  match cs.splitOn ' ' with
  | [kind, start, stop, hot, cold, payload] => do
    let kind ← Kind.read kind
    let start ← (readNatural 10 0xffffffff (start.drop 1).dropLast).toOption
    let stop ← (readNatural 10 0xffffffff stop.dropLast).toOption
    let hotBase ← readAddress (← hot.dropPrefix? "hot=".toList)
    let coldBase ← readColdBase (← cold.dropPrefix? "cold=".toList)
    let payload ← readHexBytes (← payload.dropPrefix? "payload=".toList)
    return ⟨kind, hotBase, coldBase, ⟨.ofNat start, .ofNat stop⟩, payload⟩
  | _ => none

private theorem toList_describe (c : Commit) : c.describe.toList = unwords c.words := by
  have hstring : ∀ s : String, toString s = s := fun _ => rfl
  have hnumber : ∀ n : UInt32, toString n = toString n.toNat := fun _ => rfl
  cases hcold : c.coldBase with
  | none => simp [describe, Range.describe, words, unwords, List.intercalate, hstring, hnumber, hcold]
  | some base => simp [describe, Range.describe, words, unwords, List.intercalate, hstring, hnumber, hcold]

private theorem isWord_of_mem_words (c : Commit) : ∀ w ∈ c.words, IsWord w := by
  have hnumber : ∀ n, IsWord (Nat.toDigits 10 n) := isWord_toDigits (by decide) (by decide)
  intro w hw
  simp only [words, List.mem_cons, List.not_mem_nil, or_false] at hw
  obtain rfl | rfl | rfl | rfl | rfl | rfl := hw
  · cases c.kind <;> decide
  · have hbracket : IsWord ['['] := by decide
    exact isWord_append (isWord_append hbracket (hnumber _)) (by decide)
  · exact isWord_append (hnumber _) (by decide)
  · exact isWord_append (by decide) (isWord_hexNumber _)
  · apply isWord_append
    · decide
    · cases c.coldBase with
      | none => decide
      | some base => exact isWord_hexNumber _
  · exact isWord_append (by decide) (isWord_hexBytes _)

private theorem readColdBase_of (coldBase : Option UInt64) :
    readColdBase (coldBase.elim "-" fun base => hexNumber base.toNat).toList = some coldBase := by
  cases coldBase with
  | none => rfl
  | some base =>
    have hne : (hexNumber base.toNat).toList ≠ ['-'] := by simp [hexNumber]
    rw [Option.elim_some, readColdBase, if_neg hne, readAddress_hexNumber]
    rfl

private theorem read_describe (c : Commit) : read c.describe.toList = some c := by
  have hprefix : ∀ before after : List Char, (before ++ after).dropPrefix? before = some after :=
    fun before after => List.dropPrefix?_append_of_beq after (beq_self_eq_true before)
  have hoffset : ∀ n : UInt32, readNatural 10 0xffffffff (Nat.toDigits 10 n.toNat) = .ok n.toNat :=
    fun n => readNatural_toDigits (by decide) (by decide) (Nat.le_of_lt_succ n.toNat_lt)
  rw [toList_describe, read, splitOn_unwords (by simp [words]) c.isWord_of_mem_words]
  simp only [words, Kind.read_name, hprefix, List.cons_append, List.drop_one, List.tail_cons, List.dropLast_concat,
    hoffset]
  simp [Except.toOption, readAddress_hexNumber, readColdBase_of, readHexBytes_hexBytes]

end Commit

namespace Ledger

/-- The line for a request in a list of requests. -/
def entry (i : Nat) (line : String) : List Char :=
  ' ' :: ' ' :: '#' :: Nat.toDigits 10 i ++ ':' :: ' ' :: line.toList

/-- The lines for a list of requests, counting from the given number. -/
def entries (first : Nat) : List String → List (List Char)
  | [] => []
  | line :: lines => entry first line :: entries (first + 1) lines

/-- What the line for a request says of it, after its number. -/
def readEntry (cs : List Char) : Option (List Char) := (splitOnce? ':' cs).map (·.2.drop 1)

/-- The line between reservations and commits. -/
def commitsHeading : List Char := "Commits:".toList

/-- The ledger that a text shows. -/
def read (cs : List Char) : Option Ledger := do
  let lines := (cs.splitOn '\n').drop 1
  let reservations := lines.takeWhile (· ≠ commitsHeading)
  let commits := (lines.dropWhile (· ≠ commitsHeading)).drop 1
  return {
    reservations := ← reservations.mapM fun line => readEntry line >>= Reservation.read
    commits := ← commits.dropLast.mapM fun line => readEntry line >>= Commit.read }

private theorem readEntry_entry (i : Nat) (line : String) : readEntry (entry i line) = some line.toList := by
  have hnumber : ':' ∉ Nat.toDigits 10 i := (isNumeral_toDigits (by decide) i).not_mem (by decide) rfl
  have hsplit : splitOnce? ':' (entry i line) = some (' ' :: ' ' :: '#' :: Nat.toDigits 10 i, ' ' :: line.toList) :=
    splitOnce?_eq_some_iff.2 ⟨rfl, by simp [hnumber]⟩
  rw [readEntry, hsplit]
  rfl

private theorem toList_numbered (first : Nat) (lines : List String) :
    (numbered first lines).toList = unlines (entries first lines) := by
  have hstring : ∀ s : String, toString s = s := fun _ => rfl
  induction lines generalizing first with
  | nil => rfl
  | cons line lines ih =>
    rw [numbered, String.toList_append, ih, entries]
    simp [entry, hstring, unlines]

private theorem mem_entries {line : List Char} {first : Nat} {lines : List String} (h : line ∈ entries first lines) :
    ∃ i, ∃ l ∈ lines, line = entry i l := by
  induction lines generalizing first with
  | nil => cases h
  | cons l lines ih =>
    cases h with
    | head => exact ⟨first, l, List.mem_cons_self, rfl⟩
    | tail _ h =>
      obtain ⟨i, l', hl', rfl⟩ := ih h
      exact ⟨i, l', List.mem_cons_of_mem _ hl', rfl⟩

/-- Requests are read from their lines, one by one. -/
theorem mapM_readEntry {α : Type} {describe : α → String} {read : List Char → Option α}
    (hread : ∀ a, read (describe a).toList = some a) (first : Nat) (as : List α) :
    (entries first (as.map describe)).mapM (fun line => readEntry line >>= read) = some as := by
  induction as generalizing first with
  | nil => rfl
  | cons a as ih =>
    rw [List.map_cons, entries, List.mapM_cons, ih, readEntry_entry]
    simp [hread]

/-- A line for a request is one line. -/
theorem newline_not_mem_of_mem_entries {line : List Char} {first : Nat} {lines : List String}
    (hlines : ∀ l ∈ lines, '\n' ∉ l.toList) (h : line ∈ entries first lines) : '\n' ∉ line := by
  obtain ⟨i, l, hl, rfl⟩ := mem_entries h
  have hnumber : '\n' ∉ Nat.toDigits 10 i := (isNumeral_toDigits (by decide) i).not_mem (by decide) rfl
  simp [entry, hnumber, hlines l hl]

/-- The lines of commits begin where the lines of reservations end. -/
theorem ne_commitsHeading_of_mem_entries {line : List Char} {first : Nat} {lines : List String}
    (h : line ∈ entries first lines) : line ≠ commitsHeading := by
  obtain ⟨i, l, -, rfl⟩ := mem_entries h
  rintro ⟨⟩

/-- The lines of a ledger's text. -/
def lines (ledger : Ledger) : List (List Char) :=
  "Reservations:".toList :: entries 0 (ledger.reservations.map Reservation.describe) ++
    commitsHeading :: entries 0 (ledger.commits.map Commit.describe)

private theorem toList_text (ledger : Ledger) : ledger.text.toList = unlines ledger.lines := by
  have happend : ∀ a b c d : String, (a ++ b ++ c ++ d).toList = a.toList ++ b.toList ++ c.toList ++ d.toList := by
    simp
  have hlines : ∀ {a b first second : List Char} (lines lines' : List (List Char)),
      a = first ++ ['\n'] → b = second ++ ['\n'] →
        a ++ unlines lines ++ b ++ unlines lines' = unlines (first :: lines ++ second :: lines') := by
    rintro a b first second lines lines' rfl rfl
    simp [unlines]
  have htext : ledger.text = "Reservations:\n" ++ numbered 0 (ledger.reservations.map Reservation.describe)
      ++ "Commits:\n" ++ numbered 0 (ledger.commits.map Commit.describe) := rfl
  rw [htext, happend, toList_numbered, toList_numbered]
  exact hlines _ _ (by decide) (by decide)

private theorem newline_not_mem_of_mem_lines (ledger : Ledger) : ∀ line ∈ ledger.lines, '\n' ∉ line := by
  have hreservation : ∀ l ∈ ledger.reservations.map Reservation.describe, '\n' ∉ l.toList := by
    intro l hl
    obtain ⟨r, -, rfl⟩ := List.mem_map.1 hl
    rw [r.toList_describe]
    exact newline_not_mem_unwords r.isWord_of_mem_words
  have hcommit : ∀ l ∈ ledger.commits.map Commit.describe, '\n' ∉ l.toList := by
    intro l hl
    obtain ⟨c, -, rfl⟩ := List.mem_map.1 hl
    rw [c.toList_describe]
    exact newline_not_mem_unwords c.isWord_of_mem_words
  rw [lines, List.forall_mem_append, List.forall_mem_cons, List.forall_mem_cons]
  refine ⟨⟨by decide, fun line hline => ?_⟩, by decide, fun line hline => ?_⟩
  · exact newline_not_mem_of_mem_entries hreservation hline
  · exact newline_not_mem_of_mem_entries hcommit hline

private theorem read_text (ledger : Ledger) : read ledger.text.toList = some ledger := by
  have hne : ∀ line ∈ entries 0 (ledger.reservations.map Reservation.describe),
      decide (line ≠ commitsHeading) = true :=
    fun line hline => decide_eq_true (ne_commitsHeading_of_mem_entries hline)
  rw [toList_text, read, splitOn_unlines ledger.newline_not_mem_of_mem_lines]
  simp only [lines, List.cons_append, List.append_assoc, List.drop_one, List.tail_cons,
    List.takeWhile_append_of_pos hne, List.dropWhile_append_of_pos hne]
  rw [List.takeWhile_cons_of_neg (by simp), List.dropWhile_cons_of_neg (by simp), List.append_nil, List.tail_cons,
    List.dropLast_concat, mapM_readEntry Reservation.read_describe, mapM_readEntry Commit.read_describe]
  rfl

/-- The text of a ledger loses nothing: it can be read back, and so ledgers with the same text are the same in their
    reservations and in their commits. -/
theorem eq_of_text_eq :
    (∀ ledger, read ledger.text.toList = some ledger) ∧
    ∀ a b : Ledger, a.text = b.text → a.reservations = b.reservations ∧ a.commits = b.commits := by
  refine ⟨read_text, fun a b htext => ?_⟩
  have heq : some a = some b := by rw [← read_text a, ← read_text b, htext]
  cases heq
  exact ⟨rfl, rfl⟩

theorem eq_of_text_eq_of_root :
    let r : Reservation := ⟨false, true, 4⟩
    let c : Commit := ⟨.root, 0x1000, some 0x1040, ⟨0, 16⟩, [0x0a, 0xf0]⟩
    let ledger := (({} : Ledger).reserve r).commit c
    ledger.text = "Reservations:\n  #0: root cold 4 bytes\nCommits:\n" ++
        "  #0: root [0, 16) hot=0x1000 cold=0x1040 payload=0af0\n" ∧
      read ledger.text.toList = some ledger ∧ ledger.reservations = [r] ∧ ledger.commits = [c] :=
  ⟨by decide +kernel, eq_of_text_eq.1 _, eq_of_text_eq.2 _ ⟨[_], [_]⟩ rfl⟩

end Ledger

end StackUnwind
