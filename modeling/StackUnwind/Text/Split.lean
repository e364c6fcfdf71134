/-!
Splitting a text at its first separator.
-/

namespace StackUnwind

/-- The parts of a text before and after the first occurrence of a character. -/
def splitOnce? (separator : Char) : List Char → Option (List Char × List Char)
  | [] => none
  | c :: cs =>
    if c = separator then some ([], cs)
    else (splitOnce? separator cs).map fun (before, after) => (c :: before, after)

/-- A text is split where its first separator is. -/
theorem splitOnce?_eq_some_iff {separator : Char} {cs before after : List Char} :
    splitOnce? separator cs = some (before, after) ↔
      cs = before ++ separator :: after ∧ separator ∉ before := by
  induction cs generalizing before with
  | nil => simp [splitOnce?]
  | cons c cs ih =>
    rw [splitOnce?]
    split
    next h =>
      subst h
      constructor
      · rintro ⟨⟩
        simp
      · rintro ⟨h, hmem⟩
        cases before with
        | nil => simp_all
        | cons b bs => simp_all
    next h =>
      rw [Option.map_eq_some_iff]
      constructor
      · rintro ⟨⟨b, a⟩, hsplit, heq⟩
        cases heq
        obtain ⟨rfl, hmem⟩ := ih.1 hsplit
        exact ⟨rfl, by simp [hmem, Ne.symm h]⟩
      · rintro ⟨heq, hmem⟩
        cases before with
        | nil =>
          cases heq
          exact absurd rfl h
        | cons b bs =>
          cases heq
          exact ⟨(bs, after), ih.2 ⟨rfl, fun hbs => hmem (List.mem_cons_of_mem _ hbs)⟩, rfl⟩

/-- The first line of a text. A carriage return belongs to the line break that follows it. -/
def firstLine (cs : List Char) : List Char :=
  match splitOnce? '\n' cs with
  | none => cs
  | some (line, _) => if line.getLast? = some '\r' then line.dropLast else line

end StackUnwind
