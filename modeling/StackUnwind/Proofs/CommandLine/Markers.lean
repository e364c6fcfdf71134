import StackUnwind.Proofs.Layout.Range
import StackUnwind.Trace

namespace StackUnwind

/-- Whether the ends of a span are where they were typed. An end that was not typed is at the boundary of the region,
    whichever that is. -/
def Oracle.Marks (oracle : Oracle) (typed : TypedSpan) (span : Span) : Prop :=
  ∀ boundary, oracle.Places span.start boundary (typed.start.getD boundary) ∧
    oracle.Places span.stop boundary (typed.stop.getD boundary)

/-- The number of typed offsets. -/
def TypedSpan.offsetCount (typed : TypedSpan) : Nat := typed.start.toList.length + typed.stop.toList.length

/-- The number of typed offsets. -/
def CommandLine.offsetCount (cl : CommandLine) : Nat :=
  cl.root.offsetCount + cl.cold.elim 0 TypedSpan.offsetCount + (cl.funclets.map (·.span.offsetCount)).sum

namespace Markers

variable {m m' m'' : Markers} {offset : Option UInt32} {marker : Option Location} {typed : TypedSpan} {span : Span}

/-- Whether markers have been added to others, which all stay where they were. -/
structure Extends (m' m : Markers) : Prop where
  next_le : m.next.toNat ≤ m'.next.toNat
  offset?_eq : ∀ location : Location, location.id.toNat < m.next.toNat →
    m'.table.offset? location = m.table.offset? location

private theorem Extends.refl (m : Markers) : m.Extends m := ⟨Nat.le_refl _, fun _ _ => rfl⟩

private theorem Extends.trans (h : m''.Extends m') (h' : m'.Extends m) : m''.Extends m := by
  refine ⟨Nat.le_trans h'.next_le h.next_le, fun location hlt => ?_⟩
  rw [h.offset?_eq location (Nat.lt_of_lt_of_le hlt h'.next_le), h'.offset?_eq location hlt]

/-- Whether a marker has been handed out for an offset, if there is an offset. -/
def Holds (m : Markers) : Option UInt32 → Option Location → Prop :=
  Option.Rel fun offset location => location.id.toNat < m.next.toNat ∧ m.table.offset? location = some offset

private theorem Holds.mono (h : m.Holds offset marker) (hextends : m'.Extends m) : m'.Holds offset marker := by
  cases h with
  | none => exact .none
  | some h =>
    obtain ⟨hlt, hoffset⟩ := h
    exact .some ⟨Nat.lt_of_lt_of_le hlt hextends.next_le, (hextends.offset?_eq _ hlt).trans hoffset⟩

private theorem Holds.places (h : m.Holds offset marker) (boundary : UInt32) :
    Oracle.Places m.table.offset? marker boundary (offset.getD boundary) := by
  cases h with
  | none => rfl
  | some h => exact h.2

/-- Whether markers have been handed out for the ends of a span. -/
structure HoldsSpan (m : Markers) (typed : TypedSpan) (span : Span) : Prop where
  start : m.Holds typed.start span.start
  stop : m.Holds typed.stop span.stop

private theorem HoldsSpan.mono (h : m.HoldsSpan typed span) (hextends : m'.Extends m) : m'.HoldsSpan typed span :=
  ⟨h.start.mono hextends, h.stop.mono hextends⟩

private theorem HoldsSpan.marks (h : m.HoldsSpan typed span) : Oracle.Marks m.table.offset? typed span :=
  fun boundary => ⟨h.start.places boundary, h.stop.places boundary⟩

private theorem marks_of_rel {typed : Option TypedSpan} {span : Option Span} (h : Option.Rel m.HoldsSpan typed span)
    (hextends : m'.Extends m) : Option.Rel (Oracle.Marks m'.table.offset?) typed span := by
  cases h with
  | none => exact .none
  | some h => exact .some (h.mono hextends).marks

/-- As long as there are numbers left, a marker for an offset is a new one. -/
theorem exists_mark (m : Markers) (offset : Option UInt32) (hroom : m.next.toNat + offset.toList.length < 2 ^ 32) :
    ∃ marker m', m.mark offset = .ok (marker, m') ∧ m'.Extends m ∧ m'.Holds offset marker ∧
      m'.next.toNat = m.next.toNat + offset.toList.length := by
  cases offset with
  | none => exact ⟨none, m, rfl, .refl m, .none, rfl⟩
  | some offset =>
    simp only [Option.toList_some, List.length_singleton] at hroom ⊢
    obtain ⟨next, hnext⟩ := @exists_word (m.next.toNat + 1) hroom
    refine ⟨_, _, bind_eq_ok_iff.2 ⟨next, word32_eq_ok_iff.2 hnext, rfl⟩, ⟨?_, ?_⟩, .some ⟨?_, ?_⟩, hnext.symm⟩
    · simp only [← hnext]
      omega
    · intro location hlt
      rw [LocationTable.offset?_insert, if_neg]
      rintro rfl
      exact Nat.lt_irrefl _ hlt
    · simp only [← hnext]
      omega
    · rw [LocationTable.offset?_insert, if_pos rfl]

private theorem exists_span (m : Markers) (typed : TypedSpan) (hroom : m.next.toNat + typed.offsetCount < 2 ^ 32) :
    ∃ span m', m.span typed = .ok (span, m') ∧ m'.Extends m ∧ m'.HoldsSpan typed span ∧
      m'.next.toNat = m.next.toNat + typed.offsetCount := by
  rw [TypedSpan.offsetCount] at hroom ⊢
  obtain ⟨start, m₁, hstart, hextends, hholds, hnext⟩ := m.exists_mark typed.start (by omega)
  obtain ⟨stop, m₂, hstop, hextends', hholds', hnext'⟩ := m₁.exists_mark typed.stop (by omega)
  refine ⟨⟨start, stop⟩, m₂, ?_, hextends'.trans hextends, ⟨hholds.mono hextends', hholds'⟩, by omega⟩
  exact bind_eq_ok_iff.2 ⟨_, hstart, bind_eq_ok_iff.2 ⟨_, hstop, rfl⟩⟩

private theorem exists_coldSpan (m : Markers) (typed : Option TypedSpan)
    (hroom : m.next.toNat + typed.elim 0 TypedSpan.offsetCount < 2 ^ 32) :
    ∃ span m', m.coldSpan typed = .ok (span, m') ∧ m'.Extends m ∧ Option.Rel m'.HoldsSpan typed span ∧
      m'.next.toNat = m.next.toNat + typed.elim 0 TypedSpan.offsetCount := by
  cases typed with
  | none => exact ⟨none, m, rfl, .refl m, .none, rfl⟩
  | some typed =>
    obtain ⟨span, m', hspan, hextends, hholds, hnext⟩ := m.exists_span typed hroom
    exact ⟨some span, m', bind_eq_ok_iff.2 ⟨_, hspan, rfl⟩, hextends, .some hholds, hnext⟩

/-- The markers of each funclet are still where they were when those of the funclets after it have been added. -/
theorem exists_funclets (m : Markers) (typed : List TypedFunclet) (hkinds : ∀ f ∈ typed, f.kind.isFunclet)
    (hroom : m.next.toNat + (typed.map (·.span.offsetCount)).sum < 2 ^ 32) :
    ∃ funclets m', m.funclets typed = .ok (funclets, m') ∧ m'.Extends m ∧
      List.Forall₂ (fun typed f => f.kind = typed.kind ∧ f.cold = none ∧ m'.HoldsSpan typed.span f.hot)
        typed funclets := by
  -- The markers handed out before are generalised over, since each funclet adds its own to them.
  induction typed generalizing m with
  | nil => exact ⟨[], m, rfl, .refl m, .nil⟩
  | cons first rest ih =>
    rw [List.map_cons, List.sum_cons] at hroom
    obtain ⟨span, m₁, hspan, hextends, hholds, hnext⟩ := m.exists_span first.span (by omega)
    have hkind := hkinds first List.mem_cons_self
    obtain ⟨funclets, m₂, hfunclets, hextends', hrest⟩ :=
      ih m₁ (fun f hf => hkinds f (List.mem_cons_of_mem _ hf)) (by omega)
    have hfirst : UnitFunction.funclet first.kind span = .ok { kind := first.kind, hot := span } := by
      rw [UnitFunction.funclet, if_pos hkind]
    refine ⟨{ kind := first.kind, hot := span } :: funclets, m₂, ?_, hextends'.trans hextends,
      .cons ⟨rfl, rfl, hholds.mono hextends'⟩ hrest⟩
    exact bind_eq_ok_iff.2
      ⟨_, hspan, bind_eq_ok_iff.2 ⟨_, hfirst, bind_eq_ok_iff.2 ⟨_, hfunclets, rfl⟩⟩⟩

end Markers

namespace CommandLine

/-- Whether functions are those of a command line, with their code where it was typed. -/
structure Describes (cl : CommandLine) (oracle : Oracle) (root : UnitFunction) (funclets : List UnitFunction) :
    Prop where
  kind : root.kind = .root
  hot : oracle.Marks cl.root root.hot
  cold : Option.Rel oracle.Marks cl.cold root.cold
  funclets : List.Forall₂ (fun typed f => f.kind = typed.kind ∧ f.cold = none ∧ oracle.Marks typed.span f.hot)
    cl.funclets funclets

/-- The functions after the root are funclets, without cold code. -/
theorem Describes.funclets_hot {cl : CommandLine} {oracle : Oracle} {root : UnitFunction} {funclets : List UnitFunction}
    (h : cl.Describes oracle root funclets) (hkinds : ∀ f ∈ cl.funclets, f.kind.isFunclet) :
    ∀ f ∈ funclets, f.isFunclet = true ∧ f.cold = none := by
  intro f hf
  obtain ⟨typed, htyped, hkind, hcold, -⟩ := exists_mem_of_forall₂ h.funclets hf
  rw [UnitFunction.isFunclet, hkind]
  exact ⟨hkinds typed htyped, hcold⟩

/-- No two markers of a unit collide, so each has the offset that it was made for. -/
theorem exists_functions (cl : CommandLine) (hkinds : ∀ f ∈ cl.funclets, f.kind.isFunclet)
    (hoffsets : cl.offsetCount < 2 ^ 32) :
    ∃ root funclets table, cl.functions = .ok (root :: funclets, table) ∧
      cl.Describes table.offset? root funclets := by
  rw [offsetCount] at hoffsets
  have hzero : ({} : Markers).next.toNat = 0 := rfl
  obtain ⟨hot, m₁, hhot, -, hholds, hnext⟩ := Markers.exists_span {} cl.root (by omega)
  obtain ⟨cold, m₂, hcold, hextends, hholds', hnext'⟩ := m₁.exists_coldSpan cl.cold (by omega)
  obtain ⟨funclets, m₃, hfunclets, hextends', hholds''⟩ := m₂.exists_funclets cl.funclets hkinds (by omega)
  refine ⟨.root hot cold, funclets, m₃.table, ?_, rfl, ?_, ?_, ?_⟩
  · exact bind_eq_ok_iff.2 ⟨_, hhot, bind_eq_ok_iff.2 ⟨_, hcold, bind_eq_ok_iff.2 ⟨_, hfunclets, rfl⟩⟩⟩
  · exact (hholds.mono (hextends'.trans hextends)).marks
  · exact Markers.marks_of_rel hholds' hextends'
  · exact hholds''.imp fun _ _ h => ⟨h.1, h.2.1, h.2.2.marks⟩

end CommandLine

end StackUnwind
