import StackUnwind.Proofs.Recorder.Brackets

namespace StackUnwind

namespace FrameRecorder

variable {ρ : Type} [FrameRecorder ρ]

/-- A recorder can still be told a prolog, of up to `n` operations at least. -/
def TakesProlog (r : ρ) (n : Nat) : Prop :=
  ∀ ops : List PrologOp, ops.length ≤ n → ∃ r', recordAll (FrameEvent.ofProlog ops) r = .ok () r'

/-- A prolog is recorded when it can be opened, filled and closed. -/
theorem recordAll_ofProlog_eq_ok_iff {r r' : ρ} {ops : List PrologOp} :
    recordAll (FrameEvent.ofProlog ops) r = .ok () r' ↔ ∃ opened filled, record .beginProlog r = .ok () opened ∧
      recordAll (ops.map .op) opened = .ok () filled ∧ record .endProlog filled = .ok () r' := by
  simp only [FrameEvent.ofProlog, recordAll_cons_eq_ok_iff, recordAll_append_eq_ok_iff]
  constructor
  · rintro ⟨opened, hbegin, filled, hops, closed, hend, hdone⟩
    cases hdone
    exact ⟨opened, filled, hbegin, hops, hend⟩
  · rintro ⟨opened, filled, hbegin, hops, hend⟩
    exact ⟨opened, hbegin, filled, hops, r', hend, rfl⟩

end FrameRecorder

open FrameRecorder

namespace Recorder

/-- Nothing has been recorded, and in an epilog `n` more operations can be counted. -/
def MayOpen : Recorder → Nat → Prop
  | x86, _ => True
  | x64 log, n => log.ops = [] ∧ (log.inEpilog = true → log.epilogOps.toNat + n < 2 ^ 32)

/-- In an epilog operations are counted. -/
theorem exists_recordAll_op_iff {log : PrologLog} (hepilog : log.inEpilog = true) (ops : List PrologOp) :
    (∃ r, recordAll (ops.map .op) (x64 log) = .ok () r) ↔ log.epilogOps.toNat + ops.length < 2 ^ 32 := by
  induction ops generalizing log with
  | nil => exact iff_of_true ⟨x64 log, rfl⟩ log.epilogOps.toNat_lt
  | cons op ops ih =>
    have hop {r : Recorder} : record (.op op) (x64 log) = .ok () r ↔ ∃ epilogOps : UInt32,
        log.epilogOps.toNat + 1 = epilogOps.toNat ∧ r = x64 { log with epilogOps } := by
      simp only [record_x64_eq_ok_iff, PrologLog.record_op_eq_ok_iff hepilog, word32_eq_ok_iff]
      constructor
      · rintro ⟨_, ⟨epilogOps, hcount, rfl⟩, rfl⟩
        exact ⟨epilogOps, hcount, rfl⟩
      · rintro ⟨epilogOps, hcount, rfl⟩
        exact ⟨_, ⟨epilogOps, hcount, rfl⟩, rfl⟩
    simp only [List.map_cons, recordAll_cons_eq_ok_iff, hop, List.length_cons]
    constructor
    · rintro ⟨r, _, ⟨epilogOps, hcount, rfl⟩, hrest⟩
      have hroom := (@ih { log with epilogOps } hepilog).1 ⟨r, hrest⟩
      rw [← hcount] at hroom
      omega
    · intro hroom
      obtain ⟨epilogOps, hcount⟩ := exists_word (n := log.epilogOps.toNat + 1) (by omega)
      obtain ⟨r, hrest⟩ := (@ih { log with epilogOps } hepilog).2 (by rw [← hcount]; omega)
      exact ⟨r, _, ⟨epilogOps, hcount, rfl⟩, hrest⟩

private theorem exists_recordAll_ofProlog_iff {r : Recorder} {ops : List PrologOp} :
    (∃ r', recordAll (FrameEvent.ofProlog ops) r = .ok () r') ↔ r.MayOpen ops.length := by
  simp only [recordAll_ofProlog_eq_ok_iff]
  cases r with
  | x86 =>
    have hops (ops : List PrologOp) : recordAll (ops.map .op) x86 = .ok () x86 := by
      induction ops with
      | nil => rfl
      | cons op ops ih => exact ih
    exact iff_of_true ⟨x86, x86, x86, rfl, hops ops, rfl⟩ trivial
  | x64 log =>
    have hbegin {r : Recorder} : record .beginProlog (x64 log) = .ok () r ↔ log.ops = [] ∧ r = x64 log := by
      simp only [record_x64_eq_ok_iff, PrologLog.record_beginProlog_eq_ok_iff]
      constructor
      · rintro ⟨_, ⟨hempty, rfl⟩, rfl⟩
        exact ⟨hempty, rfl⟩
      · rintro ⟨hempty, rfl⟩
        exact ⟨log, ⟨hempty, rfl⟩, rfl⟩
    have hfill : (∃ filled, recordAll (ops.map .op) (x64 log) = .ok () filled) ↔
        (log.inEpilog = true → log.epilogOps.toNat + ops.length < 2 ^ 32) := by
      by_cases hepilog : log.inEpilog = true
      · rw [exists_recordAll_op_iff hepilog]
        simp [hepilog]
      · exact iff_of_true ⟨_, recordAll_op (by simpa using hepilog) ops⟩ (fun h => absurd h hepilog)
    rw [MayOpen, ← hfill]
    constructor
    · rintro ⟨r', opened, filled, hopened, hfilled, -⟩
      obtain ⟨hempty, rfl⟩ := hbegin.1 hopened
      exact ⟨hempty, filled, hfilled⟩
    · rintro ⟨hempty, filled, hfilled⟩
      refine ⟨filled, x64 log, filled, hbegin.2 ⟨hempty, rfl⟩, hfilled, ?_⟩
      cases filled with
      | x86 | x64 => rfl

theorem takesProlog_iff {r : Recorder} {n : Nat} : TakesProlog r n ↔ r.MayOpen n := by
  simp only [TakesProlog, exists_recordAll_ofProlog_iff]
  constructor
  -- The longest prolog needs the most room in the counter.
  · intro h
    have hlongest := h (List.replicate n (.alloc 0)) (by simp)
    rwa [List.length_replicate] at hlongest
  · intro h ops hops
    cases r with
    | x86 => trivial
    | x64 log =>
      obtain ⟨hempty, hroom⟩ := h
      refine ⟨hempty, fun hepilog => ?_⟩
      have hcount := hroom hepilog
      omega

end Recorder

namespace Tracker

/-- No prolog has been begun, and the recorder does not mind one. -/
def MayOpen (t : Tracker) (n : Nat) : Prop := t.phase = .beforeProlog ∧ t.recorder.MayOpen n

/-- A tracker passes all events on. -/
theorem recorder_of_recordAll {t t' : Tracker} {events : List FrameEvent} (h : recordAll events t = .ok () t') :
    recordAll events t.recorder = .ok () t'.recorder := by
  induction events generalizing t with
  | nil =>
    cases h
    rfl
  | cons event events ih =>
    obtain ⟨s, hs, hrest⟩ := recordAll_cons_eq_ok_iff.1 h
    exact recordAll_cons_eq_ok_iff.2 ⟨s.recorder, (record_eq_ok_iff.1 hs).2.2, ih hrest⟩

private theorem exists_recordAll_ofProlog_iff {t : Tracker} {ops : List PrologOp} :
    (∃ t', recordAll (FrameEvent.ofProlog ops) t = .ok () t') ↔ t.MayOpen ops.length := by
  rw [MayOpen, ← Recorder.exists_recordAll_ofProlog_iff]
  constructor
  · rintro ⟨t', h⟩
    refine ⟨?_, t'.recorder, recorder_of_recordAll h⟩
    obtain ⟨opened, -, hbegin, -, -⟩ := recordAll_ofProlog_eq_ok_iff.1 h
    obtain ⟨hadvance, -, -⟩ := record_eq_ok_iff.1 hbegin
    cases hphase : t.phase with
    | beforeProlog => rfl
    | inProlog | body | inEpilog =>
      rw [hphase] at hadvance
      cases hadvance
  · rintro ⟨hphase, r', h⟩
    obtain ⟨opened, filled, hbegin, hfill, hend⟩ := recordAll_ofProlog_eq_ok_iff.1 h
    let first : Tracker := { t with recorder := opened, phase := .inProlog }
    let last : Tracker := { t with recorder := r', phase := .body }
    have hfirst : record .beginProlog t = .ok () first := by
      apply record_eq_ok_iff.2
      rw [hphase]
      exact ⟨rfl, rfl, hbegin⟩
    have hops : recordAll (ops.map .op) first = .ok () { first with recorder := filled } := recordAll_op rfl hfill
    have hlast : record .endProlog { first with recorder := filled } = .ok () last :=
      record_eq_ok_iff.2 ⟨rfl, rfl, hend⟩
    exact ⟨last, recordAll_ofProlog_eq_ok_iff.2 ⟨first, _, hfirst, hops, hlast⟩⟩

theorem takesProlog_iff {t : Tracker} {n : Nat} : TakesProlog t n ↔ t.MayOpen n := by
  rw [MayOpen, ← Recorder.takesProlog_iff]
  simp only [TakesProlog, exists_recordAll_ofProlog_iff, Recorder.exists_recordAll_ofProlog_iff, MayOpen]
  constructor
  · intro h
    exact ⟨(h [] (Nat.zero_le n)).1, fun ops hops => (h ops hops).2⟩
  · rintro ⟨hphase, h⟩ ops hops
    exact ⟨hphase, h ops hops⟩

end Tracker

end StackUnwind
