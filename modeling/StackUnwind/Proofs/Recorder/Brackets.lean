import StackUnwind.Proofs.Outcome
import StackUnwind.Tracker

namespace StackUnwind

theorem word32_of_lt {operation : Arithmetic} {n : Nat} (h : n < 2 ^ 32) : word32 operation n = .ok (.ofNat n) :=
  if_pos h

namespace FrameEvent

/-- What is reported about a prolog with the given operations. -/
def ofProlog (ops : List PrologOp) : List FrameEvent := .beginProlog :: (ops.map .op ++ [.endProlog])

/-- What is reported about an epilog. -/
def ofEpilog : List FrameEvent := [.beginEpilog, .endEpilog]

end FrameEvent

namespace FrameRecorder

variable {ρ : Type} [FrameRecorder ρ] {r r' : ρ} {event : FrameEvent} {events first second : List FrameEvent}

/-- Tell a recorder of events one after another, up to the first that is a fault. -/
def recordAll (events : List FrameEvent) : EStateM Fault ρ Unit := events.forM record

theorem recordAll_nil (r : ρ) : recordAll [] r = .ok () r := rfl

theorem recordAll_cons (event : FrameEvent) (events : List FrameEvent) :
    (recordAll (event :: events) : EStateM Fault ρ Unit) = record event >>= fun _ => recordAll events := rfl

/-- Events are recorded one after another. -/
theorem recordAll_cons_eq_ok_iff :
    recordAll (event :: events) r = .ok () r' ↔ ∃ s, record event r = .ok () s ∧ recordAll events s = .ok () r' := by
  rw [recordAll_cons, run_bind_eq_ok_iff]
  constructor
  · rintro ⟨_, s, hs, hrest⟩
    exact ⟨s, hs, hrest⟩
  · rintro ⟨s, hs, hrest⟩
    exact ⟨(), s, hs, hrest⟩

/-- More events are recorded after them. -/
theorem recordAll_append_eq_ok_iff :
    recordAll (first ++ second) r = .ok () r' ↔
      ∃ s, recordAll first r = .ok () s ∧ recordAll second s = .ok () r' := by
  induction first generalizing r with
  | nil => simp [recordAll_nil]
  | cons event first ih =>
    simp only [List.cons_append, recordAll_cons_eq_ok_iff, ih]
    constructor
    · rintro ⟨s, hs, t, ht, hrest⟩
      exact ⟨t, ⟨s, hs, ht⟩, hrest⟩
    · rintro ⟨t, ⟨s, hs, ht⟩, hrest⟩
      exact ⟨s, hs, t, ht, hrest⟩

end FrameRecorder

namespace PrologLog

variable {log log' : PrologLog} {op : PrologOp} {u : Unit}

/-- A prolog is opened only while nothing has been logged. -/
theorem record_beginProlog_eq_ok_iff : record .beginProlog log = .ok u log' ↔ log.ops = [] ∧ log' = log := by
  simp only [record, run_bind_eq_ok_iff, run_get_eq_ok_iff]
  constructor
  · rintro ⟨_, _, ⟨rfl, rfl⟩, h⟩
    split at h
    next => cases h
    next hempty =>
      cases h
      exact ⟨by simpa using hempty, rfl⟩
  · rintro ⟨hempty, rfl⟩
    refine ⟨_, _, ⟨rfl, rfl⟩, ?_⟩
    rw [hempty]
    rfl

/-- An epilog that ends is counted. -/
theorem record_endEpilog_eq_ok_iff : record .endEpilog log = .ok u log' ↔
    ∃ epilogs, word32 .add (log.epilogs.toNat + 1) = .ok epilogs ∧ log' = { log with epilogs, inEpilog := false } := by
  simp only [record, run_bind_eq_ok_iff, run_modify_eq_ok_iff, run_get_eq_ok_iff, run_liftM_eq_ok_iff,
    run_set_eq_ok_iff]
  constructor
  · rintro ⟨_, _, rfl, _, _, ⟨rfl, rfl⟩, epilogs, _, ⟨hepilogs, rfl⟩, rfl⟩
    exact ⟨epilogs, hepilogs, rfl⟩
  · rintro ⟨epilogs, hepilogs, rfl⟩
    exact ⟨(), _, rfl, _, _, ⟨rfl, rfl⟩, epilogs, _, ⟨hepilogs, rfl⟩, rfl⟩

/-- In an epilog operations are counted. -/
theorem record_op_eq_ok_iff (h : log.inEpilog = true) : record (.op op) log = .ok u log' ↔
    ∃ epilogOps, word32 .add (log.epilogOps.toNat + 1) = .ok epilogOps ∧ log' = { log with epilogOps } := by
  simp only [record, run_bind_eq_ok_iff, run_get_eq_ok_iff]
  constructor
  · rintro ⟨_, _, ⟨rfl, rfl⟩, hop⟩
    rw [if_pos h] at hop
    simp only [run_bind_eq_ok_iff, run_liftM_eq_ok_iff, run_set_eq_ok_iff] at hop
    obtain ⟨epilogOps, _, ⟨hcount, -⟩, rfl⟩ := hop
    exact ⟨epilogOps, hcount, rfl⟩
  · rintro ⟨epilogOps, hcount, rfl⟩
    refine ⟨log, log, ⟨rfl, rfl⟩, ?_⟩
    rw [if_pos h]
    simp only [run_bind_eq_ok_iff, run_liftM_eq_ok_iff, run_set_eq_ok_iff]
    exact ⟨epilogOps, log, ⟨hcount, rfl⟩, rfl⟩

/-- Outside of one they are remembered. -/
theorem record_op_of_not_inEpilog (h : log.inEpilog = false) (op : PrologOp) :
    record (.op op) log = .ok () { log with ops := log.ops ++ [op] } := by
  change (if log.inEpilog = true then _ else _ : EStateM Fault PrologLog Unit) log = _
  rw [if_neg (by simp [h])]
  rfl

end PrologLog

namespace Recorder

/-- A recorder for x64 takes what its log takes. -/
theorem record_x64_eq_ok_iff {log : PrologLog} {event : FrameEvent} {r : Recorder} {u : Unit} :
    FrameRecorder.record event (x64 log) = .ok u r ↔ ∃ log', PrologLog.record event log = .ok u log' ∧ r = x64 log' := by
  change mapState x64 (PrologLog.record event log) = _ ↔ _
  cases PrologLog.record event log <;> simp [mapState, eq_comm]

/-- Outside of epilogs the operations are appended to the log. -/
theorem recordAll_op {log : PrologLog} (h : log.inEpilog = false) (ops : List PrologOp) :
    FrameRecorder.recordAll (ops.map .op) (x64 log) = .ok () (x64 { log with ops := log.ops ++ ops }) := by
  induction ops generalizing log with
  | nil => simp [FrameRecorder.recordAll_nil]
  | cons op ops ih =>
    rw [List.map_cons, FrameRecorder.recordAll_cons_eq_ok_iff]
    refine ⟨x64 { log with ops := log.ops ++ [op] }, ?_, ?_⟩
    · exact record_x64_eq_ok_iff.2 ⟨_, PrologLog.record_op_of_not_inEpilog h op, rfl⟩
    · have hops := @ih { log with ops := log.ops ++ [op] } h
      simpa only [List.append_assoc, List.singleton_append] using hops

/-- A fresh recorder remembers a prolog as it was reported. -/
theorem recordAll_ofProlog (ops : List PrologOp) :
    FrameRecorder.recordAll (FrameEvent.ofProlog ops) (fresh .x64) = .ok () (x64 { ops }) := by
  refine FrameRecorder.recordAll_cons_eq_ok_iff.2 ⟨x64 {}, rfl, ?_⟩
  refine FrameRecorder.recordAll_append_eq_ok_iff.2 ⟨x64 { ops }, recordAll_op rfl ops, ?_⟩
  exact FrameRecorder.recordAll_cons_eq_ok_iff.2 ⟨x64 { ops }, rfl, rfl⟩

/-- What a recorder knows after more epilogs: it has counted them, and the prolog is what it was. -/
inductive Counts : Recorder → Recorder → Nat → Prop where
  | x86 {n : Nat} : Counts x86 x86 n
  | x64 {log log' : PrologLog} {n : Nat} (hops : log'.ops = log.ops) (hepilogOps : log'.epilogOps = log.epilogOps)
      (hepilogs : log'.epilogs.toNat = log.epilogs.toNat + n) : Counts (x64 log) (x64 log') n

end Recorder

namespace Tracker

/-- A tracker checks the phase before it moves on, then counts, and then passes the event on. A check that fails leaves
    it as it is, and a counter that overflows leaves it in the new phase. -/
theorem record_eq (t : Tracker) (event : FrameEvent) :
    FrameRecorder.record event t =
      match t.phase.advance event with
      | .error fault => .error fault t
      | .ok phase =>
        match t.epilogsAfter event with
        | .error fault => .error fault { t with phase }
        | .ok epilogs =>
          match FrameRecorder.record event t.recorder with
          | .error fault recorder => .error fault { recorder, phase, epilogs }
          | .ok _ recorder => .ok () { recorder, phase, epilogs } := by
  have hepilogs (phase : Phase) : { t with phase : Tracker }.epilogsAfter event = t.epilogsAfter event := by
    cases event <;> rfl
  rw [FrameRecorder.record, instFrameRecorder]
  simp only [bind, EStateM.bind, get, getThe, MonadStateOf.get, EStateM.get, modify, modifyGet,
    MonadStateOf.modifyGet, EStateM.modifyGet, onPart]
  cases t.phase.advance event with
  | error fault => rfl
  | ok phase =>
    simp only [run_liftM_ok, hepilogs]
    cases t.epilogsAfter event with
    | error fault => rfl
    | ok epilogs =>
      simp only [run_liftM_ok]
      cases FrameRecorder.record event t.recorder <;> rfl

/-- A tracker takes an event exactly if its phase, its count and its recorder do. -/
theorem record_eq_ok_iff {t t' : Tracker} {event : FrameEvent} {u : Unit} :
    FrameRecorder.record event t = .ok u t' ↔ t.phase.advance event = .ok t'.phase ∧
      t.epilogsAfter event = .ok t'.epilogs ∧ FrameRecorder.record event t.recorder = .ok u t'.recorder := by
  rw [record_eq]
  obtain ⟨recorder', phase', epilogs'⟩ := t'
  cases t.phase.advance event with
  | error fault => simp
  | ok phase =>
    cases t.epilogsAfter event with
    | error fault => simp
    | ok epilogs =>
      cases FrameRecorder.record event t.recorder with
      | error fault recorder => simp
      | ok u recorder => simp [and_assoc, and_left_comm, and_comm]

/-- A tracker passes the operations of an open bracket on. -/
theorem recordAll_op {t : Tracker} {r : Recorder} {ops : List PrologOp} (hopen : t.phase.isBracket = true)
    (h : FrameRecorder.recordAll (ops.map .op) t.recorder = .ok () r) :
    FrameRecorder.recordAll (ops.map .op) t = .ok () { t with recorder := r } := by
  induction ops generalizing t with
  | nil =>
    cases h
    rfl
  | cons op ops ih =>
    rw [List.map_cons, FrameRecorder.recordAll_cons_eq_ok_iff] at h ⊢
    obtain ⟨s, hs, hrest⟩ := h
    refine ⟨{ t with recorder := s }, record_eq_ok_iff.2 ⟨?_, rfl, hs⟩, ih hopen hrest⟩
    simp [Phase.advance, hopen]

/-- A fresh tracker takes any prolog and logs its operations. -/
theorem recordAll_ofProlog (ops : List PrologOp) :
    FrameRecorder.recordAll (FrameEvent.ofProlog ops) (fresh .x64) =
      .ok () { recorder := .x64 { ops }, phase := .body } := by
  let opened : Tracker := { recorder := .x64 {}, phase := .inProlog }
  let closed : Tracker := { recorder := .x64 { ops }, phase := .body }
  have hops : FrameRecorder.recordAll (ops.map .op) opened = .ok () { opened with recorder := .x64 { ops } } :=
    recordAll_op rfl (Recorder.recordAll_op rfl ops)
  refine FrameRecorder.recordAll_cons_eq_ok_iff.2 ⟨opened, record_eq_ok_iff.2 ⟨rfl, rfl, rfl⟩, ?_⟩
  refine FrameRecorder.recordAll_append_eq_ok_iff.2 ⟨_, hops, ?_⟩
  exact FrameRecorder.recordAll_cons_eq_ok_iff.2 ⟨closed, record_eq_ok_iff.2 ⟨rfl, rfl, rfl⟩, rfl⟩

/-- Whether the counters suffice for more epilogs. -/
structure HasRoom (t : Tracker) (n : Nat) : Prop where
  epilogs : t.epilogs.toNat + n < 2 ^ 32
  log : ∀ log, t.recorder = .x64 log → log.epilogs.toNat + n < 2 ^ 32

/-- Room for more epilogs is room for fewer. -/
theorem HasRoom.mono {t : Tracker} {n n' : Nat} (h : t.HasRoom n) (hle : n' ≤ n) : t.HasRoom n' := by
  obtain ⟨hepilogs, hlog⟩ := h
  refine ⟨by omega, fun log heq => ?_⟩
  have hinner := hlog log heq
  omega

/-- What a tracker knows after more epilogs: it has counted them. -/
structure Counts (t t' : Tracker) (n : Nat) : Prop where
  phase : t'.phase = t.phase
  epilogs : t'.epilogs.toNat = t.epilogs.toNat + n
  recorder : t.recorder.Counts t'.recorder n

theorem counts_zero (t : Tracker) : t.Counts t 0 := by
  refine ⟨rfl, rfl, ?_⟩
  cases t.recorder with
  | x86 => exact .x86
  | x64 log => exact .x64 rfl rfl rfl

/-- Epilogs are counted on. -/
theorem Counts.trans {t t' t'' : Tracker} {n n' : Nat} (h : t.Counts t' n) (h' : t'.Counts t'' n') :
    t.Counts t'' (n + n') := by
  obtain ⟨hphase, hepilogs, hrecorder⟩ := h
  obtain ⟨hphase', hepilogs', hrecorder'⟩ := h'
  refine ⟨hphase'.trans hphase, by omega, ?_⟩
  generalize t.recorder = r, t'.recorder = r', t''.recorder = r'' at hrecorder hrecorder'
  cases hrecorder with
  | x86 =>
    cases hrecorder'
    exact .x86
  | x64 hops hepilogOps hlog =>
    obtain ⟨⟩ | ⟨hops', hepilogOps', hlog'⟩ := hrecorder'
    exact .x64 (hops'.trans hops) (hepilogOps'.trans hepilogOps) (by omega)

/-- Epilogs that were counted take up their room. -/
theorem HasRoom.of_counts {t t' : Tracker} {n n' : Nat} (h : t.HasRoom (n + n')) (hcounts : t.Counts t' n) :
    t'.HasRoom n' := by
  obtain ⟨-, hepilogs, hrecorder⟩ := hcounts
  have hroom := h.epilogs
  refine ⟨by omega, fun log' hlog' => ?_⟩
  rw [hlog'] at hrecorder
  generalize hlog : t.recorder = r at hrecorder
  obtain ⟨⟩ | ⟨hops, hepilogOps, hcount⟩ := hrecorder
  have hinner := h.log _ hlog
  omega

/-- An epilog may be written in the body, and is counted. -/
theorem recordAll_ofEpilog {t : Tracker} (hbody : t.phase = .body) (hroom : t.HasRoom 1) :
    ∃ t', FrameRecorder.recordAll FrameEvent.ofEpilog t = .ok () t' ∧ t.Counts t' 1 := by
  obtain ⟨recorder, phase, epilogs⟩ := t
  obtain rfl : phase = .body := hbody
  obtain ⟨hroom, hlog⟩ := hroom
  have hepilogs : word32 .add (epilogs.toNat + 1) = .ok (.ofNat (epilogs.toNat + 1)) := word32_of_lt hroom
  cases recorder with
  | x86 =>
    let closed : Tracker := { recorder := .x86, phase := .body, epilogs := .ofNat (epilogs.toNat + 1) }
    refine ⟨closed, ?_, rfl, UInt32.toNat_ofNat_of_lt' hroom, .x86⟩
    refine FrameRecorder.recordAll_cons_eq_ok_iff.2 ⟨{ recorder := .x86, phase := .inEpilog, epilogs }, rfl, ?_⟩
    exact FrameRecorder.recordAll_cons_eq_ok_iff.2 ⟨closed, record_eq_ok_iff.2 ⟨rfl, hepilogs, rfl⟩, rfl⟩
  | x64 log =>
    have hlog : log.epilogs.toNat + 1 < 2 ^ 32 := hlog log rfl
    let opened : PrologLog := { log with inEpilog := true }
    let last : PrologLog := { log with epilogs := .ofNat (log.epilogs.toNat + 1), inEpilog := false }
    have hlast : PrologLog.record .endEpilog opened = .ok () last :=
      PrologLog.record_endEpilog_eq_ok_iff.2 ⟨_, word32_of_lt hlog, rfl⟩
    let closed : Tracker := { recorder := .x64 last, phase := .body, epilogs := .ofNat (epilogs.toNat + 1) }
    have hrecord : FrameRecorder.record .endEpilog (Recorder.x64 opened) = .ok () (Recorder.x64 last) :=
      Recorder.record_x64_eq_ok_iff.2 ⟨last, hlast, rfl⟩
    refine ⟨closed, ?_, rfl, UInt32.toNat_ofNat_of_lt' hroom, .x64 rfl rfl (UInt32.toNat_ofNat_of_lt' hlog)⟩
    refine FrameRecorder.recordAll_cons_eq_ok_iff.2 ⟨{ recorder := .x64 opened, phase := .inEpilog, epilogs }, rfl, ?_⟩
    exact FrameRecorder.recordAll_cons_eq_ok_iff.2 ⟨closed, record_eq_ok_iff.2 ⟨rfl, hepilogs, hrecord⟩, rfl⟩

/-- An epilog leaves a tracker in the body and the operations of the prolog as they are. -/
theorem ops_of_recordAll_ofEpilog {t t' : Tracker} {log : PrologLog} (hlog : t.recorder = .x64 log)
    (h : FrameRecorder.recordAll FrameEvent.ofEpilog t = .ok () t') :
    t'.phase = .body ∧ ∃ log', t'.recorder = .x64 log' ∧ log'.ops = log.ops := by
  simp only [FrameEvent.ofEpilog, FrameRecorder.recordAll_cons_eq_ok_iff, record_eq_ok_iff] at h
  obtain ⟨opened, ⟨hopen, -, hfirst⟩, closed, ⟨hclose, -, hlast⟩, hdone⟩ := h
  cases hdone
  rw [hlog] at hfirst
  obtain ⟨_, ⟨⟩, hrecorder⟩ := Recorder.record_x64_eq_ok_iff.1 hfirst
  rw [hrecorder] at hlast
  obtain ⟨log', hend, hlast⟩ := Recorder.record_x64_eq_ok_iff.1 hlast
  obtain ⟨epilogs, -, rfl⟩ := PrologLog.record_endEpilog_eq_ok_iff.1 hend
  refine ⟨?_, _, hlast, rfl⟩
  cases hphase : opened.phase with
  | inEpilog =>
    rw [hphase] at hclose
    exact (Except.ok.inj hclose).symm
  | beforeProlog | inProlog | body =>
    rw [hphase] at hclose
    cases hclose

end Tracker

end StackUnwind
