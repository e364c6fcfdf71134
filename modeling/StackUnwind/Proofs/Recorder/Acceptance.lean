import StackUnwind.Proofs.Recorder.Grammar

namespace StackUnwind

namespace FrameRecorder

variable {ρ : Type} [FrameRecorder ρ] {r r' s : ρ} {event : FrameEvent} {before after events : List FrameEvent}

private theorem recordAll_append_eq_error {e : Fault} (hbefore : recordAll before r = .ok () s)
    (h : record event s = .error e r') : recordAll (before ++ event :: after) r = .error e r' := by
  induction before generalizing r with
  | nil =>
    cases hbefore
    rw [List.nil_append, recordAll_cons, run_bind_eq_error_iff]
    exact .inl h
  | cons first before ih =>
    obtain ⟨t, hfirst, hrest⟩ := recordAll_cons_eq_ok_iff.1 hbefore
    rw [List.cons_append, recordAll_cons, run_bind_eq_error_iff]
    exact .inr ⟨(), t, hfirst, ih hrest⟩

private theorem recordAll_concat_eq_ok_iff :
    recordAll (events ++ [event]) r = .ok () r' ↔ ∃ s, recordAll events r = .ok () s ∧ record event s = .ok () r' := by
  simp [recordAll_append_eq_ok_iff, recordAll_cons_eq_ok_iff, recordAll_nil]

end FrameRecorder

namespace FrameEvent

/-- The complaint about an event that may not happen in a phase. -/
def complaint : FrameEvent → Phase → Fault
  | beginProlog, _ => .prologRepeated
  | endProlog, _ => .prologNotOpen
  | beginEpilog, _ => .epilogOutsideBody
  | endEpilog, _ => .epilogNotOpen
  | op operation, phase => .opOutsideBracket operation phase

/-- Whether the counters of epilogs and of their operations suffice for events as far as these follow the grammar. -/
def Countable (events : List FrameEvent) : Prop :=
  ∀ b : Brackets, b.events <+: events → b.closed.length < 2 ^ 32 ∧ b.epilogOps.length < 2 ^ 32

end FrameEvent

namespace Brackets

/-- The log of an x64 function in which the brackets have been opened and closed. -/
def log (b : Brackets) : PrologLog where
  ops := b.prologOps
  epilogs := .ofNat b.closed.length
  inEpilog := b.phase == .inEpilog
  epilogOps := .ofNat b.epilogOps.length

def tracker (b : Brackets) : Tracker where
  recorder := .x64 b.log
  phase := b.phase
  epilogs := .ofNat b.closed.length

variable {b b' : Brackets} {event : FrameEvent}

private theorem advance_of_add_eq_some (h : b.add event = some b') : b.phase.advance event = .ok b'.phase := by
  cases b <;> cases event <;> cases h <;> rfl

private theorem advance_of_add_eq_none (h : b.add event = none) :
    b.phase.advance event = .error (event.complaint b.phase) := by
  cases b <;> cases event <;> cases h <;> rfl

private theorem length_closed_le_of_add (h : b.add event = some b') : b.closed.length ≤ b'.closed.length := by
  cases b <;> cases event <;> cases h <;> simp [closed]

private theorem length_epilogOps_le_of_add (h : b.add event = some b') : b.epilogOps.length ≤ b'.epilogOps.length := by
  cases b <;> cases event <;> cases h <;> simp [epilogOps]

private theorem word32_succ {n : Nat} (h : n + 1 < 2 ^ 32) :
    word32 .add ((UInt32.ofNat n).toNat + 1) = .ok (.ofNat (n + 1)) := by
  rw [UInt32.toNat_ofNat_of_lt' (Nat.lt_of_succ_lt h), word32_of_lt h]

private theorem epilogsAfter_tracker (h : b.add event = some b') (hclosed : b'.closed.length < 2 ^ 32) :
    b.tracker.epilogsAfter event = .ok (.ofNat b'.closed.length) := by
  cases b <;> cases event <;> cases h <;> try rfl
  case epilog.endEpilog ops epilogs current =>
    rw [closed, List.length_append] at hclosed ⊢
    exact word32_succ hclosed

private theorem record_log (h : b.add event = some b') (hclosed : b'.closed.length < 2 ^ 32)
    (hops : b'.epilogOps.length < 2 ^ 32) : PrologLog.record event b.log = .ok () b'.log := by
  cases b <;> cases event <;> cases h <;> try rfl
  case body.beginEpilog ops epilogs =>
    change EStateM.Result.ok () _ = _
    simp [log, prologOps, closed, phase, epilogOps]
  case epilog.endEpilog ops epilogs current =>
    rw [closed, List.length_append] at hclosed
    refine PrologLog.record_endEpilog_eq_ok_iff.2 ⟨_, word32_succ hclosed, ?_⟩
    simp [log, prologOps, closed, phase, epilogOps]
  case epilog.op ops epilogs current op =>
    have hlength : (epilog ops epilogs (current ++ [op])).epilogOps.length =
        (epilog ops epilogs current).epilogOps.length + 1 := by simp [epilogOps, Nat.add_assoc]
    rw [hlength] at hops
    refine (PrologLog.record_op_eq_ok_iff rfl).2 ⟨_, word32_succ hops, ?_⟩
    rw [← hlength]
    rfl

private theorem record_tracker (h : b.add event = some b') (hclosed : b'.closed.length < 2 ^ 32)
    (hops : b'.epilogOps.length < 2 ^ 32) : FrameRecorder.record event b.tracker = .ok () b'.tracker := by
  refine Tracker.record_eq_ok_iff.2 ⟨advance_of_add_eq_some h, epilogsAfter_tracker h hclosed, ?_⟩
  exact Recorder.record_x64_eq_ok_iff.2 ⟨b'.log, record_log h hclosed hops, rfl⟩

private theorem record_tracker_eq_error (h : b.add event = none) :
    FrameRecorder.record event b.tracker = .error (event.complaint b.phase) b.tracker := by
  have hphase : b.tracker.phase.advance event = .error (event.complaint b.phase) := advance_of_add_eq_none h
  rw [Tracker.record_eq, hphase]

private theorem recordAll_events (b : Brackets) (hclosed : b.closed.length < 2 ^ 32)
    (hops : b.epilogOps.length < 2 ^ 32) :
    FrameRecorder.recordAll b.events (Tracker.fresh .x64) = .ok () b.tracker := by
  generalize hevents : b.events = events
  rw [← read_eq_some_iff] at hevents
  induction events using List.reverseRecOn generalizing b with
  | nil =>
    cases hevents
    rfl
  | append_singleton events event ih =>
    rw [read_concat, Option.bind_eq_some_iff] at hevents
    obtain ⟨b', hread, hadd⟩ := hevents
    rw [FrameRecorder.recordAll_concat_eq_ok_iff]
    refine ⟨b'.tracker, ih b' ?_ ?_ hread, record_tracker hadd hclosed hops⟩
    · exact Nat.lt_of_le_of_lt (length_closed_le_of_add hadd) hclosed
    · exact Nat.lt_of_le_of_lt (length_epilogOps_le_of_add hadd) hops

/-- Epilogs keep what the prolog was. -/
theorem prologOps_of_add (h : b.add event = some b') (hdone : b.phase ≠ .beforeProlog ∧ b.phase ≠ .inProlog) :
    b'.prologOps = b.prologOps ∧ b'.phase ≠ .beforeProlog ∧ b'.phase ≠ .inProlog := by
  cases b <;> cases event <;> cases h <;> simp_all [prologOps, phase]

private theorem prologOps_of_foldlM {events : List FrameEvent} (h : events.foldlM add b = some b')
    (hdone : b.phase ≠ .beforeProlog ∧ b.phase ≠ .inProlog) : b'.prologOps = b.prologOps := by
  induction events generalizing b with
  | nil =>
    cases h
    rfl
  | cons event events ih =>
    rw [List.foldlM_cons] at h
    obtain ⟨s, hadd, hrest⟩ := Option.bind_eq_some_iff.1 h
    obtain ⟨hops, hdone⟩ := prologOps_of_add hadd hdone
    rw [ih hrest hdone, hops]

private theorem phase_of_endProlog_mem (h : .endProlog ∈ b.events) : b.phase ≠ .beforeProlog ∧ b.phase ≠ .inProlog := by
  cases b <;> simp_all [events, phase]

/-- What a tracker knows of brackets that have been opened and closed. -/
structure Recorded (b : Brackets) (t : Tracker) : Prop where
  log : ∃ log, t.recorder = .x64 log ∧ log.ops = b.prologOps ∧ log.epilogOps.toNat = b.epilogOps.length ∧
    log.epilogs.toNat = b.closed.length ∧ log.inEpilog = t.inEpilog
  epilogs : t.epilogs.toNat = b.closed.length
  inProlog_iff : t.inProlog = true ↔ ∃ ops, b = .prolog ops
  inEpilog_iff : t.inEpilog = true ↔ ∃ ops epilogs current, b = .epilog ops epilogs current

private theorem recorded_tracker (hclosed : b.closed.length < 2 ^ 32) (hops : b.epilogOps.length < 2 ^ 32) :
    b.Recorded b.tracker where
  log := ⟨b.log, rfl, rfl, UInt32.toNat_ofNat_of_lt' hops, UInt32.toNat_ofNat_of_lt' hclosed, rfl⟩
  epilogs := UInt32.toNat_ofNat_of_lt' hclosed
  inProlog_iff := by cases b <;> simp [Tracker.inProlog, tracker, phase]
  inEpilog_iff := by cases b <;> simp [Tracker.inEpilog, tracker, phase]

end Brackets

namespace FrameEvent

variable {events before after : List FrameEvent} {b : Brackets} {event : FrameEvent}

private theorem Countable.of_prefix (h : Countable events) (hbefore : before <+: events) : Countable before :=
  fun b hb => h b (hb.trans hbefore)

private theorem Countable.recordAll (h : Countable b.events) :
    FrameRecorder.recordAll b.events (Tracker.fresh .x64) = .ok () b.tracker :=
  b.recordAll_events (h b List.prefix_rfl).1 (h b List.prefix_rfl).2

private theorem length_flatMap_ofEpilogWith (epilogs : List (List PrologOp)) :
    (epilogs.flatMap ofEpilogWith).length = 2 * epilogs.length + epilogs.flatten.length := by
  induction epilogs with
  | nil => rfl
  | cons current epilogs ih =>
    simp only [List.flatMap_cons, List.flatten_cons, List.length_append, ih, ofEpilogWith, List.length_cons,
      List.length_map, List.length_nil]
    omega

private theorem countable_of_length_lt (h : events.length < 2 ^ 32) : Countable events := by
  intro b hb
  have hlength := Nat.lt_of_le_of_lt hb.length_le h
  cases b with
  | start | prolog ops => simp [Brackets.closed, Brackets.epilogOps]
  | body ops epilogs =>
    simp only [Brackets.events, ofFrame, List.length_append, length_flatMap_ofEpilogWith] at hlength
    simp only [Brackets.closed, Brackets.epilogOps]
    omega
  | epilog ops epilogs current =>
    simp only [Brackets.events, ofFrame, List.length_append, length_flatMap_ofEpilogWith, List.length_cons,
      List.length_map] at hlength
    simp only [Brackets.closed, Brackets.epilogOps, List.length_append]
    omega

/-- The longest part of the events that follows the grammar, and the event that leaves it. -/
theorem exists_first_of_not_wellNested (h : ¬ WellNested events) :
    ∃ b event after, events = Brackets.events b ++ event :: after ∧ b.add event = none := by
  induction events using List.reverseRecOn with
  | nil => exact absurd ⟨[], [], List.nil_prefix⟩ h
  | append_singleton events event ih =>
    by_cases hbefore : WellNested events
    · obtain ⟨b, rfl⟩ := Brackets.wellNested_iff.1 hbefore
      cases hadd : b.add event with
      | none => exact ⟨b, event, [], rfl, hadd⟩
      | some b' => exact absurd (Brackets.wellNested_iff.2 ⟨b', Brackets.events_add hadd⟩) h
    · obtain ⟨b, first, after, rfl, hadd⟩ := ih hbefore
      exact ⟨b, first, after ++ [event], by simp, hadd⟩

private theorem not_wellNested_of_add_eq_none (h : b.add event = none) : ¬ WellNested (b.events ++ [event]) := by
  intro hnested
  obtain ⟨b', hb'⟩ := Brackets.wellNested_iff.1 hnested
  rw [← Brackets.read_eq_some_iff, Brackets.read_concat, Brackets.read_events, Option.bind_some, h] at hb'
  cases hb'

end FrameEvent

namespace Tracker

variable {events : List FrameEvent}

/-- Events that do not follow the grammar are told up to the first that leaves it. -/
theorem exists_refused (hcount : FrameEvent.Countable events) (h : ¬ FrameEvent.WellNested events) :
    ∃ b event after, events = Brackets.events b ++ event :: after ∧ b.add event = none ∧
      FrameRecorder.recordAll b.events (fresh .x64) = .ok () b.tracker ∧
      FrameRecorder.recordAll events (fresh .x64) = .error (event.complaint b.phase) b.tracker := by
  obtain ⟨b, event, after, rfl, hadd⟩ := FrameEvent.exists_first_of_not_wellNested h
  have hbefore : FrameEvent.Countable b.events := hcount.of_prefix (List.prefix_append _ _)
  refine ⟨b, event, after, rfl, hadd, hbefore.recordAll, ?_⟩
  exact FrameRecorder.recordAll_append_eq_error hbefore.recordAll (Brackets.record_tracker_eq_error hadd)

/-- Accepted events are those of some brackets. -/
theorem exists_brackets_of_recordAll {t : Tracker} (hcount : FrameEvent.Countable events)
    (h : FrameRecorder.recordAll events (fresh .x64) = .ok () t) :
    ∃ b : Brackets, b.events = events ∧ t = b.tracker := by
  by_cases hnested : FrameEvent.WellNested events
  · obtain ⟨b, rfl⟩ := Brackets.wellNested_iff.1 hnested
    rw [hcount.recordAll] at h
    cases h
    exact ⟨b, rfl, rfl⟩
  · obtain ⟨b, event, after, -, -, -, hrefused⟩ := exists_refused hcount hnested
    rw [hrefused] at h
    cases h

/-- A tracker accepts exactly the events that follow the grammar, and knows afterwards what they were. Of others it
    refuses the first that leaves the grammar, with its own complaint and staying as it is. Once the prolog is closed
    nothing that follows changes the records. -/
theorem recordAll_grammar (events : List FrameEvent) (hcount : FrameEvent.Countable events) :
    ((∃ t, FrameRecorder.recordAll events (fresh .x64) = .ok () t) ↔ FrameEvent.WellNested events) ∧
    (∀ t, FrameRecorder.recordAll events (fresh .x64) = .ok () t → ∃ b : Brackets, b.events = events ∧ b.Recorded t) ∧
    (¬ FrameEvent.WellNested events → ∃ before event after t, events = before ++ event :: after ∧
      FrameEvent.WellNested before ∧ ¬ FrameEvent.WellNested (before ++ [event]) ∧
      FrameRecorder.recordAll before (fresh .x64) = .ok () t ∧
      FrameRecorder.recordAll events (fresh .x64) = .error (event.complaint t.phase) t) ∧
    (∀ before after t t', events = before ++ after → .endProlog ∈ before →
      FrameRecorder.recordAll before (fresh .x64) = .ok () t → FrameRecorder.recordAll events (fresh .x64) = .ok () t' →
      ∀ region codeLength, t'.recorder.infoSize region = t.recorder.infoSize region ∧
        t'.recorder.info region codeLength = t.recorder.info region codeLength) := by
  refine ⟨⟨?_, ?_⟩, ?_, ?_, ?_⟩
  · rintro ⟨t, h⟩
    obtain ⟨b, hb, -⟩ := exists_brackets_of_recordAll hcount h
    exact Brackets.wellNested_iff.2 ⟨b, hb⟩
  · intro h
    obtain ⟨b, rfl⟩ := Brackets.wellNested_iff.1 h
    exact ⟨b.tracker, hcount.recordAll⟩
  · intro t h
    obtain ⟨b, rfl, rfl⟩ := exists_brackets_of_recordAll hcount h
    obtain ⟨hclosed, hops⟩ := hcount b List.prefix_rfl
    exact ⟨b, rfl, Brackets.recorded_tracker hclosed hops⟩
  · intro h
    obtain ⟨b, event, after, hevents, hadd, hbefore, hrefused⟩ := exists_refused hcount h
    exact ⟨b.events, event, after, b.tracker, hevents, Brackets.wellNested_iff.2 ⟨b, rfl⟩,
      FrameEvent.not_wellNested_of_add_eq_none hadd, hbefore, hrefused⟩
  · rintro before after t t' rfl hmem hbefore hevents region codeLength
    obtain ⟨b, rfl, rfl⟩ := exists_brackets_of_recordAll (hcount.of_prefix (List.prefix_append _ _)) hbefore
    obtain ⟨b', hb', rfl⟩ := exists_brackets_of_recordAll hcount hevents
    rw [← Brackets.read_eq_some_iff, Brackets.read_append, Brackets.read_events, Option.bind_some] at hb'
    have hops : b'.prologOps = b.prologOps :=
      Brackets.prologOps_of_foldlM hb' (Brackets.phase_of_endProlog_mem hmem)
    cases region <;> simp [Brackets.tracker, Recorder.infoSize, Recorder.info, Brackets.log, hops]

/-- A prolog and two epilogs, with a third one that is begun inside of the second. -/
def sampleEvents : List FrameEvent :=
  FrameEvent.ofFrame [.push .rbp, .alloc 32] [[.alloc 32, .push .rbp]] ++ [.beginEpilog, .op (.alloc 32), .beginEpilog]

theorem recordAll_grammar_sampleEvents : FrameEvent.Countable sampleEvents ∧ ¬ FrameEvent.WellNested sampleEvents ∧
    ∃ before event after t, sampleEvents = before ++ event :: after ∧
      FrameRecorder.recordAll before (fresh .x64) = .ok () t ∧
      FrameRecorder.recordAll sampleEvents (fresh .x64) = .error .epilogOutsideBody t := by
  have hcount : FrameEvent.Countable sampleEvents := FrameEvent.countable_of_length_lt (by decide)
  obtain ⟨haccepted, -, hrefused, -⟩ := recordAll_grammar sampleEvents hcount
  have hfault : outcome (FrameRecorder.recordAll sampleEvents) (fresh .x64) = .error .epilogOutsideBody := by decide
  have hnot : ¬ FrameEvent.WellNested sampleEvents := by
    intro hnested
    obtain ⟨t, ht⟩ := haccepted.2 hnested
    rw [outcome, ht] at hfault
    cases hfault
  obtain ⟨before, event, after, t, hevents, -, -, hbefore, htold⟩ := hrefused hnot
  rw [outcome, htold] at hfault
  rw [Except.error.inj hfault] at htold
  exact ⟨hcount, hnot, before, event, after, t, hevents, hbefore, htold⟩

end Tracker

end StackUnwind
