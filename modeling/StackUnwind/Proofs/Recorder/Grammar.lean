import StackUnwind.Proofs.Recorder.Brackets

namespace StackUnwind

namespace FrameEvent

/-- What is reported about an epilog in which operations are reported too. -/
def ofEpilogWith (ops : List PrologOp) : List FrameEvent := .beginEpilog :: (ops.map .op ++ [.endEpilog])

/-- What is reported about a prolog and the epilogs after it. -/
def ofFrame (ops : List PrologOp) (epilogs : List (List PrologOp)) : List FrameEvent :=
  ofProlog ops ++ epilogs.flatMap ofEpilogWith

/-- Whether events follow the grammar as far as they go. -/
def WellNested (events : List FrameEvent) : Prop := ∃ ops epilogs, events <+: ofFrame ops epilogs

end FrameEvent

/-- Brackets that have been opened, with the operations in them. -/
inductive Brackets where
  | start
  | prolog (ops : List PrologOp)
  | body (ops : List PrologOp) (epilogs : List (List PrologOp))
  | epilog (ops : List PrologOp) (epilogs : List (List PrologOp)) (current : List PrologOp)
  deriving DecidableEq, Repr

namespace Brackets

/-- The events that open and close the brackets. -/
def events : Brackets → List FrameEvent
  | start => []
  | prolog ops => .beginProlog :: ops.map .op
  | body ops epilogs => FrameEvent.ofFrame ops epilogs
  | epilog ops epilogs current => FrameEvent.ofFrame ops epilogs ++ .beginEpilog :: current.map .op

/-- The brackets after one more event, if it may follow. -/
def add : Brackets → FrameEvent → Option Brackets
  | start, .beginProlog => some (prolog [])
  | prolog ops, .op op => some (prolog (ops ++ [op]))
  | prolog ops, .endProlog => some (body ops [])
  | body ops epilogs, .beginEpilog => some (epilog ops epilogs [])
  | epilog ops epilogs current, .op op => some (epilog ops epilogs (current ++ [op]))
  | epilog ops epilogs current, .endEpilog => some (body ops (epilogs ++ [current]))
  | _, _ => none

/-- The brackets that events open and close, if these follow the grammar. -/
def read (events : List FrameEvent) : Option Brackets := events.foldlM add start

def phase : Brackets → Phase
  | start => .beforeProlog
  | prolog _ => .inProlog
  | body .. => .body
  | epilog .. => .inEpilog

/-- The operations of the prolog. -/
def prologOps : Brackets → List PrologOp
  | start => []
  | prolog ops | body ops _ | epilog ops _ _ => ops

/-- The epilogs that have been closed. -/
def closed : Brackets → List (List PrologOp)
  | start | prolog _ => []
  | body _ epilogs | epilog _ epilogs _ => epilogs

/-- The operations of all epilogs. -/
def epilogOps : Brackets → List PrologOp
  | start | prolog _ => []
  | body _ epilogs => epilogs.flatten
  | epilog _ epilogs current => epilogs.flatten ++ current

variable {b b' : Brackets} {event : FrameEvent}

/-- One more event is added at the end. -/
theorem events_add (h : b.add event = some b') : b'.events = b.events ++ [event] := by
  cases b <;> cases event <;> cases h <;>
    simp [events, FrameEvent.ofFrame, FrameEvent.ofProlog, FrameEvent.ofEpilogWith]

/-- Reading goes on from what has been read. -/
theorem read_append (before after : List FrameEvent) :
    read (before ++ after) = (read before).bind fun b => after.foldlM add b := by
  rw [read, List.foldlM_append]
  rfl

theorem read_concat (events : List FrameEvent) (event : FrameEvent) :
    read (events ++ [event]) = (read events).bind fun b => b.add event := by
  simp [read_append]

private theorem foldlM_add_prolog (ops ops' : List PrologOp) :
    (ops'.map FrameEvent.op).foldlM add (prolog ops) = some (prolog (ops ++ ops')) := by
  induction ops' generalizing ops with
  | nil => simp [pure]
  | cons op ops' ih => simp [add, ih]

private theorem foldlM_add_epilog (ops : List PrologOp) (epilogs : List (List PrologOp))
    (current ops' : List PrologOp) :
    (ops'.map FrameEvent.op).foldlM add (epilog ops epilogs current) =
      some (epilog ops epilogs (current ++ ops')) := by
  induction ops' generalizing current with
  | nil => simp [pure]
  | cons op ops' ih => simp [add, ih]

private theorem foldlM_add_epilogs (ops : List PrologOp) (epilogs epilogs' : List (List PrologOp)) :
    (epilogs'.flatMap FrameEvent.ofEpilogWith).foldlM add (body ops epilogs) = some (body ops (epilogs ++ epilogs')) := by
  induction epilogs' generalizing epilogs with
  | nil => simp [pure]
  | cons current epilogs' ih =>
    simp [FrameEvent.ofEpilogWith, add, foldlM_add_epilog, ih]

/-- The events of brackets are read back. -/
theorem read_events (b : Brackets) : read b.events = some b := by
  have hprolog (ops : List PrologOp) : read (.beginProlog :: ops.map .op) = some (prolog ops) :=
    foldlM_add_prolog [] ops
  have hframe (ops : List PrologOp) (epilogs : List (List PrologOp)) :
      read (FrameEvent.ofFrame ops epilogs) = some (body ops epilogs) := by
    rw [FrameEvent.ofFrame, FrameEvent.ofProlog, ← List.cons_append, List.append_assoc, read_append, hprolog]
    exact foldlM_add_epilogs ops [] epilogs
  cases b with
  | start => rfl
  | prolog ops => exact hprolog ops
  | body ops epilogs => exact hframe ops epilogs
  | epilog ops epilogs current =>
    rw [events, read_append, hframe]
    exact foldlM_add_epilog ops epilogs [] current

/-- What is read from events has just these events. -/
theorem read_eq_some_iff {events : List FrameEvent} {b : Brackets} : read events = some b ↔ b.events = events := by
  constructor
  · intro h
    induction events using List.reverseRecOn generalizing b with
    | nil =>
      cases h
      rfl
    | append_singleton events event ih =>
      rw [read_concat, Option.bind_eq_some_iff] at h
      obtain ⟨b', hread, hadd⟩ := h
      rw [events_add hadd, ih hread]
  · rintro rfl
    exact read_events b

/-- Events are well nested exactly if they are those of some brackets. -/
theorem wellNested_iff {events : List FrameEvent} :
    FrameEvent.WellNested events ↔ ∃ b : Brackets, b.events = events := by
  constructor
  · rintro ⟨ops, epilogs, after, hwhole⟩
    have hread : read (events ++ after) = some (body ops epilogs) := by
      rw [hwhole]
      exact read_events (body ops epilogs)
    rw [read_append, Option.bind_eq_some_iff] at hread
    obtain ⟨b, hb, -⟩ := hread
    exact ⟨b, read_eq_some_iff.1 hb⟩
  · rintro ⟨b, rfl⟩
    cases b with
    | start => exact ⟨[], [], List.nil_prefix⟩
    | prolog ops => exact ⟨ops, [], [.endProlog], by simp [events, FrameEvent.ofFrame, FrameEvent.ofProlog]⟩
    | body ops epilogs => exact ⟨ops, epilogs, List.prefix_rfl⟩
    | epilog ops epilogs current =>
      exact ⟨ops, epilogs ++ [current], [.endEpilog], by simp [events, FrameEvent.ofFrame, FrameEvent.ofEpilogWith]⟩

end Brackets

end StackUnwind
