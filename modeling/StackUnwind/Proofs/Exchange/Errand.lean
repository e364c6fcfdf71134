import StackUnwind.Exchange
import StackUnwind.Proofs.Outcome

namespace StackUnwind

inductive HostRequest where
  | reserve (r : Reservation)
  | commit (c : Commit)
  deriving DecidableEq, Repr

/-- A request with the text that is traced before it is made and the count that is taken once it is accepted. -/
structure Errand where
  request : HostRequest
  text : String
  tally : Stats → Except Fault Stats

namespace Host

variable {σ : Type}

def answer (host : Host σ) : HostRequest → EStateM UnwindError σ Unit
  | .reserve r => host.reserve r
  | .commit c => host.commit c

/-- Whether a host accepts every request, whatever it was asked before. -/
def AcceptsAll (host : Host σ) : Prop :=
  ∀ request s, ∃ s', host.answer request s = .ok () s'

/-- Ask a host and keep the request, whether it is accepted or refused. -/
def keep (host : Host σ) (request : HostRequest) : EStateM UnwindError (σ × List HostRequest) Unit := fun (s, made) =>
  match host.answer request s with
  | .ok _ s => .ok () (s, made ++ [request])
  | .error e s => .error e (s, made ++ [request])

/-- A host beside a list of the requests that were made to it. -/
def watched (host : Host σ) : Host (σ × List HostRequest) where
  reserve r := host.keep (.reserve r)
  commit c := host.keep (.commit c)

private theorem answer_watched (host : Host σ) (request : HostRequest) :
    host.watched.answer request = host.keep request := by
  cases request <;> rfl

end Host

namespace Exchange

/-- The same exchange with a host beside which a list of requests is kept. -/
def watching {σ : Type} (x : Exchange σ) (made : List HostRequest) : Exchange (σ × List HostRequest) :=
  { host := (x.host, made), session := x.session, log := x.log }

end Exchange

namespace Errand

variable {σ : Type}

def run (e : Errand) (host : Host σ) : ExchangeM σ Unit := do
  Exchange.trace e.text
  Exchange.ask (host.answer e.request)
  Exchange.count e.tally

/-- An errand stops where the host refuses the request or where the count overflows, after the request. -/
theorem run_eq (e : Errand) (host : Host σ) (x : Exchange σ) :
    e.run host x =
      let log := x.log ++ [⟨.debug, s!"{x.session.name}: {e.text}"⟩]
      match host.answer e.request x.host with
      | .error refusal s => .error (.error refusal) { x with host := s, log }
      | .ok _ s =>
        match e.tally x.session.stats with
        | .error fault => .error (.fault fault) { x with host := s, log }
        | .ok stats => .ok () { host := s, session := { x.session with stats }, log } := by
  simp only [run, bind, EStateM.bind, Exchange.trace, Exchange.ask, onPart, Exchange.count, modify, modifyGet,
    MonadStateOf.modifyGet, EStateM.modifyGet]
  cases host.answer e.request x.host with
  | error refusal s => rfl
  | ok u s =>
    simp only [get, getThe, MonadStateOf.get, EStateM.get]
    cases e.tally x.session.stats <;> rfl

/-- Watching a host adds the request and changes nothing else. -/
theorem run_watched (e : Errand) (host : Host σ) (x : Exchange σ) (made : List HostRequest) :
    e.run host.watched (x.watching made) =
      mapState (Exchange.watching · (made ++ [e.request])) (e.run host x) := by
  simp only [run_eq, Host.answer_watched, Host.keep, Exchange.watching]
  cases host.answer e.request x.host with
  | error refusal s => rfl
  | ok u s => cases e.tally x.session.stats <;> rfl

end Errand

namespace Exchange

variable {σ α : Type} {host : Host σ} {x y : Exchange σ}

/-- Run errands in order. One that cannot be made up stops the work before its request. -/
def serve (host : Host σ) (steps : List (Except (Stop UnwindError) Errand)) : ExchangeM σ Unit :=
  steps.forM fun step => do (← step).run host

/-- The requests that are made while errands are run. -/
def asked (host : Host σ) : List (Except (Stop UnwindError) Errand) → Exchange σ → List HostRequest
  | [], _ => []
  | .error _ :: _, _ => []
  | .ok e :: steps, x =>
    e.request :: match e.run host x with
      | .ok _ y => asked host steps y
      | .error _ _ => []

theorem serve_singleton (host : Host σ) (step : Except (Stop UnwindError) Errand) :
    serve host [step] = (do (← step).run host) :=
  bind_pure_unit

theorem serve_cons_ok (host : Host σ) (e : Errand) (steps : List (Except (Stop UnwindError) Errand)) :
    serve host (.ok e :: steps) = e.run host >>= fun _ => serve host steps := rfl

/-- Errands are run one after another, so that a list of them may be cut anywhere. -/
theorem serve_append (host : Host σ) (first second : List (Except (Stop UnwindError) Errand)) :
    serve host (first ++ second) = serve host first >>= fun _ => serve host second :=
  List.forM_append

theorem serve_cons (host : Host σ) (step : Except (Stop UnwindError) Errand)
    (steps : List (Except (Stop UnwindError) Errand)) :
    serve host (step :: steps) = serve host [step] >>= fun _ => serve host steps :=
  serve_append host [step] steps

/-- Work that is a run of errands for each thing is a run of all these errands. -/
theorem forM_eq_serve {work : α → ExchangeM σ Unit} {steps : α → List (Except (Stop UnwindError) Errand)}
    {as : List α} (h : ∀ a ∈ as, work a = serve host (steps a)) :
    as.forM work = serve host (as.flatMap steps) := by
  induction as with
  | nil => rfl
  | cons a as ih =>
    rw [List.flatMap_cons, serve_append, ← h a (.head _), ← ih fun a' hmem => h a' (.tail _ hmem)]
    rfl

/-- A host that keeps what it is asked for answers as before. -/
theorem serve_watched (host : Host σ) (steps : List (Except (Stop UnwindError) Errand)) (x : Exchange σ)
    (made : List HostRequest) :
    serve host.watched steps (x.watching made) =
      mapState (watching · (made ++ asked host steps x)) (serve host steps x) := by
  -- The requests made before are generalised over, since each errand adds its own to them.
  induction steps generalizing x made with
  | nil =>
    rw [asked, List.append_nil]
    rfl
  | cons step steps ih =>
    cases step with
    | error stop =>
      rw [asked, List.append_nil]
      rfl
    | ok e =>
      simp only [serve_cons_ok, bind, EStateM.bind, e.run_watched, asked]
      cases e.run host x with
      | error stop y => rfl
      | ok u y =>
        simp only [mapState, ih, List.append_assoc, List.singleton_append]

/-- The requests are those of the first few errands. -/
theorem exists_asked_eq (host : Host σ) (steps : List (Except (Stop UnwindError) Errand)) (x : Exchange σ) :
    ∃ es : List Errand, es.map .ok <+: steps ∧ asked host steps x = es.map Errand.request := by
  induction steps generalizing x with
  | nil => exact ⟨[], List.nil_prefix, rfl⟩
  | cons step steps ih =>
    cases step with
    | error stop => exact ⟨[], List.nil_prefix, rfl⟩
    | ok e =>
      cases hrun : e.run host x with
      | error stop y => exact ⟨[e], ⟨steps, rfl⟩, by simp [asked, hrun]⟩
      | ok u y =>
        obtain ⟨es, hprefix, hasked⟩ := ih y
        exact ⟨e :: es, (List.prefix_cons_inj _).2 hprefix, by simp [asked, hrun, hasked]⟩

/-- Work that comes to its end has run every errand. -/
theorem exists_errands_of_serve {steps : List (Except (Stop UnwindError) Errand)} (h : serve host steps x = .ok () y) :
    ∃ es : List Errand, steps = es.map .ok ∧ asked host steps x = es.map Errand.request := by
  induction steps generalizing x with
  | nil => exact ⟨[], rfl, rfl⟩
  | cons step steps ih =>
    cases step with
    | error stop => cases h
    | ok e =>
      rw [serve_cons_ok, run_bind_eq_ok_iff] at h
      obtain ⟨⟨⟩, z, hrun, hrest⟩ := h
      obtain ⟨es, rfl, hasked⟩ := ih hrest
      exact ⟨e :: es, rfl, by simp [asked, hrun, hasked]⟩

end Exchange

end StackUnwind
