import StackUnwind.Proofs.Exchange.Errand
import StackUnwind.Proofs.Session.Counts

namespace StackUnwind

namespace HostRequest

def reservation? : HostRequest → Option Reservation
  | .reserve r => some r
  | .commit _ => none

def commit? : HostRequest → Option Commit
  | .reserve _ => none
  | .commit k => some k

end HostRequest

namespace Host

variable {σ : Type} {host : Host σ} {s s' : σ} {request : HostRequest} {made : List HostRequest}

/-- The state of a host after requests, whether it accepted them or not. -/
def after (host : Host σ) (s : σ) (made : List HostRequest) : σ :=
  made.foldl (fun s request => endState (host.answer request s)) s

/-- Those of several requests that a host accepts. -/
def accepted (host : Host σ) (s : σ) : List HostRequest → List HostRequest
  | [] => []
  | request :: made => match host.answer request s with
    | .ok _ s' => request :: accepted host s' made
    | .error _ s' => accepted host s' made

theorem after_append (host : Host σ) (s : σ) (made more : List HostRequest) :
    host.after s (made ++ more) = host.after (host.after s made) more :=
  List.foldl_append

theorem after_cons_of_ok (h : host.answer request s = .ok () s') (made : List HostRequest) :
    host.after s (request :: made) = host.after s' made := by
  rw [after, List.foldl_cons, h]
  rfl

theorem accepted_cons_of_ok (h : host.answer request s = .ok () s') (made : List HostRequest) :
    host.accepted s (request :: made) = request :: host.accepted s' made := by
  rw [accepted, h]

/-- What is accepted of more requests depends on the host that the first ones leave. -/
theorem accepted_append (host : Host σ) (s : σ) (made more : List HostRequest) :
    host.accepted s (made ++ more) = host.accepted s made ++ host.accepted (host.after s made) more := by
  induction made generalizing s with
  | nil => rfl
  | cons request made ih =>
    cases h : host.answer request s with
    | ok u s' => simp only [List.cons_append, accepted, after, List.foldl_cons, h, endState, ih]
    | error e s' => simp only [List.cons_append, accepted, after, List.foldl_cons, h, endState, ih]

/-- How a host is asked for what has been planned: for all of it, up to and including the first request that it
    refuses, or up to the first that cannot be made up. -/
inductive Ends (host : Host σ) (s : σ) (plan : List (Except (Stop UnwindError) HostRequest)) :
    List HostRequest → Except (Stop UnwindError) Unit → Prop where
  | complete {made : List HostRequest} (hplan : plan = made.map .ok) (haccepted : host.accepted s made = made) :
      Ends host s plan made (.ok ())
  | refused {before : List HostRequest} {request : HostRequest} {rest : List (Except (Stop UnwindError) HostRequest)}
      {e : UnwindError} {s' : σ} (hplan : plan = before.map .ok ++ .ok request :: rest)
      (haccepted : host.accepted s before = before)
      (hrefused : host.answer request (host.after s before) = .error e s') :
      Ends host s plan (before ++ [request]) (.error (.error e))
  | missing {made : List HostRequest} {rest : List (Except (Stop UnwindError) HostRequest)} {e : UnwindError}
      (hplan : plan = made.map .ok ++ .error (.error e) :: rest) (haccepted : host.accepted s made = made) :
      Ends host s plan made (.error (.error e))

private theorem Ends.cons {plan : List (Except (Stop UnwindError) HostRequest)}
    {result : Except (Stop UnwindError) Unit}
    (hanswer : host.answer request s = .ok () s') (h : host.Ends s' plan made result) :
    host.Ends s (.ok request :: plan) (request :: made) result := by
  cases h with
  | complete hplan haccepted =>
    exact .complete (by rw [hplan, List.map_cons]) (by rw [accepted_cons_of_ok hanswer, haccepted])
  | refused hplan haccepted hrefused =>
    rw [← after_cons_of_ok hanswer] at hrefused
    exact .refused (by rw [hplan, List.map_cons, List.cons_append]) (by rw [accepted_cons_of_ok hanswer, haccepted])
      hrefused
  | missing hplan haccepted =>
    exact .missing (by rw [hplan, List.map_cons, List.cons_append]) (by rw [accepted_cons_of_ok hanswer, haccepted])

end Host

namespace Stats

variable {stats stats' : Stats} {onePiece : Bool} {accepted : List HostRequest} {r : Reservation} {k : Commit}
  {region : Region} {size : UInt64}

/-- Whether counts are those of the requests that were accepted. Commits of a root are of a whole unit if the unit is
    reported in one piece. -/
structure Counts (stats : Stats) (onePiece : Bool) (accepted : List HostRequest) : Prop where
  reservations : stats.reservations.toNat = (accepted.filterMap HostRequest.reservation?).length
  reservedBytes : stats.reservedBytes.toNat =
    ((accepted.filterMap HostRequest.reservation?).map fun r => r.size.toNat).sum
  commits : stats.commits.toNat = (accepted.filterMap HostRequest.commit?).length
  committedBytes : stats.committedBytes.toNat =
    ((accepted.filterMap HostRequest.commit?).map fun k => k.payload.length).sum
  coldCommits : stats.coldCommits.toNat = (accepted.filterMap HostRequest.commit?).countP (·.coldBase.isSome)
  funcletCommits : stats.funcletCommits.toNat = (accepted.filterMap HostRequest.commit?).countP (·.kind.isFunclet)
  fakeSplitCommits : stats.fakeSplitCommits.toNat =
    if onePiece then (accepted.filterMap HostRequest.commit?).countP (·.kind == .root) else 0

theorem counts_nil : Counts {} onePiece [] := by
  constructor
  case fakeSplitCommits => cases onePiece <;> rfl
  all_goals rfl

/-- A reservation that is recorded is counted among those that were accepted. -/
theorem Counts.of_recordReservation (h : stats.Counts onePiece accepted)
    (hrecord : stats.recordReservation r.size = .ok stats') : stats'.Counts onePiece (accepted ++ [.reserve r]) := by
  obtain ⟨reservations, reservedBytes, hreservations, hreservedBytes, rfl⟩ := recordReservation_eq_ok_iff.1 hrecord
  constructor <;>
    simp only [List.filterMap_append, List.filterMap_cons, List.filterMap_nil, HostRequest.reservation?,
      HostRequest.commit?, List.append_nil, List.length_append, List.length_singleton, List.map_append,
      List.map_singleton, List.sum_append, List.sum_singleton, ← h.reservations, ← h.reservedBytes]
  case reservations => exact hreservations.symm
  case reservedBytes => exact hreservedBytes.symm
  case commits => exact h.commits
  case committedBytes => exact h.committedBytes
  case coldCommits => exact h.coldCommits
  case funcletCommits => exact h.funcletCommits
  case fakeSplitCommits => exact h.fakeSplitCommits

/-- A commit counts as one of cold code if it is made with a cold base, and one of a root as one of a whole unit if
    the unit is reported in one piece. -/
theorem Counts.of_recordCommit (h : stats.Counts onePiece accepted)
    (hrecord : stats.recordCommit k.kind region size = .ok stats') (hsize : size.toNat = k.payload.length)
    (hregion : region.isCold = k.coldBase.isSome) {fakeSplitCommits : UInt64}
    (hfake : stats'.fakeSplitCommits.toNat + (if onePiece ∧ k.kind = .root then 1 else 0) = fakeSplitCommits.toNat) :
    Stats.Counts { stats' with fakeSplitCommits } onePiece (accepted ++ [.commit k]) := by
  obtain ⟨commits, committedBytes, coldCommits, funcletCommits, hcommits, hcommittedBytes, hcold, hfunclet, rfl⟩ :=
    recordCommit_eq_ok_iff.1 hrecord
  rw [hregion] at hcold
  rw [hsize] at hcommittedBytes
  rw [h.fakeSplitCommits] at hfake
  constructor <;>
    simp only [List.filterMap_append, List.filterMap_cons, List.filterMap_nil, HostRequest.reservation?,
      HostRequest.commit?, List.append_nil, List.length_append, List.length_singleton, List.map_append,
      List.map_singleton, List.sum_append, List.sum_singleton, List.countP_append, List.countP_singleton,
      ← h.commits, ← h.committedBytes, ← h.coldCommits, ← h.funcletCommits]
  case reservations => exact h.reservations
  case reservedBytes => exact h.reservedBytes
  case commits => exact hcommits.symm
  case committedBytes => exact hcommittedBytes.symm
  case coldCommits => exact hcold.symm
  case funcletCommits => exact hfunclet.symm
  case fakeSplitCommits =>
    rw [← hfake]
    cases onePiece <;> simp

end Stats

namespace Errand

variable {σ : Type} {host : Host σ} {e : Errand} {x : Exchange σ}

/-- Whether counting an errand keeps the counts right. -/
def Tallies (e : Errand) (onePiece : Bool) : Prop :=
  ∀ stats stats' accepted, Stats.Counts stats onePiece accepted → e.tally stats = .ok stats' →
    stats'.Counts onePiece (accepted ++ [e.request])

/-- An errand is refused and not counted, or accepted and counted, unless the count overflows. -/
theorem run_cases (h : ∀ fault, verdict (e.run host x) ≠ .error (.fault fault)) :
    (∃ refusal y, e.run host x = .error (.error refusal) y ∧ host.answer e.request x.host = .error refusal y.host ∧
      y.session.stats = x.session.stats) ∨
    ∃ y, e.run host x = .ok () y ∧ host.answer e.request x.host = .ok () y.host ∧
      e.tally x.session.stats = .ok y.session.stats := by
  simp only [run_eq] at h ⊢
  cases hanswer : host.answer e.request x.host with
  | error refusal s => exact .inl ⟨refusal, _, rfl, rfl, rfl⟩
  | ok u s =>
    cases htally : e.tally x.session.stats with
    | error fault =>
      simp only [hanswer, htally] at h
      exact absurd rfl (h fault)
    | ok stats => exact .inr ⟨_, rfl, rfl, rfl⟩

end Errand

namespace Exchange

variable {σ : Type} {host : Host σ} {onePiece : Bool}

/-- Errands that run into no fault end as planned, and what has been accepted is what has been counted. -/
theorem serve_ends {steps : List (Except (Stop UnwindError) Errand)} {x : Exchange σ} {earlier : List HostRequest}
    (htallies : ∀ e, .ok e ∈ steps → e.Tallies onePiece) (hcounts : x.session.stats.Counts onePiece earlier)
    (hfaultless : ∀ fault, verdict (serve host steps x) ≠ .error (.fault fault)) :
    host.Ends x.host (steps.map (·.map Errand.request)) (asked host steps x) (verdict (serve host steps x)) ∧
      (endState (serve host steps x)).host = host.after x.host (asked host steps x) ∧
      (endState (serve host steps x)).session.stats.Counts onePiece
        (earlier ++ host.accepted x.host (asked host steps x)) := by
  -- What is accepted of the first errand counts as accepted earlier for the others.
  induction steps generalizing x earlier with
  | nil =>
    refine ⟨.complete rfl rfl, rfl, ?_⟩
    rw [asked, Host.accepted, List.append_nil]
    exact hcounts
  | cons step steps ih =>
    cases step with
    | error stop =>
      refine ⟨?_, rfl, ?_⟩
      · cases stop with
        | fault fault => exact absurd rfl (hfaultless fault)
        | error e => exact .missing rfl rfl
      · rw [asked, Host.accepted, List.append_nil]
        exact hcounts
    | ok e =>
      have hrun : ∀ fault, verdict (e.run host x) ≠ .error (.fault fault) := by
        intro fault hfault
        apply hfaultless fault
        simp only [serve_cons_ok, bind, EStateM.bind]
        cases hstop : e.run host x with
        | ok u y => simp [hstop, verdict] at hfault
        | error stop y => rwa [hstop] at hfault
      obtain ⟨refusal, y, hrefused, hanswer, hstats⟩ | ⟨y, haccepted, hanswer, htally⟩ := e.run_cases hrun
      · have hserve : serve host (.ok e :: steps) x = .error (.error refusal) y := by
          simp only [serve_cons_ok, bind, EStateM.bind, hrefused]
        have hasked : asked host (.ok e :: steps) x = [e.request] := by
          simp only [asked, hrefused]
        have hends : host.Ends x.host ((Except.ok e :: steps).map (·.map Errand.request)) ([] ++ [e.request])
            (.error (.error refusal)) := .refused rfl rfl hanswer
        rw [hserve, hasked]
        refine ⟨hends, ?_, ?_⟩
        · simp only [endState, Host.after, List.foldl_cons, List.foldl_nil, hanswer]
        · simp only [endState, hstats, Host.accepted, hanswer, List.append_nil]
          exact hcounts
      · have hserve : serve host (.ok e :: steps) x = serve host steps y := by
          simp only [serve_cons_ok, bind, EStateM.bind, haccepted]
        have hasked : asked host (.ok e :: steps) x = e.request :: asked host steps y := by
          simp only [asked, haccepted]
        have hcount := htallies e (.head _) _ _ _ hcounts htally
        obtain ⟨hends, hstate, hrest⟩ := ih (fun e' he' => htallies e' (.tail _ he')) hcount (hserve ▸ hfaultless)
        rw [hserve, hasked, Host.after_cons_of_ok hanswer, Host.accepted_cons_of_ok hanswer, List.append_cons]
        exact ⟨hends.cons hanswer, hstate, hrest⟩

end Exchange

end StackUnwind
