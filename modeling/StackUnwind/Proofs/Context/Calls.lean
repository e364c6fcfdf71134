import StackUnwind.Proofs.Context.Schedule

namespace StackUnwind

namespace Context

variable {σ : Type} {c : Context} {host : Host σ} {call : HostCall} {x y : Exchange σ}
  {steps : List (Except (Stop UnwindError) Errand)}

/-- The requests that a call makes to a host, accepted or not. -/
def requests (c : Context) (host : Host σ) (call : HostCall) (x : Exchange σ) : List HostRequest :=
  (endState (c.perform host.watched call (x.watching []))).host.2

/-- The state after calls, each made in the state that the previous one left. -/
def callAll (c : Context) (host : Host σ) (calls : List HostCall) (x : Exchange σ) : Exchange σ :=
  calls.foldl (fun x call => endState (c.perform host call x)) x

def callStates (c : Context) (host : Host σ) : List HostCall → Exchange σ → List (HostCall × Exchange σ)
  | [], _ => []
  | call :: calls, x => (call, x) :: c.callStates host calls (endState (c.perform host call x))

/-- A call does what its schedule says. -/
theorem perform_of_schedule_eq_ok (h : c.schedule call = .ok steps) :
    c.perform host call = Exchange.serve host steps := by
  rw [perform_eq, h]
  rfl

/-- A call without a schedule leaves everything as it is. -/
theorem perform_of_schedule_eq_error {fault : Fault} (h : c.schedule call = .error fault) :
    c.perform host call x = .error (.fault fault) x := by
  rw [perform_eq, h]
  rfl

/-- The requests of a call are those of its schedule. -/
theorem requests_eq_asked (h : c.schedule call = .ok steps) :
    c.requests host call x = Exchange.asked host steps x := by
  rw [requests, perform_of_schedule_eq_ok h, Exchange.serve_watched, endState_mapState]
  rfl

/-- A call without a schedule asks the host for nothing. -/
theorem requests_of_schedule_eq_error {fault : Fault} (h : c.schedule call = .error fault) :
    c.requests host call x = [] := by
  rw [requests, perform_of_schedule_eq_error h]
  rfl

/-- A call does the same whether its requests are watched or not. -/
theorem perform_watched (c : Context) (host : Host σ) (call : HostCall) (x : Exchange σ) (made : List HostRequest) :
    c.perform host.watched call (x.watching made) =
      mapState (Exchange.watching · (made ++ c.requests host call x)) (c.perform host call x) := by
  cases hschedule : c.schedule call with
  | error fault =>
    rw [perform_of_schedule_eq_error hschedule, perform_of_schedule_eq_error hschedule,
      requests_of_schedule_eq_error hschedule, List.append_nil]
    rfl
  | ok steps =>
    rw [perform_of_schedule_eq_ok hschedule, perform_of_schedule_eq_ok hschedule, requests_eq_asked hschedule,
      Exchange.serve_watched]

/-- Over a run of calls, the host is asked for what each call asks for, one call after another. -/
theorem callAll_watched (c : Context) (host : Host σ) (calls : List HostCall) (x : Exchange σ)
    (made : List HostRequest) :
    c.callAll host.watched calls (x.watching made) =
      (c.callAll host calls x).watching
        (made ++ (c.callStates host calls x).flatMap fun (call, y) => c.requests host call y) := by
  induction calls generalizing x made with
  | nil => rw [callStates, List.flatMap_nil, List.append_nil, callAll, callAll, List.foldl_nil, List.foldl_nil]
  | cons call calls ih =>
    have hrest := ih (endState (c.perform host call x)) (made ++ c.requests host call x)
    rw [callStates, List.flatMap_cons, ← List.append_assoc]
    simp only [callAll, List.foldl_cons, perform_watched, endState_mapState] at hrest ⊢
    exact hrest

/-- Every request is that of an errand on the schedule. -/
theorem exists_errand_of_mem_requests {request : HostRequest} (h : request ∈ c.requests host call x) :
    ∃ steps e, c.schedule call = .ok steps ∧ .ok e ∈ steps ∧ e.request = request := by
  cases hschedule : c.schedule call with
  | error fault =>
    rw [requests_of_schedule_eq_error hschedule] at h
    cases h
  | ok steps =>
    obtain ⟨es, hprefix, hasked⟩ := Exchange.exists_asked_eq host steps x
    rw [requests_eq_asked hschedule, hasked] at h
    obtain ⟨e, he, hrequest⟩ := List.mem_map.1 h
    exact ⟨steps, e, rfl, hprefix.subset (List.mem_map_of_mem he), hrequest⟩

/-- A call that comes to its end has run all errands on the schedule. -/
theorem exists_errands_of_perform (h : c.perform host call x = .ok () y) :
    ∃ es : List Errand, c.schedule call = .ok (es.map .ok) ∧ c.requests host call x = es.map Errand.request := by
  cases hschedule : c.schedule call with
  | error fault =>
    rw [perform_of_schedule_eq_error hschedule] at h
    cases h
  | ok steps =>
    rw [perform_of_schedule_eq_ok hschedule] at h
    obtain ⟨es, rfl, hasked⟩ := Exchange.exists_errands_of_serve h
    exact ⟨es, rfl, by rw [requests_eq_asked hschedule, hasked]⟩

def reserveErrands (c : Context) : List Errand :=
  c.entries.flatMap fun (f, tracker) => (c.regions f).map (reserveErrand f tracker)

/-- Storage is reserved while no bracket is open. -/
theorem schedule_reserve_eq_ok_iff :
    c.schedule .reserve = .ok steps ↔
      (∀ t ∈ c.trackers, t.phase.isBracket = false) ∧ steps = c.reserveErrands.map .ok := by
  have hsteps : (c.entries.flatMap fun (f, tracker) => (c.regions f).map fun region =>
      (Except.ok (reserveErrand f tracker region) : Except (Stop UnwindError) Errand)) = c.reserveErrands.map .ok := by
    rw [reserveErrands, List.map_flatMap]
    simp only [List.map_map]
    rfl
  rw [← requireClosed_eq_ok_iff, ← hsteps]
  simp only [schedule, bind_eq_ok_iff, pure_eq_ok_iff]
  constructor
  · rintro ⟨⟨⟩, hclosed, hsteps⟩
    exact ⟨hclosed, hsteps⟩
  · rintro ⟨hclosed, hsteps⟩
    exact ⟨(), hclosed, hsteps⟩

/-- Records are committed while no bracket is open, to a layout that fits the unit. -/
theorem schedule_commit_eq_ok_iff {oracle : Oracle} {layout : UnitLayout} :
    c.schedule (.commit oracle layout) = .ok steps ↔
      ((∀ t ∈ c.trackers, t.phase.isBracket = false) ∧
        layout.coldBase.isSome = c.functions.hasColdRegion ∧ layout.hotSize ≤ layout.totalSize) ∧
      steps = c.entries.flatMap fun (f, tracker) => c.commitSteps oracle layout f tracker := by
  rw [← requireClosed_eq_ok_iff, ← requireLayout_eq_ok_iff]
  simp only [schedule, bind_eq_ok_iff, pure_eq_ok_iff]
  constructor
  · rintro ⟨⟨⟩, hclosed, ⟨⟩, hlayout, hsteps⟩
    exact ⟨⟨hclosed, hlayout⟩, hsteps⟩
  · rintro ⟨⟨hclosed, hlayout⟩, hsteps⟩
    exact ⟨(), hclosed, (), hlayout, hsteps⟩

end Context

end StackUnwind
