import StackUnwind.Proofs.Exchange.Acceptance

namespace StackUnwind

namespace Stats

/-- The counts after an accepted request. Commits of a root are of a whole unit if the unit is reported in one
    piece. -/
def count (onePiece : Bool) (stats : Stats) : HostRequest → Except Fault Stats
  | .reserve r => stats.recordReservation r.size
  | .commit k =>
    let size := UInt64.ofNat k.payload.length
    if onePiece ∧ k.kind = .root then stats.recordFakeSplitCommit size
    else stats.recordCommit k.kind (if k.coldBase.isSome then .cold else .hot) size

end Stats

namespace Host

variable {σ : Type} {host : Host σ} {s s' : σ} {request : HostRequest}

private theorem length_accepted_le (host : Host σ) (s : σ) (made : List HostRequest) :
    (host.accepted s made).length ≤ made.length := by
  induction made generalizing s with
  | nil => exact Nat.le_refl _
  | cons request made ih =>
    rw [accepted]
    split
    next s' _ => exact Nat.succ_le_succ (ih s')
    next s' _ => exact Nat.le_succ_of_le (ih s')

/-- Requests of which the first is refused are not all accepted. -/
theorem accepted_cons_ne {e : UnwindError} (h : host.answer request s = .error e s') (made : List HostRequest) :
    host.accepted s (request :: made) ≠ request :: made := by
  intro heq
  have hle := host.length_accepted_le s' made
  have hlength := congrArg List.length heq
  rw [accepted, h, List.length_cons] at hlength
  simp only at hlength
  omega

end Host

namespace Exchange

variable {σ : Type} {host : Host σ} {onePiece : Bool}

/-- Whether the counts of a session can take those of the planned requests that the host accepts one after another. -/
def CountsFit (host : Host σ) (onePiece : Bool) (plan : List (Except (Stop UnwindError) HostRequest))
    (x : Exchange σ) : Prop :=
  ∀ made, made.map .ok <+: plan → host.accepted x.host made = made →
    ∃ stats, made.foldlM (Stats.count onePiece) x.session.stats = .ok stats

/-- As long as no count overflows, errands run into a fault exactly where there is one on the list, if the host accepts
    everything before. -/
theorem serve_eq_fault_iff {steps : List (Except (Stop UnwindError) Errand)} {x : Exchange σ} {fault : Fault}
    (htally : ∀ e stats, .ok e ∈ steps → e.tally stats = stats.count onePiece e.request)
    (hfit : CountsFit host onePiece (steps.map (·.map Errand.request)) x) :
    verdict (serve host steps x) = .error (.fault fault) ↔
      ∃ made rest, steps.map (·.map Errand.request) = made.map .ok ++ .error (.fault fault) :: rest ∧
        host.accepted x.host made = made := by
  induction steps generalizing x with
  | nil =>
    have hserve : verdict (serve host [] x) = .ok () := rfl
    simp [hserve]
  | cons step steps ih =>
    cases step with
    | error stop =>
      have hserve : verdict (serve host (.error stop :: steps) x) = .error stop := rfl
      have hplan : (Except.error stop :: steps).map (·.map Errand.request) =
          .error stop :: steps.map (·.map Errand.request) := rfl
      rw [hserve, hplan, exists_error_cons_eq_iff, Except.error.injEq]
      exact (and_iff_left rfl).symm
    | ok e =>
      have hplan : (Except.ok e :: steps).map (·.map Errand.request) =
          .ok e.request :: steps.map (·.map Errand.request) := rfl
      rw [hplan] at hfit ⊢
      rw [exists_ok_cons_eq_iff]
      cases hanswer : host.answer e.request x.host with
      | error refusal s =>
        have hserve : verdict (serve host (.ok e :: steps) x) = .error (.error refusal) := by
          simp only [serve_cons_ok, bind, EStateM.bind, Errand.run_eq, hanswer, verdict]
        simp [hserve, Host.accepted_cons_ne hanswer]
      | ok u s =>
        obtain ⟨stats, hstats⟩ := hfit [e.request] ⟨_, rfl⟩ (by rw [Host.accepted_cons_of_ok hanswer]; rfl)
        replace hstats : x.session.stats.count onePiece e.request = .ok stats := by
          simpa [List.foldlM_cons, bind_pure] using hstats
        obtain ⟨y, hrun, rfl, rfl⟩ : ∃ y, e.run host x = .ok () y ∧ y.host = s ∧ y.session.stats = stats := by
          simp only [Errand.run_eq, hanswer, htally e x.session.stats (.head _), hstats]
          exact ⟨_, rfl, rfl, rfl⟩
        have hserve : serve host (.ok e :: steps) x = serve host steps y := by
          simp only [serve_cons_ok, bind, EStateM.bind, hrun]
        have hfit' : CountsFit host onePiece (steps.map (·.map Errand.request)) y := by
          intro made hprefix haccepted
          obtain ⟨total, htotal⟩ := hfit (e.request :: made) ((List.prefix_cons_inj _).2 hprefix)
            (by rw [Host.accepted_cons_of_ok hanswer, haccepted])
          rw [List.foldlM_cons, hstats] at htotal
          exact ⟨total, htotal⟩
        rw [hserve, ih (fun e' stats' hmem => htally e' stats' (.tail _ hmem)) hfit']
        simp only [Host.accepted_cons_of_ok hanswer, List.cons_inj_right]

/-- Counts that can take everything that is planned can take what is accepted of it. -/
theorem countsFit_of_foldlM {plan : List (Except (Stop UnwindError) HostRequest)} {x : Exchange σ} {stats : Stats}
    (h : (plan.filterMap Except.toOption).foldlM (Stats.count onePiece) x.session.stats = .ok stats) :
    CountsFit host onePiece plan x := by
  rintro made ⟨rest, rfl⟩ -
  have hmade : (made.map (Except.ok : HostRequest → Except (Stop UnwindError) HostRequest)).filterMap Except.toOption =
      made := by
    rw [List.filterMap_map]
    exact List.filterMap_some
  rw [List.filterMap_append, hmade, List.foldlM_append, bind_eq_ok_iff] at h
  obtain ⟨stats', h, -⟩ := h
  exact ⟨stats', h⟩

end Exchange

end StackUnwind
