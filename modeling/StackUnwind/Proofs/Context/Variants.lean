import StackUnwind.Proofs.Context.Comparison
import StackUnwind.Proofs.Context.Histories
import StackUnwind.Proofs.Recorder.Variants

namespace StackUnwind

/-- The storage for a record of the same code that holds nothing but its length. -/
def Reservation.lengthOnly (r : Reservation) : Reservation := { r with size := 4 }

/-- A commit of the same code with a record that holds nothing but its length. -/
def Commit.lengthOnly (k : Commit) : Commit :=
  { k with payload := littleEndian 4 (k.range.stop.toNat - k.range.start.toNat) }

def HostRequest.lengthOnly : HostRequest → HostRequest
  | .reserve r => .reserve r.lengthOnly
  | .commit k => .commit k.lengthOnly

/-- Whether an errand is that of another one with a record of the length only, and can be counted wherever the other one
    can be. -/
structure Errand.Shortens (e' e : Errand) : Prop where
  request : e'.request = e.request.lengthOnly
  below : e'.Below e

/-- Whether a call to a recorder is one of an operation. -/
def RecorderCall.isOp : RecorderCall → Bool
  | .report event => event.isOp
  | .size _ | .info _ _ => false

private theorem toNat_four_le {n : Nat} (hle : 4 ≤ n) (hlt : n < 2 ^ 64) :
    (4 : UInt64).toNat ≤ (UInt64.ofNat n).toNat := by
  rwa [UInt64.toNat_ofNat_of_lt' hlt]

namespace Tracker

variable {t t' : Tracker} {ops epilogOps : Nat} {region : Region} {call : RecorderCall}

private theorem receive_info (t : Tracker) (region : Region) (codeLength : UInt32) :
    receive (.info region codeLength) t = .ok () t := by
  simp only [receive, run_bind_eq_ok_iff, run_get_eq_ok_iff]
  refine ⟨t, t, ⟨rfl, rfl⟩, ?_⟩
  cases hinfo : t.recorder.info region codeLength with
  | ok info => rfl
  | error stop =>
    cases stop with
    | error e => rfl
    | fault fault => exact absurd hinfo (Recorder.info_ne_fault _ _ _ fault)

/-- A tracker on x86 takes or refuses the same calls. -/
theorem InStep.receive_onX86 (h : t.InStep ops epilogOps) (hfew : epilogOps + call.isOp.toNat < 2 ^ 32) :
    receive call t.onX86 = mapState onX86 (receive call t) := by
  cases call with
  | report event =>
    refine h.record_onX86 fun hop _ => ?_
    rwa [RecorderCall.isOp, hop] at hfew
  | size region => rfl
  | info region codeLength =>
    rw [receive_info, receive_info]
    rfl

private theorem InStep.receive (h : t.InStep ops epilogOps) (hreceive : receive call t = .ok () t') :
    t'.InStep (ops + call.isOp.toNat) (epilogOps + call.isOp.toNat) := by
  cases call with
  | report event => exact h.record hreceive
  | size region =>
    cases hreceive
    exact h
  | info region codeLength =>
    rw [receive_info] at hreceive
    cases hreceive
    exact h

end Tracker

namespace Context

variable {c c' : Context} {f : UnitFunction} {t : Tracker} {oracle : Oracle} {layout : UnitLayout} {region : Region}
  {e : Errand} {n : Nat}

/-- The context of the same functions on x86, in which the same has been recorded. -/
def onX86 (c : Context) : Context := { c with
  trackers := c.trackers.map Tracker.onX86
  length_trackers := by rw [List.length_map, c.length_trackers] }

/-- The same units can be begun on x86. -/
theorem fresh_onX86 (functions : List UnitFunction) (settings : Settings) :
    fresh .x86 functions settings = (fresh .x64 functions settings).map onX86 := by
  have hlength (arch : Arch) : (functions.map fun _ => Tracker.fresh arch).length = functions.length := by
    rw [List.length_map]
  rw [fresh, fresh, ofTrackers, ofTrackers, dif_pos (hlength _), dif_pos (hlength _)]
  split
  · rfl
  · simp only [Except.map, onX86, List.map_map]
    rfl

/-- The trackers of a unit on x86. -/
theorem tracker_onX86 (c : Context) (index : Nat) : c.onX86.tracker index = (c.tracker index).map Tracker.onX86 := by
  simp only [tracker, onX86, List.getElem?_map, List.length_map]
  cases c.trackers[index]? <;> rfl

theorem setTracker_onX86 (c : Context) (index : Nat) (t : Tracker) :
    (c.setTracker index t).onX86 = c.onX86.setTracker index t.onX86 := by
  simp only [setTracker, onX86, List.map_set]

private theorem entries_onX86 (c : Context) : c.onX86.entries = c.entries.map fun (f, t) => (f, t.onX86) :=
  List.zip_map_right ..

private theorem requireClosed_onX86 (c : Context) : c.onX86.requireClosed = c.requireClosed := by
  simp only [requireClosed, onX86, List.any_map]
  rfl

private theorem reservations_onX86 (c : Context) :
    c.onX86.reservations = c.reservations.map Reservation.lengthOnly := by
  simp only [reservations, entries_onX86, List.flatMap_map, List.map_flatMap, List.map_map]
  rfl

/-- Whether all trackers and their logs agree, with at most so many operations that were not part of a whole prolog. -/
def InStep (n : Nat) (c : Context) : Prop := ∀ t ∈ c.trackers, t.InStep (n + 3) n

private theorem shortens_reserveErrand (h : t.InStep (n + 3) n) (hfew : n < 2 ^ 32) :
    (reserveErrand f t.onX86 region).Shortens (reserveErrand f t region) :=
  ⟨rfl, below_reserveErrand (toNat_four_le (Recorder.four_le_infoSize _ _) (h.infoSize_lt (by omega) region))⟩

/-- What a record holds besides the length of the code does not matter to whether there is one. -/
theorem exists_commitErrand_onX86 (h : commitErrand oracle layout f t region = .ok e) :
    ∃ e', commitErrand oracle layout f t.onX86 region = .ok e' ∧ e'.Shortens e := by
  obtain ⟨range, info, hrange, hinfo, hlength, rfl⟩ := commitErrand_eq_ok_iff.1 h
  rw [recordInfo_eq_ok_iff] at hinfo
  obtain ⟨-, -, hle⟩ := Recorder.of_info_eq_ok hinfo
  have hfour := t.recorder.four_le_infoSize region
  refine ⟨recordErrand layout f region range (littleEndian 4 range.size.toNat),
    commitErrand_eq_ok_iff.2 ⟨range, ⟨range.size, _⟩, hrange, rfl, length_littleEndian .., rfl⟩, ?_, ?_⟩
  · rw [Range.size, toNat_monus32]
    rfl
  · refine below_recordErrand ?_
    rw [length_littleEndian]
    exact toNat_four_le (by omega) (by omega)

private theorem exists_wholeErrand_onX86 (h : wholeErrand layout f t = .ok e) :
    ∃ e', wholeErrand layout f t.onX86 = .ok e' ∧ e'.Shortens e := by
  simp only [wholeErrand, bind_eq_ok_iff, pure_eq_ok_iff, recordInfo_eq_ok_iff] at h ⊢
  obtain ⟨info, hinfo, rfl⟩ := h
  obtain ⟨-, hlength, hle⟩ := Recorder.of_info_eq_ok hinfo
  have hfour := t.recorder.four_le_infoSize .hot
  refine ⟨_, ⟨⟨layout.wholeRange.size, _⟩, rfl, rfl⟩, ?_, fun stats' stats next hbelow htally => ?_⟩
  · rw [Range.size, toNat_monus32]
    rfl
  · refine hbelow.recordFakeSplitCommit ?_ htally
    rw [length_littleEndian]
    exact toNat_four_le (by omega) (by omega)

/-- Whether a step of a schedule goes on as another one does, with a record of the length only. -/
def ShortensStep (step' step : Except (Stop UnwindError) Errand) : Prop :=
  ∀ e, step = .ok e → ∃ e', step' = .ok e' ∧ e'.Shortens e

private theorem forall₂_commitSteps_onX86 (c : Context) (oracle : Oracle) (layout : UnitLayout) (f : UnitFunction)
    (t : Tracker) : List.Forall₂ ShortensStep (c.onX86.commitSteps oracle layout f t.onX86)
      (c.commitSteps oracle layout f t) := by
  have hplan : c.onX86.planOf f = c.planOf f := rfl
  have hcommit (region : Region) : ShortensStep (commitErrand oracle layout f t.onX86 region)
      (commitErrand oracle layout f t region) := fun _ => exists_commitErrand_onX86
  rw [commitSteps, commitSteps, hplan]
  cases c.planOf f with
  | hotOnly => exact .cons (hcommit .hot) .nil
  | hotAndCold => exact .cons (hcommit .hot) (.cons (hcommit .cold) .nil)
  | fakeSplit => exact .cons (fun _ => exists_wholeErrand_onX86) .nil

private theorem exists_errands_of_shortens {steps' : List (Except (Stop UnwindError) Errand)} {es : List Errand}
    (h : List.Forall₂ ShortensStep steps' (es.map .ok)) :
    ∃ es', steps' = es'.map .ok ∧ List.Forall₂ Errand.Shortens es' es := by
  induction es generalizing steps' with
  | nil =>
    cases h
    exact ⟨[], rfl, .nil⟩
  | cons e es ih =>
    obtain ⟨step', steps', hstep, hsteps, rfl⟩ := List.forall₂_cons_right_iff.1 h
    obtain ⟨e', rfl, he⟩ := hstep e rfl
    obtain ⟨es', rfl, hes⟩ := ih hsteps
    exact ⟨e' :: es', rfl, .cons he hes⟩

private theorem schedule_onX86_of_eq_error {call : HostCall} {fault : Fault} (h : c.schedule call = .error fault) :
    c.onX86.schedule call = .error fault := by
  have hlayout (layout : UnitLayout) : c.onX86.requireLayout layout = c.requireLayout layout := rfl
  cases call with
  | reserve =>
    simp only [schedule, bind_eq_error_iff, pure_eq_error_iff, and_false, exists_false, or_false,
      requireClosed_onX86] at h ⊢
    exact h
  | commit oracle layout =>
    simp only [schedule, bind_eq_error_iff, pure_eq_error_iff, and_false, exists_false, or_false,
      requireClosed_onX86, hlayout] at h ⊢
    exact h

/-- Whatever is scheduled on x64 is scheduled on x86, with records of the length only. -/
theorem exists_schedule_onX86 (hsteps : c.InStep n) (hfew : n < 2 ^ 32) {call : HostCall} {es : List Errand}
    (h : c.schedule call = .ok (es.map .ok)) :
    ∃ es', c.onX86.schedule call = .ok (es'.map .ok) ∧ List.Forall₂ Errand.Shortens es' es := by
  have hclosed : (∀ t ∈ c.trackers, t.phase.isBracket = false) →
      ∀ t ∈ c.onX86.trackers, t.phase.isBracket = false := by
    simp only [onX86, List.forall_mem_map]
    exact fun h => h
  have hentries : List.Forall₂ (fun entry' entry : UnitFunction × Tracker =>
      entry' = (entry.1, entry.2.onX86) ∧ entry ∈ c.entries) c.onX86.entries c.entries := by
    rw [entries_onX86, List.forall₂_map_left_iff, List.forall₂_same]
    exact fun entry hentry => ⟨rfl, hentry⟩
  cases call with
  | reserve =>
    obtain ⟨hc, hes⟩ := schedule_reserve_eq_ok_iff.1 h
    obtain rfl := List.map_injective_iff.2 (fun _ _ => Except.ok.inj) hes
    refine ⟨c.onX86.reserveErrands, schedule_reserve_eq_ok_iff.2 ⟨hclosed hc, rfl⟩, List.rel_flatMap hentries ?_⟩
    rintro _ ⟨f, t⟩ ⟨rfl, hentry⟩
    rw [List.forall₂_map_left_iff, List.forall₂_map_right_iff]
    exact List.forall₂_same.2 fun region _ =>
      shortens_reserveErrand (hsteps t (mem_of_mem_entries hentry).2) hfew
  | commit oracle layout =>
    obtain ⟨⟨hc, hready⟩, hes⟩ := schedule_commit_eq_ok_iff.1 h
    have hshortens : List.Forall₂ ShortensStep
        (c.onX86.entries.flatMap fun (f, t) => c.onX86.commitSteps oracle layout f t) (es.map .ok) := by
      rw [hes]
      refine List.rel_flatMap hentries ?_
      rintro _ ⟨f, t⟩ ⟨rfl, -⟩
      exact forall₂_commitSteps_onX86 c oracle layout f t
    obtain ⟨es', hes', hall⟩ := exists_errands_of_shortens hshortens
    exact ⟨es', schedule_commit_eq_ok_iff.2 ⟨⟨hclosed hc, hready⟩, hes'.symm⟩, hall⟩

/-- A call that comes to its end on x64 comes to its end on x86, with the same requests but for records of the length
    only. -/
theorem exists_perform_onX86 {σ σ' : Type} {host : Host σ} {host' : Host σ'} {x y : Exchange σ} {x' : Exchange σ'}
    {call : HostCall} (hsteps : c.InStep n) (hfew : n < 2 ^ 32) (haccepts : host.AcceptsAll)
    (haccepts' : host'.AcceptsAll) (hbelow : x'.session.stats.Below x.session.stats)
    (h : c.perform host call x = .ok () y) :
    ∃ y', c.onX86.perform host' call x' = .ok () y' ∧ y'.session.stats.Below y.session.stats ∧
      c.onX86.requests host' call x' = (c.requests host call x).map HostRequest.lengthOnly := by
  obtain ⟨es, hschedule, htally, hrequests⟩ := exists_tallyAll_of_perform haccepts h
  obtain ⟨es', hschedule', hshortens⟩ := exists_schedule_onX86 hsteps hfew hschedule
  obtain ⟨next', htally', hnext⟩ := Errand.tallyAll_below (hshortens.imp fun _ _ h => h.below) hbelow htally
  obtain ⟨y', hperform', rfl, hrequests'⟩ := perform_of_tallyAll haccepts' hschedule' htally'
  refine ⟨y', hperform', hnext, ?_⟩
  rw [hrequests, hrequests', List.map_map, ← List.forall₂_eq_eq_eq, List.forall₂_map_left_iff,
    List.forall₂_map_right_iff]
  exact hshortens.imp fun _ _ h => h.request

/-- How the records of one context are dealt with beside those of another one, which are longer: there are as many for
    the same code, and what can be reserved and committed there can be here. -/
structure Shortens (c' c : Context) : Prop where
  reservations : c'.reservations = c.reservations.map Reservation.lengthOnly
  /-- While a bracket is open nothing is asked for. -/
  opened : (∃ t ∈ c.trackers, t.phase.isBracket = true) → ∃ fault, ∀ {σ : Type} (host : Host σ) (call : HostCall)
    (x : Exchange σ), c'.perform host call x = .error (.fault fault) x ∧ c.perform host call x = .error (.fault fault) x
  reserve : (∀ t ∈ c.trackers, t.phase.isBracket = false) → ∀ {σ σ' : Type} (host : Host σ) (host' : Host σ')
    (x : Exchange σ) (x' : Exchange σ'), host.AcceptsAll → host'.AcceptsAll →
    x'.session.stats.Below x.session.stats →
      (∃ y y', c.reserve host x = .ok () y ∧ c'.reserve host' x' = .ok () y' ∧
        y'.session.stats.Below y.session.stats ∧
        c.requests host .reserve x = c.reservations.map .reserve ∧
        c'.requests host' .reserve x' = c'.reservations.map .reserve) ∨
      (¬ x.session.stats.HasRoomFor c.reservations ∧ ∃ y, c.reserve host x = .error (.fault (.overflow .add)) y)
  commit : ∀ {σ σ' : Type} (host : Host σ) (host' : Host σ') (x y : Exchange σ) (x' : Exchange σ') (oracle : Oracle)
    (layout : UnitLayout), host.AcceptsAll → host'.AcceptsAll → x'.session.stats.Below x.session.stats →
      c.commit host oracle layout x = .ok () y →
      ∃ (y' : Exchange σ') (ks : List Commit), c'.commit host' oracle layout x' = .ok () y' ∧
        y'.session.stats.Below y.session.stats ∧
        c.requests host (.commit oracle layout) x = ks.map .commit ∧
        c'.requests host' (.commit oracle layout) x' = (ks.map Commit.lengthOnly).map .commit

/-- On x86 a unit does the same with records of the length only. -/
theorem shortens_onX86 (hsteps : c.InStep n) (hfew : n < 2 ^ 32) : c.onX86.Shortens c := by
  refine ⟨reservations_onX86 c, ?_, ?_, ?_⟩
  · rintro ⟨t, ht, hopen⟩
    have hrequire : ∃ fault, c.requireClosed = .error fault := by
      cases hclosed : c.requireClosed with
      | error fault => exact ⟨fault, rfl⟩
      | ok u =>
        rw [requireClosed_eq_ok_iff.1 hclosed t ht] at hopen
        cases hopen
    obtain ⟨fault, hrequire⟩ := hrequire
    refine ⟨fault, fun host call x => ?_⟩
    have hschedule : c.schedule call = .error fault := by
      cases call <;> rw [schedule, hrequire] <;> rfl
    exact ⟨perform_of_schedule_eq_error (schedule_onX86_of_eq_error hschedule), perform_of_schedule_eq_error hschedule⟩
  · intro hclosed σ σ' host host' x x' haccepts haccepts' hbelow
    obtain ⟨y, hreserve, hrequests⟩ | ⟨hroom, hreserve, -⟩ := reserve_requests hclosed haccepts x
    · have hperform : c.perform host .reserve x = .ok () y := hreserve
      obtain ⟨y', hreserve', hy', hrequests'⟩ :=
        exists_perform_onX86 hsteps hfew haccepts haccepts' hbelow hperform
      refine .inl ⟨y, y', hreserve, hreserve', hy', hrequests, ?_⟩
      rw [hrequests', hrequests, reservations_onX86, List.map_map, List.map_map]
      rfl
    · exact .inr ⟨hroom, hreserve⟩
  · intro σ σ' host host' x y x' oracle layout haccepts haccepts' hbelow hcommit
    obtain ⟨ks, hrequests, -⟩ := commit_fits hcommit
    have hperform : c.perform host (.commit oracle layout) x = .ok () y := hcommit
    obtain ⟨y', hcommit', hy', hrequests'⟩ := exists_perform_onX86 hsteps hfew haccepts haccepts' hbelow hperform
    refine ⟨y', ks, hcommit', hy', hrequests, ?_⟩
    rw [hrequests', hrequests, List.map_map, List.map_map]
    rfl

theorem InStep.mono {m : Nat} (h : c.InStep n) (hle : n ≤ m) : c.InStep m :=
  fun t ht => (h t ht).mono (by omega) hle

/-- Trackers may be replaced by others that are in step. -/
theorem InStep.setTracker (h : c.InStep n) (ht : t.InStep (n + 3) n) (index : Nat) :
    (c.setTracker index t).InStep n := by
  intro s hs
  obtain hs | rfl := List.mem_or_eq_of_mem_set hs
  · exact h s hs
  · exact ht

/-- A call to a recorder is taken or refused in the same way. -/
theorem receive_onX86 {call : RecorderCall} (hsteps : c.InStep n) (hfew : n + call.isOp.toNat < 2 ^ 32) (index : Nat) :
    receive index call c.onX86 = mapState onX86 (receive index call c) := by
  rw [receive_eq, receive_eq, tracker_onX86]
  cases htracker : c.tracker index with
  | error fault => rfl
  | ok t =>
    have ht := hsteps t (List.mem_of_getElem? (tracker_eq_ok_iff.1 htracker))
    simp only [Except.map, ht.receive_onX86 hfew]
    cases Tracker.receive call t <;> simp only [mapState, setTracker_onX86]

/-- Trackers stay in step with each call to one of them. -/
theorem InStep.receive {call : RecorderCall} {index : Nat} (hsteps : c.InStep n)
    (h : Context.receive index call c = .ok () c') :
    c'.InStep (n + call.isOp.toNat) := by
  obtain ⟨t, s, ht, hs, rfl⟩ := receive_eq_ok_iff.1 h
  refine (hsteps.mono (Nat.le_add_right n _)).setTracker ?_ index
  exact ((hsteps t (List.mem_of_getElem? ht)).receive hs).mono (by omega) (Nat.le_refl _)

end Context

end StackUnwind
