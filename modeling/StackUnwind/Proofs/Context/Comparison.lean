import StackUnwind.Proofs.Context.Symmetry
import StackUnwind.Proofs.Exchange.Tally

namespace StackUnwind

namespace Context

variable {σ : Type} {c : Context} {host : Host σ} {call : HostCall} {x y : Exchange σ} {es : List Errand}

/-- With a host that accepts everything a call succeeds if what it is to do can be counted. -/
theorem perform_of_tallyAll (haccepts : host.AcceptsAll) (hschedule : c.schedule call = .ok (es.map .ok))
    {stats : Stats}
    (htally : Errand.tallyAll es x.session.stats = .ok stats) :
    ∃ y, c.perform host call x = .ok () y ∧ y.session.stats = stats ∧
      c.requests host call x = es.map Errand.request := by
  obtain ⟨y, hserve, hstats⟩ := (Exchange.serve_eq_ok_iff_tallyAll haccepts).2 htally
  have hperform : c.perform host call x = .ok () y := by rw [perform_of_schedule_eq_ok hschedule, hserve]
  obtain ⟨es', hschedule', hrequests⟩ := exists_errands_of_perform hperform
  rw [hschedule, Except.ok.injEq] at hschedule'
  obtain rfl := List.map_injective_iff.2 (fun _ _ => Except.ok.inj) hschedule'
  exact ⟨y, hperform, hstats, hrequests⟩

/-- A call that succeeds has asked for everything it was to do, and all of it has been counted. -/
theorem exists_tallyAll_of_perform (haccepts : host.AcceptsAll) (h : c.perform host call x = .ok () y) :
    ∃ es : List Errand, c.schedule call = .ok (es.map .ok) ∧
      Errand.tallyAll es x.session.stats = .ok y.session.stats ∧ c.requests host call x = es.map Errand.request := by
  obtain ⟨es, hschedule, hrequests⟩ := exists_errands_of_perform h
  rw [perform_of_schedule_eq_ok hschedule] at h
  exact ⟨es, hschedule, (Exchange.serve_eq_ok_iff_tallyAll haccepts).1 ⟨y, h, rfl⟩, hrequests⟩

variable {f : UnitFunction} {tracker tracker' : Tracker} {region : Region} {layout : UnitLayout} {oracle : Oracle}
  {e e' : Errand}

/-- A reservation of no more bytes can be counted wherever the other one can be. -/
theorem below_reserveErrand (hsize : (tracker'.reservation f region).size.toNat ≤
    (tracker.reservation f region).size.toNat) : (reserveErrand f tracker' region).Below
      (reserveErrand f tracker region) :=
  fun _ _ _ hbelow htally => hbelow.recordReservation hsize htally

/-- So can a commit of no more bytes. -/
theorem below_recordErrand {range : Range} {payload payload' : List UInt8}
    (hsize : (UInt64.ofNat payload'.length).toNat ≤ (UInt64.ofNat payload.length).toNat) :
    (recordErrand layout f region range payload').Below (recordErrand layout f region range payload) :=
  fun _ _ _ hbelow htally => hbelow.recordCommit hsize htally

end Context

end StackUnwind
