import StackUnwind.Proofs.Context.Contracts
import StackUnwind.Proofs.Exchange.Room

namespace StackUnwind

namespace Context

variable {σ : Type} {c : Context} {call : HostCall} {request : HostRequest} {host : Host σ} {x : Exchange σ}
  {steps : List (Except (Stop UnwindError) Errand)} {e : Errand} {cost : Nat}

private theorem length_agenda (c : Context) (call : HostCall) : (c.agenda call).length = c.slots.length := by
  cases call <;> exact List.length_map _

/-- A request is as large as its recorder announces. -/
theorem exists_size_of_mem_agenda (h : .ok request ∈ c.agenda call) :
    ∃ slot ∈ c.slots, request.size = .ofNat (slot.tracker.recorder.infoSize slot.region) := by
  cases call with
  | reserve =>
    obtain ⟨slot, hslot, hrequest⟩ := List.mem_map.1 h
    cases hrequest
    exact ⟨slot, hslot, rfl⟩
  | commit oracle layout =>
    obtain ⟨slot, hslot, hrequest⟩ := List.mem_map.1 h
    obtain ⟨k, hcommit, rfl⟩ := map_eq_ok_iff.1 hrequest
    obtain ⟨range, -, hcommit⟩ := bind_eq_ok_iff.1 hcommit
    obtain ⟨info, hinfo, hcommit⟩ := bind_eq_ok_iff.1 hcommit
    cases hcommit
    obtain ⟨-, hlength, -⟩ := Recorder.of_info_eq_ok (recordInfo_eq_ok_iff.1 hinfo)
    exact ⟨slot, hslot, by rw [HostRequest.size, hlength]⟩

private theorem costs_of_mem_schedule (h : c.schedule call = .ok steps) (hmem : .ok e ∈ steps) (hcost : cost < 2 ^ 64)
    (hsizes : ∀ slot ∈ c.slots, 1 ≤ slot.tracker.recorder.infoSize slot.region ∧
      slot.tracker.recorder.infoSize slot.region ≤ cost) : e.Costs cost := by
  have htally := tally_of_mem_schedule h hmem
  have hagenda : .ok e.request ∈ c.agenda call := by
    rw [← map_request_schedule h]
    exact List.mem_map_of_mem (f := (·.map Errand.request)) hmem
  obtain ⟨slot, hslot, hsize⟩ := exists_size_of_mem_agenda hagenda
  obtain ⟨hpos, hle⟩ := hsizes slot hslot
  have hnat : e.request.size.toNat = slot.tracker.recorder.infoSize slot.region := by
    rw [hsize]
    exact UInt64.toNat_ofNat_of_lt' (Nat.lt_of_le_of_lt hle hcost)
  constructor
  · intro stats room hroom
    rw [htally]
    exact Stats.count_of_room (by omega) (hroom.mono (by omega))
  · intro stats fault hfault
    rw [htally] at hfault
    exact Stats.count_eq_error hfault

/-- With a host that accepts everything, a call makes all requests that are planned, unless one of them does not exist
    or there is no room for all records in the counts. -/
theorem perform_of_acceptsAll (haccepts : host.AcceptsAll) (hschedule : c.schedule call = .ok steps)
    (hcost : cost < 2 ^ 64) (hsizes : ∀ slot ∈ c.slots, 1 ≤ slot.tracker.recorder.infoSize slot.region ∧
      slot.tracker.recorder.infoSize slot.region ≤ cost) (x : Exchange σ) :
    (∃ y made, c.perform host call x = .ok () y ∧ c.agenda call = made.map .ok ∧ y.host = host.after x.host made ∧
      ∀ room, x.session.stats.Room (c.slots.length * cost + room) → y.session.stats.Room room) ∨
    ∃ stop y, c.perform host call x = .error stop y ∧
      (.error stop ∈ c.agenda call ∨
        stop = .fault (.overflow .add) ∧ ¬ x.session.stats.Room (c.slots.length * cost)) := by
  have hagenda := map_request_schedule hschedule
  have hlength : steps.length = c.slots.length := by
    rw [← length_agenda c call, ← hagenda, List.length_map]
  rw [perform_of_schedule_eq_ok hschedule, ← hagenda, ← hlength]
  obtain ⟨y, es, hserve, rfl, hhost, hroom⟩ | ⟨stop, y, hserve, hstop⟩ :=
    Exchange.serve_of_acceptsAll haccepts (fun e hmem => costs_of_mem_schedule hschedule hmem hcost hsizes) x
  · refine .inl ⟨y, es.map Errand.request, hserve, ?_, hhost, hroom⟩
    rw [List.map_map, List.map_map]
    rfl
  · exact .inr ⟨stop, y, hserve, hstop.imp_left fun hmem => List.mem_map_of_mem (f := (·.map Errand.request)) hmem⟩

end Context

end StackUnwind
