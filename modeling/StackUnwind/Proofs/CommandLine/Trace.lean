import StackUnwind.Proofs.CommandLine.Arguments
import StackUnwind.Proofs.CommandLine.Pieces
import StackUnwind.Proofs.Context.Room

namespace StackUnwind

namespace FunctionSet

variable {root : UnitFunction} {funclets : List UnitFunction}

private theorem firstDefect?_eq_none {index : Nat} (h : ∀ f ∈ funclets, f.isFunclet = true ∧ f.cold = none) :
    firstDefect? index funclets = none := by
  induction funclets generalizing index with
  | nil => rfl
  | cons f funclets ih =>
    obtain ⟨⟨hkind, hcold⟩, hrest⟩ := List.forall_mem_cons.1 h
    rw [firstDefect?, ih hrest, Option.or_none]
    simp [funcletDefect?, hkind, hcold]

private theorem exists_ofList (hroot : root.kind = .root) (h : ∀ f ∈ funclets, f.isFunclet = true ∧ f.cold = none) :
    ∃ fs, ofList (root :: funclets) = .ok fs ∧ fs.root = root ∧ fs.funclets = funclets := by
  rw [ofList, dif_pos hroot]
  split
  next defect hdefect =>
    rw [firstDefect?_eq_none h] at hdefect
    cases hdefect
  next => exact ⟨_, rfl, rfl, rfl⟩

end FunctionSet

namespace Context

private theorem exists_ofTrackers {root : UnitFunction} {funclets : List UnitFunction} {trackers : List Tracker}
    (settings : Settings) (hroot : root.kind = .root) (h : ∀ f ∈ funclets, f.isFunclet = true ∧ f.cold = none)
    (hlength : trackers.length = (root :: funclets).length) :
    ∃ c, ofTrackers (root :: funclets) trackers settings = .ok c ∧ c.functions.root = root ∧
      c.functions.funclets = funclets ∧ c.trackers = trackers ∧ c.settings = settings := by
  obtain ⟨fs, hfs, hfsRoot, hfsFunclets⟩ := FunctionSet.exists_ofList hroot h
  rw [ofTrackers, dif_pos hlength]
  split
  next defect hdefect =>
    rw [hfs] at hdefect
    cases hdefect
  next fs' hfs' =>
    rw [hfs, Except.ok.injEq] at hfs'
    subst hfs'
    exact ⟨_, rfl, hfsRoot, hfsFunclets, rfl, rfl⟩

end Context

namespace CommandLine

/-- Whether fake splitting is asked for, in the environment or on the command line. -/
def faking (cl : CommandLine) (environment : Option String) : Bool := environment.any Settings.isOn || cl.fakeSplit

/-- Whether a context is that of a unit when its prologs have been recorded. -/
structure Prepares (cl : CommandLine) (faking : Bool) (oracle : Oracle) (c : Context) : Prop where
  describes : cl.Describes oracle c.functions.root c.functions.funclets
  trackers : ∀ t ∈ c.trackers, t = .framed cl.arch
  settings : c.settings.fakeSplitting = faking

/-- Reservation and commitment of a unit whose prologs have been recorded. -/
def traceFrom (cl : CommandLine) (c : Context) (oracle : Oracle) : Except (Stop TraceError) (Exchange Ledger) := do
  let reserved ← (outcome (c.reserve Ledger.host) { host := {}, session := { name? := some "unit" } }).mapError
    (·.map .unwind)
  let layout ← cl.layout
  (outcome (c.commit Ledger.host oracle layout) reserved).mapError (·.map .unwind)

variable {cl : CommandLine} {environment : Option String} {faking : Bool} {oracle : Oracle} {c : Context}

/-- The functions of a command line are always those of a unit. -/
theorem exists_prepares (hkinds : ∀ f ∈ cl.funclets, f.kind.isFunclet) (hoffsets : cl.offsetCount < 2 ^ 32)
    (environment : Option String) :
    ∃ c oracle, cl.Prepares (cl.faking environment) oracle c ∧ cl.trace environment = cl.traceFrom c oracle := by
  obtain ⟨root, funclets, table, hfunctions, hdescribes⟩ := cl.exists_functions hkinds hoffsets
  have hlength : ((root :: funclets).map fun _ => Tracker.framed cl.arch).length = (root :: funclets).length :=
    List.length_map _
  obtain ⟨c, hcontext, rfl, rfl, htrackers, hsettings⟩ :=
    Context.exists_ofTrackers (cl.settings environment) hdescribes.kind (hdescribes.funclets_hot hkinds) hlength
  refine ⟨c, table.offset?, ⟨hdescribes, ?_, ?_⟩, ?_⟩
  · rw [htrackers]
    intro t ht
    obtain ⟨f, -, rfl⟩ := List.mem_map.1 ht
    rfl
  · rw [hsettings]
    rfl
  · unfold trace traceFrom
    simp only [hfunctions, Tracker.framedTracker_eq, liftM, monadLift, MonadLift.monadLift, Except.mapError, bind,
      Except.bind, hcontext]

namespace Prepares

private theorem length_slots_le (h : cl.Prepares faking oracle c) : c.slots.length ≤ cl.funclets.length + 2 := by
  have hlength := h.describes.forall₂_reports.length_eq
  rw [List.length_map] at hlength
  rw [hlength]
  exact cl.length_pieces_le _

private theorem isBracket_eq_false (h : cl.Prepares faking oracle c) : ∀ t ∈ c.trackers, t.phase.isBracket = false := by
  intro t ht
  rw [h.trackers t ht]
  rfl

private theorem infoSize_slot (h : cl.Prepares faking oracle c) : ∀ slot ∈ c.slots,
    1 ≤ slot.tracker.recorder.infoSize slot.region ∧ slot.tracker.recorder.infoSize slot.region ≤ 8 := by
  intro slot hslot
  rw [h.trackers _ (Context.tracker_of_mem_slots hslot)]
  exact Tracker.infoSize_framed ..

private theorem isSome_coldBase (h : cl.Prepares faking oracle c) :
    cl.placed.coldBase.isSome = c.functions.hasColdRegion := by
  unfold placed
  rw [FunctionSet.hasColdRegion]
  obtain ⟨hcold, hroot⟩ | ⟨typed, span, hcold, hroot, -⟩ := h.describes.cold_cases <;> rw [hcold, hroot] <;> rfl

/-- Reserving storage commits nothing, and only the counts can stop it. -/
theorem reserve_cases (h : cl.Prepares faking oracle c) (session : Session) (hstats : session.stats = {}) :
    (∃ y, outcome (c.reserve Ledger.host) { host := {}, session } = .ok y ∧ y.host.commits = [] ∧
      ∀ room, c.slots.length * 8 + room < 2 ^ 64 → y.session.stats.Room room) ∨
    (outcome (c.reserve Ledger.host) { host := {}, session } = .error (.fault (.overflow .add)) ∧
      2 ^ 64 ≤ c.slots.length * 8) := by
  have hschedule := Context.schedule_reserve_eq_ok_iff.2 ⟨h.isBracket_eq_false, rfl⟩
  have hperform : c.perform Ledger.host .reserve = c.reserve Ledger.host := rfl
  unfold outcome
  rw [← hperform]
  obtain ⟨y, made, hrun, hagenda, hhost, hroom⟩ | ⟨stop, y, hrun, hstop | ⟨rfl, hnone⟩⟩ :=
    Context.perform_of_acceptsAll Ledger.acceptsAll_host hschedule (by decide) h.infoSize_slot { host := {}, session }
  · rw [hrun]
    refine .inl ⟨y, rfl, ?_, fun room hlt => hroom room ?_⟩
    · rw [hhost, Ledger.commits_after_host, List.nil_append, List.filterMap_eq_nil_iff]
      intro request hmade
      have hplanned : .ok request ∈ c.agenda .reserve := hagenda ▸ List.mem_map_of_mem hmade
      obtain ⟨slot, -, hslot⟩ := List.mem_map.1 hplanned
      cases hslot
      rfl
    · rw [hstats]
      exact Stats.room_iff_of_zero.2 hlt
  · obtain ⟨slot, -, hslot⟩ := List.mem_map.1 hstop
    cases hslot
  · rw [hrun]
    rw [hstats, Stats.room_iff_of_zero] at hnone
    exact .inr ⟨rfl, Nat.not_lt.1 hnone⟩

/-- The commits are those of the pieces of code, unless one of them breaks a contract or the counts are full. -/
theorem commit_cases (h : cl.Prepares faking oracle c) (hsize : cl.placed.hotSize ≤ cl.placed.totalSize)
    (x : Exchange Ledger) :
    (∃ y, outcome (c.commit Ledger.host oracle cl.placed) x = .ok y ∧
      y.host.commits = x.host.commits ++ cl.commits faking ∧
      ∀ entry ∈ cl.pieces faking, ∀ fault, ¬ entry.2.Breaks cl.placed fault) ∨
    (∃ fault, outcome (c.commit Ledger.host oracle cl.placed) x = .error (.fault fault) ∧
      ∃ entry ∈ cl.pieces faking, entry.2.Breaks cl.placed fault) ∨
    (outcome (c.commit Ledger.host oracle cl.placed) x = .error (.fault (.overflow .add)) ∧
      ¬ x.session.stats.Room (c.slots.length * 8)) := by
  have hschedule := (@Context.schedule_commit_eq_ok_iff c _ oracle cl.placed).2
    ⟨⟨h.isBracket_eq_false, h.isSome_coldBase, hsize⟩, rfl⟩
  have hperform : c.perform Ledger.host (.commit oracle cl.placed) = c.commit Ledger.host oracle cl.placed := rfl
  have hsettles := h.describes.forall₂_settles h.trackers
  rw [h.settings] at hsettles
  unfold outcome
  rw [← hperform]
  obtain ⟨y, made, hrun, hagenda, hhost, -⟩ | ⟨stop, y, hrun, hstop | ⟨rfl, hnone⟩⟩ :=
    Context.perform_of_acceptsAll Ledger.acceptsAll_host hschedule (by decide) h.infoSize_slot x
  · rw [hagenda] at hsettles
    obtain ⟨rfl, hwhole⟩ := eq_of_settles hsettles
    rw [hrun]
    refine .inl ⟨y, rfl, ?_, hwhole⟩
    rw [hhost, Ledger.commits_after_host, List.filterMap_map]
    exact congrArg _ (congrFun List.filterMap_eq_map _)
  · obtain ⟨fault, rfl, hbreaks⟩ := exists_breaks_of_settles hsettles hstop
    rw [hrun]
    exact .inr (.inl ⟨fault, rfl, hbreaks⟩)
  · rw [hrun]
    exact .inr (.inr ⟨rfl, hnone⟩)

end Prepares

/-- A trace reports exactly what was typed. For a command line that was read, with fewer than 2 ^ 32 offsets in it, it
    ends with the commits of the pieces of code, if no range or size is wrong; with the address of cold code that is
    not in memory; or with the broken contract. The only other end is a count that overflows, for which there have to
    be more funclets than fit into memory. -/
theorem trace_commits {arguments : List String} (hparsed : Request.ofArguments arguments = .ok (.trace cl))
    (hoffsets : cl.offsetCount < 2 ^ 32) (environment : Option String) :
    (∃ x, cl.trace environment = .ok x ∧ x.host.commits = cl.commits (cl.faking environment) ∧ ¬ cl.Overflows ∧
      ∀ fault, ¬ cl.Breaks (cl.faking environment) fault) ∨
    (cl.trace environment = .error (.error (.addressSpace cl.hotBase cl.hotSize)) ∧ cl.Overflows) ∨
    (∃ fault, cl.trace environment = .error (.fault fault) ∧ ¬ cl.Overflows ∧
      cl.Breaks (cl.faking environment) fault) ∨
    (cl.trace environment = .error (.fault (.overflow .add)) ∧ 2 ^ 60 ≤ cl.funclets.length + 2) := by
  obtain ⟨c, oracle, hprepares, htrace⟩ :=
    exists_prepares (Request.isFunclet_of_ofArguments hparsed) hoffsets environment
  -- Reservation and commitment add no more than 8 to a count for each record, so fewer than 2 ^ 60 of them fit.
  have hlength := hprepares.length_slots_le
  rw [htrace]
  obtain ⟨y, hreserve, hnothing, hroom⟩ | ⟨hreserve, hfull⟩ := hprepares.reserve_cases { name? := some "unit" } rfl
  · obtain ⟨hoverflows, hlayout⟩ | ⟨hfits, hsize, hlayout⟩ | ⟨hfits, hsize, hlayout⟩ := cl.layout_cases
    · rw [traceFrom, hreserve, hlayout]
      exact .inr (.inl ⟨rfl, hoverflows⟩)
    · rw [traceFrom, hreserve, hlayout]
      exact .inr (.inr (.inl ⟨_, rfl, hfits, .size hsize⟩))
    · have hends : cl.traceFrom c oracle =
          (outcome (c.commit Ledger.host oracle cl.placed) y).mapError (·.map .unwind) := by
        rw [traceFrom, hreserve, hlayout]
        rfl
      rw [hends]
      obtain ⟨z, hcommit, hcommits, hwhole⟩ | ⟨fault, hcommit, entry, hentry, hbreaks⟩ | ⟨hcommit, hnone⟩ :=
        hprepares.commit_cases hsize y
      · rw [hnothing, List.nil_append] at hcommits
        rw [hcommit]
        refine .inl ⟨z, rfl, hcommits, hfits, fun fault h => ?_⟩
        cases h with
        | size hlt => exact UInt32.not_le.2 hlt hsize
        | range hmem hbreaks => exact hwhole _ hmem fault hbreaks
      · rw [hcommit]
        exact .inr (.inr (.inl ⟨fault, rfl, hfits, .range hentry hbreaks⟩))
      · have hmany : 2 ^ 60 ≤ cl.funclets.length + 2 := by
          by_contra hfew
          exact hnone (hroom _ (by omega))
        rw [hcommit]
        exact .inr (.inr (.inr ⟨rfl, hmany⟩))
  · rw [traceFrom, hreserve]
    exact .inr (.inr (.inr ⟨rfl, by omega⟩))

/-- A unit with cold code and with two funclets at the same place. -/
def traceSample : CommandLine where
  hotSize := 64
  totalSize := some 96
  root := { stop := some 0x30 }
  cold := some { stop := some 90 }
  funclets := [⟨.handler, { start := some 0x30 }⟩, ⟨.filter, { start := some 0x30, stop := some 64 }⟩]

private theorem not_breaks_traceSample (fault : Fault) : ¬ traceSample.Breaks false fault := by
  rintro (hsize | ⟨hmem, hbreaks⟩)
  · exact absurd hsize (by decide)
  · have hpieces : traceSample.pieces false = [(.root, .hot { stop := some 0x30 }), (.root, .cold { stop := some 90 }),
      (.handler, .hot { start := some 0x30 }), (.filter, .hot { start := some 0x30, stop := some 64 })] := rfl
    simp only [hpieces, List.mem_cons, Prod.mk.injEq, List.not_mem_nil, or_false] at hmem
    obtain ⟨-, rfl⟩ | ⟨-, rfl⟩ | ⟨-, rfl⟩ | ⟨-, rfl⟩ := hmem <;> cases hbreaks <;> exact absurd ‹_ < _› (by decide)

theorem trace_commits_traceSample : ∃ x, traceSample.trace none = .ok x ∧
    x.host.commits = [
      ⟨.root, 0x10000, none, ⟨0, 48⟩, [0x01, 4, 2, 0x05, 4, 0x03, 1, 0x50]⟩,
      ⟨.root, 0x10000, some 0x10040, ⟨0, 26⟩, [0x21, 0, 0, 0]⟩,
      ⟨.handler, 0x10000, none, ⟨48, 64⟩, [0x01, 4, 2, 0x05, 4, 0x03, 1, 0x50]⟩,
      ⟨.filter, 0x10000, none, ⟨48, 64⟩, [0x01, 4, 2, 0x05, 4, 0x03, 1, 0x50]⟩] := by
  have hparsed : Request.ofArguments ["--hot-size", "64", "--total-size=96", "--root=-:0x30", "--cold=-:90",
      "--funclet", "handler:0x30:-", "--funclet", "filter:0x30:64"] = .ok (.trace traceSample) := rfl
  obtain ⟨x, htrace, hcommits, -⟩ | ⟨-, hoverflows⟩ | ⟨fault, -, -, hbreaks⟩ | ⟨-, hmany⟩ :=
    trace_commits hparsed (by decide) none
  · exact ⟨x, htrace, hcommits⟩
  · exact absurd hoverflows.2 (by decide)
  · exact absurd hbreaks (not_breaks_traceSample fault)
  · exact absurd hmany (by decide)

end CommandLine

end StackUnwind
