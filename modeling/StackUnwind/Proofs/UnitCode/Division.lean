import StackUnwind.Proofs.Generation.Commit
import StackUnwind.Proofs.UnitCode.Trace

namespace StackUnwind

namespace LocationTable

private theorem addLabels_concat (table : LocationTable) (number : Nat) (labels : List (Option UInt32))
    (label : Option UInt32) :
    table.addLabels number (labels ++ [label]) = match label with
      | none => table.addLabels number labels
      | some offset => (table.addLabels number labels).insert ⟨.ofNat (number + labels.length)⟩ offset := by
  induction labels generalizing table number with
  | nil => cases label <;> rfl
  | cons first labels ih =>
    have hlength : number + 1 + labels.length = number + (first :: labels).length := by
      rw [List.length_cons]
      omega
    cases first with
    | none => rw [List.cons_append, addLabels, ih, addLabels, hlength]
    | some offset => rw [List.cons_append, addLabels, ih, addLabels, hlength]

/-- Whether a label decides where a location is: it is the last one with an offset that has the location's number,
    which labels share once their numbers exceed a word. -/
structure Decides (offset? : Nat → Option UInt32) (location : Location) (label : Nat) (w : UInt32) : Prop where
  offset : offset? label = some w
  number : (⟨.ofNat label⟩ : Location) = location
  last : ∀ label', label < label' → offset? label' ≠ none → (⟨.ofNat label'⟩ : Location) ≠ location

private theorem decides_update_iff {offset? : Nat → Option UInt32} {location : Location} {number label : Nat}
    {offset w : UInt32} (hnone : offset? number = none) (hne : (⟨.ofNat number⟩ : Location) ≠ location) :
    Decides (Function.update offset? number (some offset)) location label w ↔ Decides offset? location label w := by
  constructor
  · rintro ⟨hoffset, hlocation, hlast⟩
    have hlabel : label ≠ number := by
      rintro rfl
      exact hne hlocation
    rw [Function.update_of_ne hlabel] at hoffset
    refine ⟨hoffset, hlocation, fun label' hlt hsome => hlast label' hlt ?_⟩
    have hlabel' : label' ≠ number := by
      rintro rfl
      exact hsome hnone
    rwa [Function.update_of_ne hlabel']
  · rintro ⟨hoffset, hlocation, hlast⟩
    have hlabel : label ≠ number := by
      rintro rfl
      exact hne hlocation
    refine ⟨by rw [Function.update_of_ne hlabel, hoffset], hlocation, fun label' hlt hsome => ?_⟩
    by_cases heq : label' = number
    · rw [heq]
      exact hne
    · rw [Function.update_of_ne heq] at hsome
      exact hlast label' hlt hsome

/-- A label after all others decides where the location of its number is. -/
theorem decides_update_self_iff {offset? : Nat → Option UInt32} {number label : Nat} {offset w : UInt32}
    (hpast : ∀ label, number ≤ label → offset? label = none) :
    Decides (Function.update offset? number (some offset)) ⟨.ofNat number⟩ label w ↔ label = number ∧ w = offset := by
  have hafter {label : Nat} (h : number < label) : Function.update offset? number (some offset) label = none := by
    rw [Function.update_of_ne (Nat.ne_of_gt h), hpast label (Nat.le_of_lt h)]
  constructor
  · rintro ⟨hoffset, -, hlast⟩
    rcases Nat.lt_trichotomy label number with h | rfl | h
    · refine absurd rfl (hlast number h ?_)
      rw [Function.update_self]
      exact Option.some_ne_none offset
    · rw [Function.update_self, Option.some_inj] at hoffset
      exact ⟨rfl, hoffset.symm⟩
    · rw [hafter h] at hoffset
      cases hoffset
  · rintro ⟨rfl, rfl⟩
    exact ⟨Function.update_self .., rfl, fun label' hlt hsome => absurd (hafter hlt) hsome⟩

/-- The table binds each location to the offset of the label that decides where it is. -/
theorem offset?_addLabels_eq_some_iff {labels : List (Option UInt32)} {location : Location} {w : UInt32} :
    (empty.addLabels 0 labels).offset? location = some w ↔
      ∃ label, Decides (fun label => labels[label]?.join) location label w := by
  -- Labels that share a number overwrite each other in order, so the last one is split off.
  induction labels using List.reverseRecOn with
  | nil =>
    rw [addLabels, offset?_empty]
    constructor
    · rintro ⟨⟩
    · rintro ⟨label, hoffset, -, -⟩
      cases hoffset
  | append_singleton labels last ih =>
    have hpast (label : Nat) (h : labels.length ≤ label) : labels[label]?.join = none := by
      rw [List.getElem?_eq_none h, Option.join_none]
    have hupdate : (fun label => (labels ++ [last])[label]?.join) =
        Function.update (fun label => labels[label]?.join) labels.length last := by
      funext label
      rcases Nat.lt_trichotomy label labels.length with h | rfl | h
      · rw [Function.update_of_ne (Nat.ne_of_lt h), List.getElem?_append_left h]
      · rw [Function.update_self, List.getElem?_concat_length, Option.join_some]
      · rw [Function.update_of_ne (Nat.ne_of_gt h), hpast label (Nat.le_of_lt h), List.getElem?_eq_none, Option.join_none]
        rw [List.length_append, List.length_singleton]
        exact h
    rw [addLabels_concat, hupdate]
    cases last with
    | none =>
      have hsame := Function.update_eq_self labels.length fun label => labels[label]?.join
      rw [hpast labels.length (Nat.le_refl _)] at hsame
      rw [hsame]
      exact ih
    | some offset =>
      rw [offset?_insert, Nat.zero_add]
      by_cases heq : (⟨.ofNat labels.length⟩ : Location) = location
      · rw [if_pos heq, Option.some_inj, ← heq]
        simp only [decides_update_self_iff hpast, exists_eq_left, eq_comm]
      · rw [if_neg heq, ih]
        exact exists_congr fun label => (decides_update_iff (hpast _ (Nat.le_refl _)) heq).symm

end LocationTable

namespace Encoder

/-- Whether a label decides where a location is: it is the last one placed that has the location's number, which labels
    share once their numbers exceed a word. -/
structure Decides (calls : List Call) (location : Location) (label : Nat) : Prop where
  placed : Placed calls label
  number : (⟨.ofNat label⟩ : Location) = location
  last : ∀ label', label < label' → Placed calls label' → (⟨.ofNat label'⟩ : Location) ≠ location

variable {calls : List Call} {location : Location} {label : Nat}

private theorem Placed.lt_labelCount (h : Placed calls label) : label < labelCount calls := by
  obtain ⟨before, after, rfl, hlt⟩ := h
  rw [labelCount, List.count_append]
  exact Nat.lt_of_lt_of_le hlt (Nat.le_add_right _ _)

/-- As long as there is a location for each label, only the label of its own number decides where a location is. -/
theorem decides_iff_of_labelCount_le (h : labelCount calls ≤ 2 ^ 32) :
    Decides calls location label ↔ Placed calls label ∧ label = location.id.toNat := by
  have hword {label : Nat} (hplaced : Placed calls label) : label < 2 ^ 32 :=
    Nat.lt_of_lt_of_le hplaced.lt_labelCount h
  constructor
  · rintro ⟨hplaced, hnumber, -⟩
    exact ⟨hplaced, (LocationTable.mk_ofNat_eq_iff (hword hplaced)).1 hnumber⟩
  · rintro ⟨hplaced, rfl⟩
    refine ⟨hplaced, (LocationTable.mk_ofNat_eq_iff (hword hplaced)).2 rfl, fun label' hlt hplaced' hnumber => ?_⟩
    exact Nat.ne_of_gt hlt ((LocationTable.mk_ofNat_eq_iff (hword hplaced')).1 hnumber)

end Encoder

/-- A finished unit whose hot code is what some calls on the encoder have asked for, and whose cold code is what the
    calls after them have. -/
structure AssembledUnit.Divides (done : AssembledUnit) (hot cold : List Encoder.Call) : Prop where
  code : done.code = done.hotCode ++ done.coldCode
  hotCode : done.hotCode.toList = Encoder.codeOf hot
  coldCode : done.coldCode.toList = Encoder.codeOf cold
  hotSize_le : done.hotSize ≤ done.totalSize
  totalSize : done.totalSize.toNat = done.code.size
  /-- Each location is where the label that decides about it was placed, counted in bytes of code before it. -/
  locations : ∀ location w, done.locations.offset? location = some w ↔
    ∃ label, Encoder.Decides (hot ++ cold) location label ∧ Encoder.PlacedAt (hot ++ cold) label w.toNat
  le_hotSize : ∀ location label w, done.locations.offset? location = some w →
    Encoder.Decides (hot ++ cold) location label → Encoder.Placed hot label → w ≤ done.hotSize
  hotSize_le_of_cold : ∀ location label w, done.locations.offset? location = some w →
    Encoder.Decides (hot ++ cold) location label → ¬ Encoder.Placed hot label → done.hotSize ≤ w

namespace UnitCode

variable {unit : UnitCode} {done : AssembledUnit} {hot cold : List Encoder.Call}

/-- A finished unit binds each location to the offset of the label that decides where it is. -/
theorem locations_of_finish {calls : List Encoder.Call} (hholds : unit.encoder.Holds calls)
    (h : unit.finish = .ok done) (location : Location) (w : UInt32) :
    done.locations.offset? location = some w ↔
      ∃ label, Encoder.Decides calls location label ∧ Encoder.PlacedAt calls label w.toNat := by
  simp only [finish, bind_eq_ok_iff, mapError_eq_ok_iff, verdict_eq_ok_iff, check_eq_ok_iff, pure_eq_ok_iff] at h
  obtain ⟨a, ⟨_, hassemble⟩, -, rfl⟩ := h
  have hof := AssembledCode.of_assemble hholds hassemble
  have hplaced (label : Nat) : a.labelOffsets.toList[label]?.join ≠ none ↔ Encoder.Placed calls label := by
    rw [Array.getElem?_toList, hholds.placed_iff, Encoder.offset?_of_assemble hassemble, AssembledCode.offset?, ne_eq,
      ne_eq, Option.map_eq_none_iff]
  have hoffset (label : Nat) : a.labelOffsets.toList[label]?.join = some w ↔ Encoder.PlacedAt calls label w.toNat := by
    rw [Array.getElem?_toList]
    exact hof.offset?_eq_some_iff label w
  rw [LocationTable.offset?_addLabels_eq_some_iff]
  constructor
  · rintro ⟨label, hsome, hnumber, hlast⟩
    refine ⟨label, ⟨(hplaced label).1 ?_, hnumber, fun label' hlt h => hlast label' hlt ((hplaced label').2 h)⟩,
      (hoffset label).1 hsome⟩
    exact fun hnone => Option.some_ne_none w (hsome.symm.trans hnone)
  · rintro ⟨label, ⟨-, hnumber, hlast⟩, hat⟩
    exact ⟨label, (hoffset label).2 hat, hnumber, fun label' hlt h => hlast label' hlt ((hplaced label').1 h)⟩

/-- The calls on the encoder of a unit, cut where its cold section begins. -/
structure Divided (unit : UnitCode) (hot cold : List Encoder.Call) : Prop where
  encoder : unit.encoder = Encoder.run (hot ++ cold)
  whole : unit.coldStart = none → cold = []
  start : ∀ location, unit.coldStart = some location →
    Encoder.PlacedAt (hot ++ cold) location.id.toNat (Encoder.codeOf hot).length

private theorem Divided.holds (h : unit.Divided hot cold) : unit.encoder.Holds (hot ++ cold) :=
  h.encoder ▸ Encoder.holds_run (hot ++ cold)

variable {ρ : Type} [FrameRecorder ρ] {calls before : List (CodeCall ρ)} {call : CodeCall ρ}
  {more : List Encoder.Call}

/-- Whether a call on a unit begins its cold section. -/
def BeginsWith (unit : UnitCode) (call : CodeCall ρ) : Prop :=
  ∃ unitCall location, call = .unit unitCall ∧ unit.Begins unitCall location

/-- Whether a run has begun the cold section with the call after the first few. -/
def BeginsAfter (calls before : List (CodeCall ρ)) : Prop :=
  ∃ call after, calls = before ++ call :: after ∧ (run before).BeginsWith call

private theorem beginsAfter_concat_iff :
    BeginsAfter (calls ++ [call]) before ↔ BeginsAfter calls before ∨ before = calls ∧ (run calls).BeginsWith call := by
  constructor
  · rintro ⟨first, after, heq, hbegins⟩
    rcases Encoder.concat_eq_append_cons_iff.1 heq with ⟨rfl, rfl, -⟩ | ⟨after', -, rfl⟩
    · exact .inr ⟨rfl, hbegins⟩
    · exact .inl ⟨first, after', rfl, hbegins⟩
  · rintro (⟨first, after, rfl, hbegins⟩ | ⟨rfl, hbegins⟩)
    · exact ⟨first, after ++ [call], by simp, hbegins⟩
    · exact ⟨call, [], rfl, hbegins⟩

private theorem coldStart_after (h : ¬ unit.BeginsWith call) : (unit.after call).coldStart = unit.coldStart := by
  cases call with
  | unit unitCall => exact coldStart_perform fun location hbegins => h ⟨unitCall, location, rfl, hbegins⟩
  | prolog recorder frame =>
    obtain ⟨drafts, hdrives⟩ := Emission.exists_drives_prolog { unit, recorder, frame }
    rw [after, hdrives.unit]
  | epilog recorder frame =>
    obtain ⟨drafts, hdrives⟩ := Emission.exists_drives_epilog { unit, recorder, frame }
    rw [after, hdrives.unit]

/-- What a call asks for while there is no cold section is hot code. -/
theorem Divided.extend_hot (h : unit.Divided hot []) (hnone : unit.coldStart = none) (hmakes : unit.Makes call more)
    (hnot : ¬ unit.BeginsWith call) : (unit.after call).Divided (hot ++ more) [] := by
  have hcold : (unit.after call).coldStart = none := (coldStart_after hnot).trans hnone
  refine ⟨?_, fun _ => rfl, fun location hlocation => ?_⟩
  · rw [hmakes.encoder, h.encoder, List.append_nil, List.append_nil, Encoder.run_append]
  · rw [hcold] at hlocation
    cases hlocation

/-- What a call asks for once there is one is cold code. -/
theorem Divided.extend_cold (h : unit.Divided hot cold) (hsome : unit.coldStart ≠ none) (hmakes : unit.Makes call more)
    (hnot : ¬ unit.BeginsWith call) : (unit.after call).Divided hot (cold ++ more) := by
  have hcold := coldStart_after hnot
  refine ⟨?_, fun hnone => absurd (hcold.symm.trans hnone) hsome, fun location hlocation => ?_⟩
  · rw [hmakes.encoder, h.encoder, ← Encoder.run_append, List.append_assoc]
  · rw [← List.append_assoc]
    exact (h.start location (hcold.symm.trans hlocation)).append more

/-- The cold section begins with the call that begins it. -/
theorem Divided.begin (h : unit.Divided hot []) (hmakes : unit.Makes call more) (hbegins : unit.BeginsWith call) :
    (unit.after call).Divided hot more := by
  obtain ⟨unitCall, location, rfl, hbegins⟩ := hbegins
  obtain ⟨-, hstart, hoffset⟩ := hbegins.after
  have hencoder : (unit.after (.unit unitCall : CodeCall ρ)).encoder = Encoder.run (hot ++ more) := by
    rw [hmakes.encoder, h.encoder, List.append_nil, Encoder.run_append]
  refine ⟨hencoder, fun hnone => ?_, fun location' hlocation => ?_⟩
  · exact absurd (hstart.symm.trans hnone) (Option.some_ne_none location)
  · obtain rfl := Option.some.inj (hstart.symm.trans hlocation)
    have hsize := h.holds.size_code
    rw [List.append_nil] at hsize
    rw [← (Encoder.holds_run (hot ++ more)).offsets, ← hencoder, ← hsize]
    exact hoffset

/-- A run is cut where the one call that begins the cold section is, or nowhere. -/
theorem divided_run (calls : List (CodeCall ρ)) :
    ∃ hot cold, Traces calls (hot ++ cold) ∧ (run calls).Divided hot cold ∧
      ((run calls).coldStart = none → ∀ before, ¬ BeginsAfter calls before) ∧
      ((run calls).coldStart ≠ none →
        ∃ before, Traces before hot ∧ ∀ before', BeginsAfter calls before' ↔ before' = before) := by
  -- The last call either begins the cold section or adds to the section that is open.
  induction calls using List.reverseRecOn with
  | nil =>
    refine ⟨[], [], .nil, ⟨rfl, fun _ => rfl, fun location h => nomatch h⟩, ?_, fun h => absurd rfl h⟩
    rintro - before ⟨call, after, heq, -⟩
    simp at heq
  | append_singleton calls call ih =>
    obtain ⟨hot, cold, htraces, hdivided, hwhole, hsplit⟩ := ih
    obtain ⟨more, hmakes⟩ := exists_makes (run calls) call
    simp only [run_concat, beginsAfter_concat_iff]
    have hnext := htraces.concat hmakes
    rw [List.append_assoc] at hnext
    by_cases hbegins : (run calls).BeginsWith call
    · obtain ⟨unitCall, location, rfl, hbegin⟩ := hbegins
      obtain ⟨hnone, hstart, -⟩ := hbegin.after
      obtain rfl := hdivided.whole hnone
      refine ⟨hot, more, hnext, hdivided.begin hmakes ⟨unitCall, location, rfl, hbegin⟩, fun h => ?_, fun _ =>
        ⟨calls, by rwa [List.append_nil] at htraces, fun before' => ?_⟩⟩
      · exact absurd (hstart.symm.trans h) (Option.some_ne_none location)
      · rw [or_iff_right (hwhole hnone before'), and_iff_left ⟨unitCall, location, rfl, hbegin⟩]
    · rw [coldStart_after hbegins]
      simp only [hbegins, and_false, or_false]
      by_cases hnone : (run calls).coldStart = none
      · obtain rfl := hdivided.whole hnone
        refine ⟨hot ++ more, [], ?_, hdivided.extend_hot hnone hmakes hbegins, hwhole, fun h => absurd hnone h⟩
        rwa [List.append_nil]
      · exact ⟨hot, cold ++ more, hnext, hdivided.extend_cold hnone hmakes hbegins, hwhole, hsplit⟩

private theorem Divided.toNat_hotSize (h : unit.Divided hot cold) (hfinish : unit.finish = .ok done) :
    done.hotSize.toNat = (Encoder.codeOf hot).length := by
  rw [(finished_of_finish hfinish).hot]
  cases hcold : unit.coldStart with
  | none =>
    have hsize := h.holds.size_code
    rw [h.whole hcold, List.append_nil] at hsize
    rw [Option.bind_none, Option.getD_none, hsize]
  | some location =>
    have hoffset := (h.holds.offsets location.id.toNat _).2 (h.start location hcold)
    rw [Option.bind_some, hoffset, Option.getD_some]

private theorem Divided.divides (h : unit.Divided hot cold) (hfinish : unit.finish = .ok done) :
    done.Divides hot cold := by
  have hfinished := finished_of_finish hfinish
  have hhot := h.toNat_hotSize hfinish
  have hcode : done.code.toList = Encoder.codeOf hot ++ Encoder.codeOf cold := by
    rw [hfinished.code, h.holds.code, Encoder.codeOf_append]
  have hsize : done.code.size = (Encoder.codeOf hot).length + (Encoder.codeOf cold).length := by
    rw [← Array.length_toList, hcode, List.length_append]
  have htotal : done.totalSize.toNat = done.code.size := by
    rw [hfinished.total, hfinished.code]
  have hhotCode : done.hotCode.toList = Encoder.codeOf hot := by
    rw [AssembledUnit.hotCode, Array.toList_extract, hcode, hhot]
    simp
  have hcoldCode : done.coldCode.toList = Encoder.codeOf cold := by
    rw [AssembledUnit.coldCode, Array.toList_extract, hcode, hhot, hsize]
    simp
  have hlocations := locations_of_finish h.holds hfinish
  have hat {location : Location} {label : Nat} {w : UInt32} (hw : done.locations.offset? location = some w)
      (hdecides : Encoder.Decides (hot ++ cold) location label) : Encoder.PlacedAt (hot ++ cold) label w.toNat := by
    obtain ⟨label', hdecides', hat⟩ := (hlocations location w).1 hw
    rcases Nat.lt_trichotomy label label' with hlt | rfl | hlt
    · exact absurd hdecides'.number (hdecides.last label' hlt hdecides'.placed)
    · exact hat
    · exact absurd hdecides.number (hdecides'.last label hlt hdecides.placed)
  refine ⟨?_, hhotCode, hcoldCode, ?_, htotal, hlocations, fun location label w hw hdecides hplaced => ?_,
    fun location label w hw hdecides hnot => ?_⟩
  · rw [← Array.toList_inj, Array.toList_append, hhotCode, hcoldCode, hcode]
  · rw [UInt32.le_iff_toNat_le, hhot, htotal, hsize]
    exact Nat.le_add_right _ _
  · obtain ⟨offset, hoffset⟩ := Encoder.placed_iff_exists_placedAt.1 hplaced
    have hsame := (h.holds.offsets label _).2 (hoffset.append cold)
    rw [(h.holds.offsets label _).2 (hat hw hdecides), Option.some_inj] at hsame
    rw [UInt32.le_iff_toNat_le, hhot, hsame]
    exact hoffset.le
  · rw [UInt32.le_iff_toNat_le, hhot]
    exact (hat hw hdecides).le_of_not_placed hnot

/-- The cold section cannot begin a second time, nor at a location that there is not or that has been placed. -/
theorem beginColdAt_fails_iff {made : List Encoder.Call} (hholds : unit.encoder.Holds made) {location : Location} :
    (∃ e unit', perform (.beginColdAt location) unit = .error e unit') ↔
      unit.coldStart ≠ none ∨ Encoder.labelCount made ≤ location.id.toNat ∨
        Encoder.Placed made location.id.toNat := by
  have hrefused : (∃ cause encoder, Encoder.place location.id.toNat unit.encoder = .error cause encoder) ↔
      Encoder.labelCount made ≤ location.id.toNat ∨ Encoder.Placed made location.id.toNat := by
    simp only [hholds.place_eq_error_iff, Encoder.Refused, exists_and_left, exists_eq, and_true, exists_or]
  rw [← hrefused, perform_beginColdAt_eq, beginColdAt_eq, place_eq, inColdSection]
  cases unit.coldStart with
  | some start => simp
  | none => cases Encoder.place location.id.toNat unit.encoder <;> simp

private theorem isSplit_iff (calls : List (CodeCall ρ)) (h : (run calls).finish = .ok done) :
    done.isSplit = true ↔ (run calls).coldStart ≠ none := by
  rw [(finished_of_finish h).split, Option.isSome_iff_ne_none]

/-- There is a cold section exactly if a call began it. -/
theorem coldStart_run_ne_none_iff (calls : List (CodeCall ρ)) :
    (run calls).coldStart ≠ none ↔ ∃ before, BeginsAfter calls before := by
  obtain ⟨hot, cold, -, -, hwhole, hsplit⟩ := divided_run calls
  constructor
  · intro hsome
    obtain ⟨before, -, hbefore⟩ := hsplit hsome
    exact ⟨before, (hbefore before).2 rfl⟩
  · rintro ⟨before, hbefore⟩ hnone
    exact hwhole hnone before hbefore

/-- A call that failed to begin the cold section at a location is as good as not made. -/
theorem run_of_beginColdAt_fails {location : Location} {e : CodegenError} (after : List (CodeCall ρ))
    (hfails : perform (.beginColdAt location) (run before) = .error e unit) :
    run (before ++ .unit (.beginColdAt location) :: after) = run (before ++ after) ∧
      ¬ BeginsAfter (before ++ .unit (.beginColdAt location) :: after) before := by
  refine ⟨?_, ?_⟩
  · obtain rfl := state_of_perform_beginColdAt_eq_error hfails
    rw [run_append_cons, UnitCode.after, hfails, endState, run, run, List.foldl_append]
  · rintro ⟨call, after', heq, unitCall, start, rfl, hbegins⟩
    obtain ⟨hcall, -⟩ := List.cons_eq_cons.1 (List.append_cancel_left heq)
    cases hcall
    cases hbegins with
    | given hsucceeds =>
      rw [hsucceeds] at hfails
      cases hfails

/-- A finished unit is cut exactly where its cold section began. Its hot code is what was asked for before the one call
    that began the section, or all of its code if there was none, and each location is where it was placed. Calls that
    failed to begin the section at a location are as good as not made. -/
theorem finish_divides (calls : List (CodeCall ρ)) (h : (run calls).finish = .ok done) :
    (∃ hot cold, Traces calls (hot ++ cold) ∧ done.Divides hot cold ∧
      (Encoder.labelCount (hot ++ cold) ≤ 2 ^ 32 → ∀ location w,
        done.locations.offset? location = some w ↔ Encoder.PlacedAt (hot ++ cold) location.id.toNat w.toNat) ∧
      (done.isSplit = false → cold = []) ∧
      (done.isSplit = true → ∃ before, Traces before hot ∧ ∀ before', BeginsAfter calls before' ↔ before' = before)) ∧
    (done.isSplit = true ↔ ∃ before, BeginsAfter calls before) ∧
    (∀ before location after made, calls = before ++ .unit (.beginColdAt location) :: after → Traces before made →
      ((∃ e unit, perform (.beginColdAt location) (run before) = .error e unit) ↔
        (∃ earlier, BeginsAfter before earlier) ∨ Encoder.labelCount made ≤ location.id.toNat ∨
          Encoder.Placed made location.id.toNat) ∧
      ∀ e unit, perform (.beginColdAt location) (run before) = .error e unit →
        unit = run before ∧ run calls = run (before ++ after) ∧ ¬ BeginsAfter calls before) ∧
    ∀ base : UInt64, base.toNat + done.hotSize.toNat < 2 ^ 64 → done.layout base = .ok (done.placedAt base) := by
  obtain ⟨hot, cold, htraces, hdivided, -, hsplit⟩ := divided_run calls
  have hdivides := hdivided.divides h
  have hfinished := finished_of_finish h
  refine ⟨⟨hot, cold, htraces, hdivides, fun hfew location w => ?_, fun hnot => ?_, fun hsome => ?_⟩, ?_, ?_, ?_⟩
  · rw [hdivides.locations]
    simp only [Encoder.decides_iff_of_labelCount_le hfew]
    constructor
    · rintro ⟨_, ⟨-, rfl⟩, hat⟩
      exact hat
    · intro hat
      exact ⟨_, ⟨Encoder.placed_iff_exists_placedAt.2 ⟨_, hat⟩, rfl⟩, hat⟩
  · apply hdivided.whole
    rwa [hfinished.split, Option.isSome_eq_false_iff, Option.isNone_iff_eq_none] at hnot
  · exact hsplit ((isSplit_iff calls h).1 hsome)
  · exact (isSplit_iff calls h).trans (coldStart_run_ne_none_iff calls)
  · rintro before location after made rfl hmade
    have hholds : (run before).encoder.Holds made := hmade.encoder ▸ Encoder.holds_run made
    refine ⟨?_, ?_⟩
    · rw [← coldStart_run_ne_none_iff before]
      exact beginColdAt_fails_iff hholds
    · intro e unit hfails
      exact ⟨state_of_perform_beginColdAt_eq_error hfails, run_of_beginColdAt_fails after hfails⟩
  · intro base hbase
    exact AssembledUnit.layout_eq_ok (UInt32.le_iff_toNat_le.1 hdivides.hotSize_le)
      (fun hnot => hfinished.hotSize_eq_totalSize hnot) hbase

/-- A run with a prolog and with two calls that do not begin the cold section, the first because there is no location 7,
    the second because it has begun. -/
def sampleRun : List (CodeCall Tracker) := [
  .unit .newLocation, .unit (.place ⟨0⟩), .prolog (.fresh .x64) .sample, .unit (.encoder (.emit .nop)), .unit .here,
  .unit (.beginColdAt ⟨7⟩), .unit .newLocation, .unit (.beginColdAt ⟨2⟩), .unit (.encoder (.emit .int3)),
  .unit .beginCold, .unit .here]

theorem finish_divides_sampleRun : ∃ done hot cold, (run sampleRun).finish = .ok done ∧
    Traces sampleRun (hot ++ cold) ∧ Traces (sampleRun.take 7) hot ∧ run sampleRun = run (sampleRun.eraseIdx 5) ∧
    (Encoder.codeOf hot).length = 18 ∧ Encoder.codeOf cold = [0xCC] ∧
    done.layout 0x20000 = .ok (done.placedAt 0x20000) := by
  have hrun : (run sampleRun).finish.toOption.any (fun done =>
      done.isSplit ∧ done.hotSize = 18 ∧ done.hotCode.toList.length = 18 ∧ done.coldCode.toList = [0xCC]) = true := by
    decide +kernel
  obtain ⟨done, hfinish, hdone⟩ := (Option.any_eq_true _ _).1 hrun
  rw [toOption_eq_some_iff] at hfinish
  obtain ⟨hsplit, hsize, hhotCode, hcoldCode⟩ := of_decide_eq_true hdone
  obtain ⟨⟨hot, cold, htraces, hdivides, -, -, hcut⟩, -, hfails, hlayout⟩ := finish_divides sampleRun hfinish
  obtain ⟨before, hbefore, hbegins⟩ := hcut hsplit
  have hgiven : verdict (perform (.beginColdAt ⟨2⟩) (run (sampleRun.take 7))) = .ok .done := by decide +kernel
  obtain ⟨unit, hgiven⟩ := verdict_eq_ok_iff.1 hgiven
  have hbegun : BeginsAfter sampleRun (sampleRun.take 7) :=
    ⟨.unit (.beginColdAt ⟨2⟩), sampleRun.drop 8, rfl, _, ⟨2⟩, rfl, .given hgiven⟩
  obtain rfl := (hbegins _).1 hbegun
  obtain ⟨made, hmade⟩ := exists_traces (sampleRun.take 5)
  have hunknown : verdict (perform (.beginColdAt ⟨7⟩) (run (sampleRun.take 5))) =
      .error (.encode (.unknownLabel 7)) := by decide +kernel
  obtain ⟨unit', hunknown⟩ := verdict_eq_error_iff.1 hunknown
  obtain ⟨-, hsame⟩ := hfails (sampleRun.take 5) ⟨7⟩ (sampleRun.drop 6) made rfl hmade
  obtain ⟨-, herased, -⟩ := hsame _ _ hunknown
  refine ⟨done, hot, cold, hfinish, htraces, hbefore, herased, ?_, ?_, hlayout _ ?_⟩
  · rw [← hdivides.hotCode, hhotCode]
  · rw [← hdivides.coldCode, hcoldCode]
  · rw [hsize]
    decide

end UnitCode

end StackUnwind
