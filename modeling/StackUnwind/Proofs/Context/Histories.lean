import StackUnwind.Proofs.Context.Slots

namespace StackUnwind

/-- A call to the recorder of a function. -/
inductive RecorderCall where
  | report (event : FrameEvent)
  /-- Ask for the size of a record, or for a record itself. Neither changes the recorder. -/
  | size (region : Region)
  | info (region : Region) (codeLength : UInt32)

namespace Tracker

def receive : RecorderCall → EStateM Fault Tracker Unit
  | .report event => FrameRecorder.record event
  | .size _ => return
  | .info region codeLength => do
    let t ← get
    match t.recorder.info region codeLength with
    | .error (.fault fault) => throw fault
    | .error (.error _) | .ok _ => return

def receiveAll (calls : List RecorderCall) : EStateM Fault Tracker Unit := calls.forM receive

/-- What calls make of a tracker. Where there is none, there must not be any calls. -/
inductive Leads : Option Tracker → List RecorderCall → Option Tracker → Prop where
  | present {t t' : Tracker} {calls : List RecorderCall} (h : receiveAll calls t = .ok () t') :
      Leads (some t) calls (some t')
  | absent : Leads none [] none

private theorem Leads.unique {t? t₁? t₂? : Option Tracker} {calls : List RecorderCall} (h₁ : Leads t? calls t₁?)
    (h₂ : Leads t? calls t₂?) : t₁? = t₂? := by
  cases h₁ with
  | absent =>
    cases h₂
    rfl
  | present hfirst =>
    cases h₂ with
    | present hsecond =>
      cases hfirst.symm.trans hsecond
      rfl

private theorem leads_nil_iff {t? t'? : Option Tracker} : Leads t? [] t'? ↔ t'? = t? := by
  constructor
  · intro h
    cases h with
    | absent => rfl
    | present h =>
      cases h
      rfl
  · rintro rfl
    cases t'? with
    | none => exact .absent
    | some t => exact .present rfl

private theorem leads_cons_iff {t? t'? : Option Tracker} {call : RecorderCall} {calls : List RecorderCall} :
    Leads t? (call :: calls) t'? ↔
      ∃ t s, t? = some t ∧ receive call t = .ok () s ∧ Leads (some s) calls t'? := by
  have hcons : receiveAll (call :: calls) = receive call >>= fun _ => receiveAll calls := rfl
  constructor
  · intro h
    cases h with
    | present h =>
      rw [hcons, run_bind_eq_ok_iff] at h
      obtain ⟨_, s, hcall, hcalls⟩ := h
      exact ⟨_, s, rfl, hcall, .present hcalls⟩
  · rintro ⟨t, s, rfl, hcall, hcalls⟩
    cases hcalls with
    | present hcalls =>
      apply Leads.present
      rw [hcons, run_bind_eq_ok_iff]
      exact ⟨(), s, hcall, hcalls⟩

end Tracker

/-- The calls among several that are to the recorder of one function, in order. -/
def history (index : Nat) (calls : List (Nat × RecorderCall)) : List RecorderCall :=
  (calls.filter fun call => call.1 = index).map Prod.snd

private theorem history_cons (index i : Nat) (call : RecorderCall) (calls : List (Nat × RecorderCall)) :
    history index ((i, call) :: calls) = if i = index then call :: history index calls else history index calls := by
  unfold history
  rw [List.filter_cons]
  by_cases h : i = index
  · simp [h]
  · simp [h]

namespace Context

variable {c c' : Context} {calls calls' : List (Nat × RecorderCall)} {oracle : Oracle} {layout : UnitLayout}

/-- Call one of the recorders of a unit. -/
def receive (index : Nat) (call : RecorderCall) : EStateM Fault Context Unit := onTracker index (Tracker.receive call)

def receiveAll (calls : List (Nat × RecorderCall)) : EStateM Fault Context Unit :=
  calls.forM fun (index, call) => receive index call

/-- A function has a tracker if there is a function with its index. -/
theorem tracker_eq_ok_iff {index : Nat} {t : Tracker} : c.tracker index = .ok t ↔ c.trackers[index]? = some t := by
  unfold tracker
  cases c.trackers[index]? <;> simp

/-- A call to a recorder changes its tracker and no other, also when it breaks a contract. -/
theorem receive_eq (index : Nat) (call : RecorderCall) (c : Context) :
    receive index call c = match c.tracker index with
      | .error fault => .error fault c
      | .ok t => mapState (c.setTracker index) (Tracker.receive call t) := by
  rw [receive, onTracker, run_get_bind]
  cases c.tracker index with
  | error fault => rfl
  | ok t =>
    simp only [run_bind_of_eq_ok (run_liftM_ok t c), onPart]
    cases Tracker.receive call t <;> rfl

/-- A call to a recorder is taken exactly if its tracker takes it. -/
theorem receive_eq_ok_iff {index : Nat} {call : RecorderCall} {u : Unit} :
    receive index call c = .ok u c' ↔
      ∃ t s, c.trackers[index]? = some t ∧ Tracker.receive call t = .ok u s ∧ c' = c.setTracker index s := by
  simp only [receive_eq, ← tracker_eq_ok_iff]
  cases c.tracker index with
  | error fault => simp
  | ok t => simp [mapState_eq_ok_iff]

private theorem ext_of_eq (hfunctions : c'.functions = c.functions) (hsettings : c'.settings = c.settings)
    (htrackers : ∀ index : Nat, c'.trackers[index]? = c.trackers[index]?) : c' = c := by
  cases c
  cases c'
  simp only at hfunctions hsettings htrackers
  obtain rfl := List.ext_getElem? htrackers
  cases hfunctions
  cases hsettings
  rfl

/-- Calls to the recorders of a unit run to their end exactly when, for each function, those to its own recorder do,
    and they change each recorder as its own calls do. -/
theorem receiveAll_eq_ok_iff :
    receiveAll calls c = .ok () c' ↔ c'.functions = c.functions ∧ c'.settings = c.settings ∧
      ∀ index, Tracker.Leads c.trackers[index]? (history index calls) c'.trackers[index]? := by
  -- The first call changes one tracker, so that the histories of all others go on from where they were.
  induction calls generalizing c with
  | nil =>
    have hnil : receiveAll [] c = .ok () c := rfl
    simp only [hnil, EStateM.Result.ok.injEq, true_and, history, List.filter_nil, List.map_nil, Tracker.leads_nil_iff]
    constructor
    · rintro rfl
      exact ⟨rfl, rfl, fun _ => rfl⟩
    · rintro ⟨hfunctions, hsettings, htrackers⟩
      exact (ext_of_eq hfunctions hsettings htrackers).symm
  | cons call calls ih =>
    obtain ⟨i, call⟩ := call
    have hstep : receiveAll ((i, call) :: calls) c = .ok () c' ↔
        ∃ u d, receive i call c = .ok u d ∧ receiveAll calls d = .ok () c' := run_bind_eq_ok_iff
    have hset (t s : Tracker) (ht : c.trackers[i]? = some t) (index : Nat) :
        (c.setTracker i s).trackers[index]? = if i = index then some s else c.trackers[index]? := by
      have hlt : i < c.trackers.length := (List.getElem?_eq_some_iff.1 ht).1
      rw [setTracker, List.getElem?_set]
      simp [hlt]
    simp only [hstep, receive_eq_ok_iff, ih, history_cons]
    constructor
    · rintro ⟨_, _, ⟨t, s, ht, hcall, rfl⟩, hfunctions, hsettings, hleads⟩
      refine ⟨hfunctions, hsettings, fun index => ?_⟩
      have hindex := hleads index
      rw [hset t s ht] at hindex
      by_cases heq : i = index
      · subst heq
        rw [if_pos rfl] at hindex ⊢
        exact Tracker.leads_cons_iff.2 ⟨t, s, ht, hcall, hindex⟩
      · rwa [if_neg heq] at hindex ⊢
    · rintro ⟨hfunctions, hsettings, hleads⟩
      have hfirst := hleads i
      rw [if_pos rfl, Tracker.leads_cons_iff] at hfirst
      obtain ⟨t, s, ht, hcall, hrest⟩ := hfirst
      refine ⟨(), _, ⟨t, s, ht, hcall, rfl⟩, hfunctions, hsettings, fun index => ?_⟩
      rw [hset t s ht]
      by_cases heq : i = index
      · subst heq
        rwa [if_pos rfl]
      · have hindex := hleads index
        rwa [if_neg heq] at hindex ⊢

/-- The records of one function, as far as they can be made up. -/
def recordsOf (c : Context) (oracle : Oracle) (layout : UnitLayout) (index : Nat) :
    List (Except (Stop UnwindError) Commit) :=
  c.entries[index]?.toList.flatMap fun (f, tracker) =>
    (c.regions f).map fun region => c.commitOf oracle layout ⟨f, tracker, region⟩

private theorem recordsOf_congr (hfunctions : c'.functions = c.functions) (hsettings : c'.settings = c.settings)
    {index : Nat}
    (htracker : c'.trackers[index]? = c.trackers[index]?) : c'.recordsOf oracle layout index =
      c.recordsOf oracle layout index := by
  have hplan : c'.planOf = c.planOf := by
    funext f
    rw [planOf, planOf, hsettings]
  have hentry : c'.entries[index]? = c.entries[index]? := by
    simp only [entries, List.zip, List.getElem?_zipWith, hfunctions, htracker]
  simp only [recordsOf, hentry, regions, commitOf, slotRange, hplan]

private theorem flatMap_range_getElem? {α β : Type} (as : List α) (g : α → List β) :
    ((List.range as.length).flatMap fun index => as[index]?.toList.flatMap g) = as.flatMap g := by
  induction as with
  | nil => rfl
  | cons a as ih =>
    rw [List.length_cons, List.range_succ_eq_map, List.flatMap_cons, List.flatMap_map]
    simp only [List.getElem?_cons_zero, List.getElem?_cons_succ, ih, Option.toList_some, List.flatMap_cons,
      List.flatMap_nil, List.append_nil]

/-- Commitment plans the records of each function, one function after another. -/
theorem agenda_commit (c : Context) (oracle : Oracle) (layout : UnitLayout) :
    c.agenda (.commit oracle layout) =
      ((List.range c.functions.size).flatMap (c.recordsOf oracle layout)).map (·.map .commit) := by
  have hlength : c.functions.size = c.entries.length := by
    rw [entries, List.length_zip, c.length_trackers, FunctionSet.size, Nat.min_self]
  unfold recordsOf
  rw [hlength, flatMap_range_getElem?, agenda, slots, List.map_flatMap, List.map_flatMap]
  simp only [List.map_map]
  rfl

/-- Requests that are the first of those planned. -/
theorem exists_prefix_of_map {ε α β : Type} {f : α → β} {bs : List β} {steps : List (Except ε α)}
    (h : bs.map .ok <+: steps.map (·.map f)) : ∃ as : List α, bs = as.map f ∧ as.map .ok <+: steps := by
  induction bs generalizing steps with
  | nil => exact ⟨[], rfl, List.nil_prefix⟩
  | cons b bs ih =>
    cases steps with
    | nil => cases List.prefix_nil.1 h
    | cons step steps =>
      rw [List.map_cons, List.map_cons, List.cons_prefix_cons] at h
      obtain ⟨hhead, htail⟩ := h
      obtain ⟨a, rfl, rfl⟩ : ∃ a, step = .ok a ∧ f a = b := by
        cases step with
        | error stop => cases hhead
        | ok a => exact ⟨a, rfl, (Except.ok.inj hhead).symm⟩
      obtain ⟨as, rfl, hprefix⟩ := ih htail
      exact ⟨a :: as, rfl, List.cons_prefix_cons.2 ⟨rfl, hprefix⟩⟩

variable {σ : Type}

/-- Commitment makes the commits of one function after another, and all of them if it comes to its end. -/
theorem commit_recordsOf (c : Context) (host : Host σ) (oracle : Oracle) (layout : UnitLayout) (x : Exchange σ) :
    ∃ ks : List Commit, c.requests host (.commit oracle layout) x = ks.map .commit ∧
      ks.map .ok <+: (List.range c.functions.size).flatMap (c.recordsOf oracle layout) ∧
      (succeeds (c.commit host oracle layout x) →
        ks.map .ok = (List.range c.functions.size).flatMap (c.recordsOf oracle layout)) := by
  cases hschedule : c.schedule (.commit oracle layout) with
  | error fault =>
    have hfails : c.commit host oracle layout x = .error (.fault fault) x := perform_of_schedule_eq_error hschedule
    refine ⟨[], requests_of_schedule_eq_error hschedule, List.nil_prefix, fun hsucceeds => ?_⟩
    rw [hfails] at hsucceeds
    cases hsucceeds
  | ok steps =>
    have hagenda := map_request_schedule hschedule
    rw [agenda_commit] at hagenda
    have hmap (es : List Errand) : (es.map Except.ok).map (·.map Errand.request) =
        (es.map Errand.request).map (@Except.ok (Stop UnwindError) HostRequest) := by
      rw [List.map_map, List.map_map]
      rfl
    cases hperform : c.commit host oracle layout x with
    | error stop y =>
      obtain ⟨es, hprefix, hasked⟩ := Exchange.exists_asked_eq host steps x
      have hplanned := hprefix.map (·.map Errand.request)
      rw [hmap, hagenda] at hplanned
      obtain ⟨ks, hks, hrecords⟩ := exists_prefix_of_map hplanned
      exact ⟨ks, by rw [requests_eq_asked hschedule, hasked, hks], hrecords, fun hsucceeds => nomatch hsucceeds⟩
    | ok u y =>
      have hperform : c.perform host (.commit oracle layout) x = .ok () y := hperform
      obtain ⟨es, hes, hrequests⟩ := exists_errands_of_perform hperform
      obtain rfl := Except.ok.inj (hschedule.symm.trans hes)
      rw [hmap] at hagenda
      obtain ⟨ks, hks, hrecords⟩ := exists_prefix_of_map ⟨[], by rw [List.append_nil, hagenda]⟩
      rw [hks] at hagenda
      refine ⟨ks, by rw [hrequests, hks], hrecords, fun _ => hrecords.eq_of_length ?_⟩
      simpa only [List.length_map] using congrArg List.length hagenda

/-- Calls to the recorders of a unit may be interleaved in any way that keeps the order of those to each one: all
    interleavings end in the same context, or none comes to its end. The record of a function depends on the calls
    to its own recorder only, and commitment makes these records, one function after another. -/
theorem recorders_independent (c : Context) :
    (∀ calls calls', (∀ index, history index calls = history index calls') →
      (outcome (receiveAll calls) c).toOption = (outcome (receiveAll calls') c).toOption) ∧
    ∀ calls d, receiveAll calls c = .ok () d →
      (∀ calls' d' index, receiveAll calls' c = .ok () d' → history index calls = history index calls' →
        d.trackers[index]? = d'.trackers[index]? ∧
        ∀ oracle layout, d.recordsOf oracle layout index = d'.recordsOf oracle layout index) ∧
      ∀ {σ : Type} (host : Host σ) oracle layout x, ∃ ks : List Commit,
        d.requests host (.commit oracle layout) x = ks.map .commit ∧
        ks.map .ok <+: (List.range c.functions.size).flatMap (d.recordsOf oracle layout) ∧
        (succeeds (d.commit host oracle layout x) →
          ks.map .ok = (List.range c.functions.size).flatMap (d.recordsOf oracle layout)) := by
  refine ⟨fun calls calls' hhistory => ?_, fun calls d hd => ⟨fun calls' d' index hd' hhistory => ?_, ?_⟩⟩
  · refine Option.ext fun d => ?_
    rw [toOption_eq_some_iff, toOption_eq_some_iff, outcome_eq_ok_iff, outcome_eq_ok_iff, receiveAll_eq_ok_iff,
      receiveAll_eq_ok_iff]
    simp only [hhistory]
  · obtain ⟨hfunctions, hsettings, hleads⟩ := receiveAll_eq_ok_iff.1 hd
    obtain ⟨hfunctions', hsettings', hleads'⟩ := receiveAll_eq_ok_iff.1 hd'
    have htracker : d.trackers[index]? = d'.trackers[index]? := (hhistory ▸ hleads index).unique (hleads' index)
    refine ⟨htracker, fun oracle layout => recordsOf_congr ?_ ?_ htracker⟩
    · rw [hfunctions, hfunctions']
    · rw [hsettings, hsettings']
  · obtain ⟨hfunctions, -, -⟩ := receiveAll_eq_ok_iff.1 hd
    intro σ host oracle layout x
    rw [← hfunctions]
    exact commit_recordsOf d host oracle layout x

/-- The functions of the sample before anything is recorded. -/
def freshSample : Context where
  functions := splitSample.functions
  trackers := splitSample.functions.toList.map fun _ => .fresh .x64
  settings := {}
  length_trackers := List.length_map ..

/-- Two prologs, one after the other or one around the other, and the second one alone. -/
theorem recorders_independent_splitSample :
    let outer := [.report .beginProlog, .report .endProlog]
    let inner := [.report .beginProlog, .report (.op (.push .rbp)), .size .hot, .report (.op (.alloc 32)),
      .report .endProlog]
    let sequence := inner.map (0, ·) ++ outer.map (1, ·)
    let nesting := (1, .report .beginProlog) :: (inner.map (0, ·) ++ [(1, .report .endProlog)])
    receiveAll sequence freshSample = .ok () splitSample ∧
    (outcome (receiveAll sequence) freshSample).toOption = (outcome (receiveAll nesting) freshSample).toOption ∧
    (∃ d, receiveAll (outer.map (1, ·)) freshSample = .ok () d ∧ splitSample.trackers[1]? = d.trackers[1]? ∧
      ∀ oracle layout, splitSample.recordsOf oracle layout 1 = d.recordsOf oracle layout 1) ∧
    ∃ ks : List Commit,
      splitSample.requests Ledger.host (.commit (sampleOracle 70 190) sampleLayout) { host := {} } = ks.map .commit ∧
      ks.map .ok = (List.range 2).flatMap (splitSample.recordsOf (sampleOracle 70 190) sampleLayout) := by
  intro outer inner sequence nesting
  have hsequence : receiveAll sequence freshSample = .ok () splitSample := rfl
  have hhistory : ∀ index, history index sequence = history index nesting
    | 0 => rfl
    | 1 => rfl
    | index + 2 => by simp [sequence, nesting, outer, inner, history]
  obtain ⟨hagree, hends⟩ := recorders_independent freshSample
  obtain ⟨hrecords, hcommits⟩ := hends sequence splitSample hsequence
  obtain ⟨ks, hrequests, -, hall⟩ := hcommits Ledger.host (sampleOracle 70 190) sampleLayout { host := {} }
  exact ⟨hsequence, hagree sequence nesting hhistory, ⟨_, rfl, hrecords (outer.map (1, ·)) _ 1 rfl rfl⟩, ks,
    hrequests, hall (by decide +kernel)⟩

end Context

end StackUnwind
