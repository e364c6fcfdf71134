import StackUnwind.Proofs.Context.Variants
import StackUnwind.Proofs.Emission.Variants
import StackUnwind.Proofs.Generation.Commit
import StackUnwind.Proofs.UnitCode.Calls

namespace StackUnwind

/-- A call while a unit is compiled: to its code, to the recorder of a function, or to write a prolog or an epilog of
    any frame for the function with the given index. -/
inductive CompilationCall where
  | unit (call : UnitCall)
  | recorder (index : Nat) (call : RecorderCall)
  | prolog (index : Nat) (frame : FrameLayout)
  | epilog (index : Nat) (frame : FrameLayout)

/-- How many operations a call reports, apart from those of a prolog that preserve no register, which are at most
    three. -/
def CompilationCall.opCount : CompilationCall → Nat
  | .recorder _ call => call.isOp.toNat
  | .prolog _ frame => frame.preserved
  | .unit _ | .epilog _ _ => 0

/-- What a call returns. A prolog or an epilog also leaves the frame that it was written for. -/
inductive CompilationAnswer where
  | unit (result : Except CodegenError UnitAnswer)
  | recorder
  | written (result : Except CodegenError Unit) (frame : FrameLayout)

/-- A unit that is being compiled. -/
structure Compilation where
  unit : UnitCode := {}
  context : Context

namespace Compilation

/-- Nothing has been compiled. -/
def start (context : Context) : Compilation := { context }

/-- The state after some work on the code and the tracker of a function. -/
def wrote (s : Compilation) (index : Nat) (y : Emission Tracker) : Compilation where
  unit := y.unit
  context := s.context.setTracker index y.recorder

/-- What becomes of a prolog or an epilog. An error or a fault leaves what has been written until then. -/
def settle (s : Compilation) (index : Nat) : EStateM.Result (Stop CodegenError) (Emission Tracker) Unit →
    EStateM.Result Fault Compilation CompilationAnswer
  | .ok () y => .ok (.written (.ok ()) y.frame) (s.wrote index y)
  | .error (.error e) y => .ok (.written (.error e) y.frame) (s.wrote index y)
  | .error (.fault fault) y => .error fault (s.wrote index y)

def write (index : Nat) (frame : FrameLayout) (work : EmissionM Tracker Unit) :
    EStateM Fault Compilation CompilationAnswer := fun s =>
  match s.context.tracker index with
  | .ok recorder => s.settle index (work { unit := s.unit, recorder, frame })
  | .error fault => .error fault s

/-- Make a call, which stops the compilation if it breaks a contract. -/
def step : CompilationCall → EStateM Fault Compilation CompilationAnswer
  | .unit call => fun s =>
    .ok (.unit (verdict (UnitCode.perform call s.unit))) { s with unit := endState (UnitCode.perform call s.unit) }
  | .recorder index call => do
    onPart context (fun s context => { s with context }) id (Context.receive index call)
    return .recorder
  | .prolog index frame => write index frame Emission.prolog
  | .epilog index frame => write index frame Emission.epilog

/-- What calls return up to the first that breaks a contract, and how they end. -/
def run (s : Compilation) : List CompilationCall → List CompilationAnswer × EStateM.Result Fault Compilation Unit
  | [] => ([], .ok () s)
  | call :: calls =>
    match step call s with
    | .error fault s => ([], .error fault s)
    | .ok answer s => (answer :: (s.run calls).1, (s.run calls).2)

/-- The same with recorders for x86. -/
def onX86 (s : Compilation) : Compilation := { s with context := s.context.onX86 }

variable {s s' : Compilation} {answer : CompilationAnswer} {call : CompilationCall} {n : Nat}

private theorem inStep_start {functions : List UnitFunction} {settings : Settings} {c : Context}
    (h : Context.fresh .x64 functions settings = .ok c) : (start c).context.InStep 0 := by
  obtain ⟨-, -, htrackers⟩ := Context.of_fresh h
  intro t ht
  rw [htrackers t ht]
  exact Tracker.inStep_fresh.mono (Nat.zero_le _) (Nat.le_refl 0)

private theorem wrote_onX86 (s : Compilation) (index : Nat) (y : Emission Tracker) :
    s.onX86.wrote index y.onX86 = (s.wrote index y).onX86 := by
  simp only [wrote, onX86, Context.setTracker_onX86]
  rfl

private theorem settle_onX86 (s : Compilation) (index : Nat)
    (r : EStateM.Result (Stop CodegenError) (Emission Tracker) Unit) :
    s.onX86.settle index (mapState Emission.onX86 r) = mapState onX86 (s.settle index r) := by
  cases r with
  | ok u y =>
    rw [mapState, settle, wrote_onX86]
    rfl
  | error stop y =>
    cases stop with
    | error e =>
      rw [mapState, settle, wrote_onX86]
      rfl
    | fault fault =>
      rw [mapState, settle, wrote_onX86]
      rfl

private theorem of_settle_eq_ok {index : Nat} {r : EStateM.Result (Stop CodegenError) (Emission Tracker) Unit}
    (h : s.settle index r = .ok answer s') :
    s' = s.wrote index (endState r) ∧ ∀ fault y, r ≠ .error (.fault fault) y := by
  cases r with
  | ok u y =>
    cases h
    refine ⟨rfl, fun fault z hfault => ?_⟩
    cases hfault
  | error stop y =>
    cases stop with
    | error e =>
      cases h
      refine ⟨rfl, fun fault z hfault => ?_⟩
      cases hfault
    | fault fault => cases h

section Write

variable {work : EmissionM Tracker Unit} {frame : FrameLayout} {index : Nat}

/-- Work that comes to the same on x86 whichever tracker it begins with is the same for a function. -/
private theorem write_onX86 (h : s.context.InStep n)
    (hwork : ∀ recorder : Tracker, recorder.InStep (n + 3) n →
      Emission.Follows (n + 3) n { unit := s.unit, recorder, frame } work) :
    write index frame work s.onX86 = mapState onX86 (write index frame work s) := by
  have htracker : s.onX86.context.tracker index = (s.context.tracker index).map Tracker.onX86 :=
    s.context.tracker_onX86 index
  rw [write, write, htracker]
  cases hrecorder : s.context.tracker index with
  | error fault => rfl
  | ok recorder =>
    have hmem := List.mem_of_getElem? (Context.tracker_eq_ok_iff.1 hrecorder)
    have hfollows := (hwork recorder (h recorder hmem)).onX86
    exact (congrArg (s.onX86.settle index) hfollows).trans (settle_onX86 s index _)

private theorem inStep_of_write (h : s.context.InStep n)
    (hwork : ∀ recorder : Tracker, recorder.InStep (n + 3) n →
      Emission.Follows (n + 3) n { unit := s.unit, recorder, frame } work)
    (hwrite : write index frame work s = .ok answer s') : s'.context.InStep n := by
  rw [write] at hwrite
  split at hwrite
  next recorder hrecorder =>
    obtain ⟨rfl, hgoes⟩ := of_settle_eq_ok hwrite
    have hmem := List.mem_of_getElem? (Context.tracker_eq_ok_iff.1 hrecorder)
    exact h.setTracker ((hwork recorder (h recorder hmem)).inStep hgoes) index
  next => cases hwrite

end Write

private theorem step_recorder_eq (index : Nat) (call : RecorderCall) (s : Compilation) :
    step (.recorder index call) s = match Context.receive index call s.context with
      | .ok _ context => .ok .recorder { s with context }
      | .error fault context => .error fault { s with context } := by
  rw [step, run_bind_pure, onPart]
  cases Context.receive index call s.context <;> rfl

/-- Each call is taken, answered or refused in the same way, and the operations that it reports are counted. -/
theorem step_onX86 (h : s.context.InStep n) (hfew : n + call.opCount < 2 ^ 32) :
    step call s.onX86 = mapState onX86 (step call s) ∧
      ∀ answer s', step call s = .ok answer s' → s'.context.InStep (n + call.opCount) := by
  cases call with
  | unit call =>
    refine ⟨rfl, ?_⟩
    rintro _ _ ⟨⟩
    exact h
  | recorder index call =>
    have hreceive : Context.receive index call s.onX86.context =
        mapState Context.onX86 (Context.receive index call s.context) := Context.receive_onX86 h hfew index
    simp only [step_recorder_eq, hreceive]
    cases hresult : Context.receive index call s.context with
    | error fault c =>
      refine ⟨rfl, ?_⟩
      rintro _ _ ⟨⟩
    | ok u c =>
      refine ⟨rfl, ?_⟩
      rintro _ _ ⟨⟩
      exact h.receive hresult
  | prolog index frame =>
    have hroom : frame.preserved + 3 ≤ n + frame.preserved + 3 := by omega
    have h' : s.context.InStep (n + frame.preserved) := h.mono (Nat.le_add_right _ _)
    have hfollows (recorder : Tracker) :=
      @Emission.follows_prolog { unit := s.unit, recorder, frame } _ (n + frame.preserved) hroom
    exact ⟨write_onX86 h' hfollows, fun _ _ => inStep_of_write h' hfollows⟩
  | epilog index frame =>
    have hfollows (recorder : Tracker) := @Emission.follows_epilog { unit := s.unit, recorder, frame } (n + 3) n
    exact ⟨write_onX86 h hfollows, fun _ _ => inStep_of_write h hfollows⟩

/-- So are calls one after another, up to the first that breaks a contract. -/
theorem run_onX86 {calls : List CompilationCall} (h : s.context.InStep n)
    (hfew : n + (calls.map CompilationCall.opCount).sum < 2 ^ 32) :
    s.onX86.run calls = Prod.map id (mapState onX86) (s.run calls) ∧
      ∀ s', (s.run calls).2 = .ok () s' → s'.context.InStep (n + (calls.map CompilationCall.opCount).sum) := by
  -- A call that reports operations takes up some of those that can still be counted.
  induction calls generalizing s n with
  | nil =>
    refine ⟨rfl, ?_⟩
    rintro _ ⟨⟩
    exact h
  | cons call calls ih =>
    rw [List.map_cons, List.sum_cons, ← Nat.add_assoc] at hfew ⊢
    have hcall : n + call.opCount < 2 ^ 32 := by omega
    obtain ⟨hstep', hnext⟩ := step_onX86 h hcall
    rw [run, run, hstep']
    cases hstep : step call s with
    | error fault s' => exact ⟨rfl, nofun⟩
    | ok answer s' =>
      obtain ⟨hrun, hend⟩ := ih (hnext answer s' hstep) hfew
      refine ⟨?_, hend⟩
      simp only [mapState, Prod.map, id, hrun]

/-- Whether two compilations differ in nothing but what the recorders remember. -/
structure Alike (s' s : Compilation) : Prop where
  unit : s'.unit = s.unit
  functions : s'.context.functions = s.context.functions
  settings : s'.context.settings = s.context.settings
  trackers : List.Forall₂ (fun t' t => t'.phase = t.phase ∧ t'.epilogs = t.epilogs) s'.context.trackers
    s.context.trackers

private theorem alike_onX86 (s : Compilation) : s.onX86.Alike s := by
  refine ⟨rfl, rfl, rfl, ?_⟩
  exact List.forall₂_map_left_iff.2 (List.forall₂_same.2 fun t _ => ⟨rfl, rfl⟩)

/-- Compilation is the same whatever architecture records are made for: the same units can be begun, every call returns
    the same and leaves the same frame, and if one of them breaks a contract it is the same one, at the same call. If
    none does, storage is reserved for as many records of the same code, and what can be committed on x64 can be
    committed on x86, with records of nothing but the length of the code. -/
theorem compilation_alike (functions : List UnitFunction) (settings : Settings) (calls : List CompilationCall)
    (hfew : (calls.map CompilationCall.opCount).sum < 2 ^ 32) :
    (∀ e, Context.fresh .x64 functions settings = .error e → Context.fresh .x86 functions settings = .error e) ∧
    ∀ c, Context.fresh .x64 functions settings = .ok c → ∃ c', Context.fresh .x86 functions settings = .ok c' ∧
      ((start c').run calls).1 = ((start c).run calls).1 ∧
      ∃ s' s, s'.Alike s ∧
        ((∃ fault, ((start c').run calls).2 = .error fault s' ∧ ((start c).run calls).2 = .error fault s) ∨
          ((start c').run calls).2 = .ok () s' ∧ ((start c).run calls).2 = .ok () s ∧
            s'.context.Shortens s.context) := by
  rw [Context.fresh_onX86]
  refine ⟨fun e h => by rw [h]; rfl, fun c hfresh => ⟨c.onX86, by rw [hfresh]; rfl, ?_⟩⟩
  obtain ⟨hrun, hend⟩ := run_onX86 (inStep_start hfresh) (by rwa [Nat.zero_add])
  have hrun : (start c.onX86).run calls = _ := hrun
  rw [hrun, Nat.zero_add] at *
  cases hresult : ((start c).run calls).2 with
  | error fault s =>
    exact ⟨rfl, s.onX86, s, alike_onX86 s, .inl ⟨fault, congrArg (mapState onX86) hresult, rfl⟩⟩
  | ok u s =>
    refine ⟨rfl, s.onX86, s, alike_onX86 s, .inr ⟨congrArg (mapState onX86) hresult, rfl, ?_⟩⟩
    exact Context.shortens_onX86 (hend s hresult) hfew

/-- A frame that no calls lead to: a register is preserved twice, and the locals are not rounded up. -/
def sampleFrame : FrameLayout where
  savedRegisters := [.gp 12, .gp 12]
  localSize := 23

/-- A prolog and an epilog that are written, a prolog that is refused, and both of them reported by themselves. -/
def sampleCalls : List CompilationCall := [
  .prolog 0 sampleFrame, .unit (.encoder (.emit .nop)), .epilog 0 { sampleFrame with frameSize := 32 },
  .unit .beginCold, .prolog 1 sampleFrame, .recorder 1 (.report .beginProlog),
  .recorder 1 (.report (.op (.push .rbp))), .recorder 1 (.report .endProlog), .recorder 1 (.report .beginEpilog),
  .recorder 1 (.report (.op (.push .rbp))), .recorder 1 (.report .endEpilog), .recorder 1 (.info .hot 9)]

/-- The locations of the functions, one after another. -/
def sampleOracle : Oracle := fun location => some (8 * location.id * location.id)

def sampleLayout : UnitLayout := ⟨0x1000, some 0x2000, 40, 130⟩

theorem compilation_alike_sample : ∃ c' s' y',
    Context.fresh .x86 Generation.sampleContext.functions.toList {} = .ok c' ∧
    ((start c').run sampleCalls).2 = .ok () s' ∧
    s'.context.commit Ledger.host sampleOracle sampleLayout { host := {} } = .ok () y' ∧
    s'.context.reservations = [⟨false, false, 4⟩, ⟨false, true, 4⟩, ⟨true, false, 4⟩] ∧
    s'.context.requests Ledger.host (.commit sampleOracle sampleLayout) { host := {} } = [
      .commit ⟨.root, 0x1000, none, ⟨0, 8⟩, [8, 0, 0, 0]⟩,
      .commit ⟨.root, 0x1000, some 0x2000, ⟨32, 88⟩, [56, 0, 0, 0]⟩,
      .commit ⟨.handler, 0x1000, none, ⟨8, 32⟩, [24, 0, 0, 0]⟩] := by
  obtain ⟨-, halike⟩ := compilation_alike Generation.sampleContext.functions.toList {} sampleCalls (by decide)
  obtain ⟨c', hfresh', -, hends⟩ := halike Generation.sampleContext rfl
  let r := ((start Generation.sampleContext).run sampleCalls).2
  obtain ⟨⟨⟩, s, hrun⟩ := exists_of_succeeds (r := r) (by decide +kernel)
  have hcommit :
      succeeds ((endState r).context.commit Ledger.host sampleOracle sampleLayout { host := {} }) = true := by
    decide +kernel
  have hreservations :
      (endState r).context.reservations = [⟨false, false, 16⟩, ⟨false, true, 4⟩, ⟨true, false, 8⟩] := by
    decide +kernel
  have hrequests :
      (endState r).context.requests Ledger.host (.commit sampleOracle sampleLayout) { host := {} } = [
        .commit ⟨.root, 0x1000, none, ⟨0, 8⟩, [1, 12, 5, 5, 12, 3, 9, 50, 5, 192, 3, 192, 1, 80, 0, 0]⟩,
        .commit ⟨.root, 0x1000, some 0x2000, ⟨32, 88⟩, [33, 0, 0, 0]⟩,
        .commit ⟨.handler, 0x1000, none, ⟨8, 32⟩, [1, 1, 1, 0, 1, 80, 0, 0]⟩] := by
    decide +kernel
  rw [hrun, endState] at hcommit hreservations hrequests
  obtain ⟨⟨⟩, y, hcommit⟩ := exists_of_succeeds hcommit
  obtain ⟨s', _, -, ⟨fault, -, hfails⟩ | ⟨hrun', hsame, hshortens⟩⟩ := hends
  · cases hrun.symm.trans hfails
  · cases hrun.symm.trans hsame
    obtain ⟨y', ks, hcommit', -, hks, hks'⟩ := hshortens.commit Ledger.host Ledger.host _ y { host := {} } _ _
      Ledger.acceptsAll_host Ledger.acceptsAll_host Stats.Counted.start.below_self hcommit
    refine ⟨c', s', y', hfresh', hrun', hcommit', ?_, ?_⟩
    · rw [hshortens.reservations, hreservations]
      rfl
    · have hshort : (ks.map Commit.lengthOnly).map HostRequest.commit =
          (ks.map HostRequest.commit).map HostRequest.lengthOnly := by
        rw [List.map_map, List.map_map]
        rfl
      rw [hks', hshort, ← hks, hrequests]
      rfl

end Compilation

end StackUnwind
