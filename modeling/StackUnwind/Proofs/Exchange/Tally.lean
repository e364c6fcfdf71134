import StackUnwind.Proofs.Exchange.Errand
import StackUnwind.Proofs.Session.Below

namespace StackUnwind

namespace Errand

variable {stats stats' next : Stats} {es es' : List Errand}

/-- The counts after errands, if none of them overflows. -/
def tallyAll (es : List Errand) (stats : Stats) : Except Fault Stats := es.foldlM (fun stats e => e.tally stats) stats

/-- Errands are counted one after another. -/
theorem tallyAll_cons_eq_ok_iff {e : Errand} :
    tallyAll (e :: es) stats = .ok next ↔ ∃ s, e.tally stats = .ok s ∧ tallyAll es s = .ok next := by
  simp only [tallyAll, List.foldlM_cons, bind_eq_ok_iff]

/-- Whether an errand can be counted below wherever another one can be counted. -/
def Below (e' e : Errand) : Prop :=
  ∀ stats' stats next, stats'.Below stats → e.tally stats = .ok next →
    ∃ next', e'.tally stats' = .ok next' ∧ next'.Below next

/-- Errands that ask for no more can be counted wherever the others can be. -/
theorem tallyAll_below (h : List.Forall₂ Below es' es) (hbelow : stats'.Below stats)
    (htally : tallyAll es stats = .ok next) : ∃ next', tallyAll es' stats' = .ok next' ∧ next'.Below next := by
  induction h generalizing stats stats' with
  | nil =>
    cases htally
    exact ⟨stats', rfl, hbelow⟩
  | cons hhead _ ih =>
    obtain ⟨s, hfirst, hrest⟩ := tallyAll_cons_eq_ok_iff.1 htally
    obtain ⟨s', hfirst', hbelow'⟩ := hhead _ _ _ hbelow hfirst
    obtain ⟨next', hrest', hnext⟩ := ih hbelow' hrest
    exact ⟨next', tallyAll_cons_eq_ok_iff.2 ⟨s', hfirst', hrest'⟩, hnext⟩

end Errand

namespace Exchange

variable {σ : Type} {host : Host σ}

/-- With a host that accepts everything, errands come to their end exactly when they can be counted. -/
theorem serve_eq_ok_iff_tallyAll (haccepts : host.AcceptsAll) {es : List Errand} {x : Exchange σ} {stats : Stats} :
    (∃ y, serve host (es.map .ok) x = .ok () y ∧ y.session.stats = stats) ↔
      Errand.tallyAll es x.session.stats = .ok stats := by
  induction es generalizing x with
  | nil =>
    constructor
    · rintro ⟨_, ⟨⟩, rfl⟩
      rfl
    · intro htally
      exact ⟨x, rfl, Except.ok.inj htally⟩
  | cons e es ih =>
    obtain ⟨s, hanswer⟩ := haccepts e.request x.host
    simp only [List.map_cons, serve_cons_ok, Errand.tallyAll_cons_eq_ok_iff, bind, EStateM.bind, Errand.run_eq, hanswer]
    cases e.tally x.session.stats with
    | error fault => simp
    | ok counted => simp only [Except.ok.injEq, exists_eq_left', ih]

end Exchange

end StackUnwind
