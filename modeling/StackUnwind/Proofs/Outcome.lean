import Mathlib
import StackUnwind.Fault

namespace StackUnwind

/-- A sequence of two computations succeeds exactly when both of them do. -/
theorem bind_eq_ok_iff {ε α β : Type} {x : Except ε α} {f : α → Except ε β} {b : β} :
    (x >>= f) = .ok b ↔ ∃ a, x = .ok a ∧ f a = .ok b := by
  cases x <;> simp [bind, Except.bind]

theorem pure_eq_ok_iff {ε α : Type} {a b : α} : (pure a : Except ε α) = .ok b ↔ b = a := by
  simp [pure, Except.pure, eq_comm]

/-- It fails when the first one does, or when the second one does after it. -/
theorem bind_eq_error_iff {ε α β : Type} {x : Except ε α} {f : α → Except ε β} {e : ε} :
    (x >>= f) = .error e ↔ x = .error e ∨ ∃ a, x = .ok a ∧ f a = .error e := by
  cases x <;> simp [bind, Except.bind]

theorem pure_eq_error_iff {ε α : Type} {a : α} {e : ε} : (pure a : Except ε α) = .error e ↔ False := by
  simp [pure, Except.pure]

theorem map_eq_ok_iff {ε α β : Type} {f : α → β} {x : Except ε α} {b : β} :
    f <$> x = .ok b ↔ ∃ a, x = .ok a ∧ f a = b := by
  cases x <;> simp [Functor.map, Except.map]

/-- A check that throws is passed exactly when its condition does not hold. -/
theorem check_eq_ok_iff {ε α : Type} {c : Prop} [Decidable c] {e : ε} {x : Except ε α} {a : α} :
    (if c then (throw e >>= fun _ : PUnit => x) else x) = .ok a ↔ ¬ c ∧ x = .ok a := by
  split
  next h => simp [h, throw, throwThe, MonadExceptOf.throw, bind, Except.bind]
  next h => simp [h]

/-- It is what fails when its condition holds, and otherwise what comes after it. -/
theorem check_eq_error_iff {ε α : Type} {c : Prop} [Decidable c] {e e' : ε} {x : Except ε α} :
    (if c then (throw e >>= fun _ : PUnit => x) else x) = .error e' ↔ c ∧ e' = e ∨ ¬ c ∧ x = .error e' := by
  split
  next h => simp [h, throw, throwThe, MonadExceptOf.throw, bind, Except.bind, eq_comm]
  next h => simp [h]

/-- A check for a broken contract is not what an error is returned from. -/
theorem check_fault_eq_error_iff {ε α : Type} {c : Prop} [Decidable c] {fault : Fault} {x : Except (Stop ε) α} {e : ε} :
    (if c then (throw (.fault fault) >>= fun _ : PUnit => x) else x) = .error (.error e) ↔
      ¬ c ∧ x = .error (.error e) := by
  split
  next h => simp [h, throw, throwThe, MonadExceptOf.throw, bind, Except.bind]
  next h => simp [h]

/-- An error that a check returns is not a broken contract. -/
theorem check_error_eq_fault_iff {ε α : Type} {c : Prop} [Decidable c] {e : ε} {x : Except (Stop ε) α} {fault : Fault} :
    (if c then (throw (.error e) >>= fun _ : PUnit => x) else x) = .error (.fault fault) ↔
      ¬ c ∧ x = .error (.fault fault) := by
  split
  next h => simp [h, throw, throwThe, MonadExceptOf.throw, bind, Except.bind]
  next h => simp [h]

theorem mapError_eq_ok_iff {ε ε' α : Type} {f : ε → ε'} {x : Except ε α} {a : α} :
    x.mapError f = .ok a ↔ x = .ok a := by
  cases x <;> simp [Except.mapError]

theorem toOption_eq_some_iff {ε α : Type} {x : Except ε α} {a : α} : x.toOption = some a ↔ x = .ok a := by
  cases x <;> simp [Except.toOption]

/-- A list that is related to two lists one after the other is cut into two. -/
theorem forall₂_append_left_iff {α β : Type} {R : α → β → Prop} {as as' : List α} {bs : List β} :
    List.Forall₂ R (as ++ as') bs ↔
      ∃ first second, bs = first ++ second ∧ List.Forall₂ R as first ∧ List.Forall₂ R as' second := by
  constructor
  · intro h
    induction as generalizing bs with
    | nil => exact ⟨[], bs, rfl, .nil, h⟩
    | cons a as ih =>
      obtain ⟨b, _, hb, htail, rfl⟩ := List.forall₂_cons_left_iff.1 h
      obtain ⟨first, second, rfl, hfirst, hsecond⟩ := ih htail
      exact ⟨b :: first, second, rfl, .cons hb hfirst, hsecond⟩
  · rintro ⟨first, second, rfl, hfirst, hsecond⟩
    exact List.rel_append hfirst hsecond

theorem forall₂_concat_left_iff {α β : Type} {R : α → β → Prop} {as : List α} {a : α} {bs : List β} :
    List.Forall₂ R (as ++ [a]) bs ↔ ∃ bs' b, bs = bs' ++ [b] ∧ List.Forall₂ R as bs' ∧ R a b := by
  rw [forall₂_append_left_iff]
  constructor
  · rintro ⟨first, second, rfl, hfirst, hsecond⟩
    obtain ⟨b, _, hb, hnil, rfl⟩ := List.forall₂_cons_left_iff.1 hsecond
    cases hnil
    exact ⟨first, b, rfl, hfirst, hb⟩
  · rintro ⟨bs', b, rfl, hbs, hb⟩
    exact ⟨bs', [b], rfl, hbs, .cons hb .nil⟩

theorem exists_mem_of_forall₂ {α β : Type} {R : α → β → Prop} {as : List α} {bs : List β} {b : β}
    (h : List.Forall₂ R as bs) (hb : b ∈ bs) : ∃ a ∈ as, R a b := by
  induction h with
  | nil => cases hb
  | cons hhead _ ih =>
    obtain rfl | hb := List.mem_cons.1 hb
    · exact ⟨_, List.mem_cons_self, hhead⟩
    · obtain ⟨a, ha, hab⟩ := ih hb
      exact ⟨a, List.mem_cons_of_mem _ ha, hab⟩

theorem forall₂_set {α β : Type} {R : α → β → Prop} {as : List α} {bs : List β} {a : α} {b : β}
    (h : List.Forall₂ R as bs) (hR : R a b) (i : Nat) : List.Forall₂ R (as.set i a) (bs.set i b) := by
  induction h generalizing i with
  | nil => exact .nil
  | cons hhead htail ih =>
    cases i with
    | zero => exact .cons hR htail
    | succ i => exact .cons hhead (ih i)

theorem forall₂_getElem? {α β : Type} {R : α → β → Prop} {as : List α} {bs : List β} {a : α} {b : β} {i : Nat}
    (h : List.Forall₂ R as bs) (ha : as[i]? = some a) (hb : bs[i]? = some b) : R a b := by
  induction h generalizing i with
  | nil => cases ha
  | cons hhead _ ih =>
    cases i with
    | zero =>
      cases ha
      cases hb
      exact hhead
    | succ i => exact ih ha hb

/-- A list of computations succeeds exactly when each of them does. -/
theorem mapM_eq_ok_iff {ε α β : Type} {f : α → Except ε β} {as : List α} {bs : List β} :
    as.mapM f = .ok bs ↔ List.Forall₂ (fun a b => f a = .ok b) as bs := by
  induction as generalizing bs with
  | nil => simp [pure_eq_ok_iff]
  | cons a as ih =>
    simp only [List.mapM_cons, bind_eq_ok_iff, ih, List.forall₂_cons_left_iff]
    constructor
    · rintro ⟨b, hb, bs', hbs, hcons⟩
      cases hcons
      exact ⟨b, bs', hb, hbs, rfl⟩
    · rintro ⟨b, bs', hb, hbs, rfl⟩
      exact ⟨b, hb, bs', hbs, rfl⟩

/-- A list of steps, each of which goes on from the one before it, fails exactly when one of them does after those
    before it have succeeded. -/
theorem foldlM_eq_error_iff {ε σ α : Type} {f : σ → α → Except ε σ} {s : σ} {as : List α} {e : ε} :
    as.foldlM f s = .error e ↔
      ∃ before a after t, as = before ++ a :: after ∧ before.foldlM f s = .ok t ∧ f t a = .error e := by
  constructor
  · intro h
    induction as generalizing s with
    | nil => cases h
    | cons a as ih =>
      rw [List.foldlM_cons, bind_eq_error_iff] at h
      obtain h | ⟨t, ht, h⟩ := h
      · exact ⟨[], a, as, s, rfl, rfl, h⟩
      · obtain ⟨before, b, after, u, rfl, hbefore, hb⟩ := ih h
        refine ⟨a :: before, b, after, u, rfl, ?_, hb⟩
        rw [List.foldlM_cons, bind_eq_ok_iff]
        exact ⟨t, ht, hbefore⟩
  · rintro ⟨before, a, after, t, rfl, hbefore, ha⟩
    rw [List.foldlM_append, bind_eq_error_iff]
    refine .inr ⟨t, hbefore, ?_⟩
    rw [List.foldlM_cons, bind_eq_error_iff]
    exact .inl ha

theorem findSome?_cons_eq_some_iff {α β : Type} {f : α → Option β} {a : α} {as : List α} {b : β} :
    (a :: as).findSome? f = some b ↔ f a = some b ∨ f a = none ∧ as.findSome? f = some b := by
  rw [List.findSome?_cons]
  cases f a <;> simp

/-- A list of outcomes that begins with a success has its first error where the rest of it has it. -/
theorem exists_ok_cons_eq_iff {ε α : Type} {a : α} {xs : List (Except ε α)} {e : ε} {P : List α → Prop} :
    (∃ as rest, .ok a :: xs = as.map .ok ++ .error e :: rest ∧ P as) ↔
      ∃ as rest, xs = as.map .ok ++ .error e :: rest ∧ P (a :: as) := by
  constructor
  · rintro ⟨as, rest, hxs, has⟩
    cases as with
    | nil => cases (List.cons.inj hxs).1
    | cons a' as =>
      obtain ⟨hhead, htail⟩ := List.cons.inj hxs
      obtain rfl := Except.ok.inj hhead
      exact ⟨as, rest, htail, has⟩
  · rintro ⟨as, rest, rfl, has⟩
    exact ⟨a :: as, rest, rfl, has⟩

theorem exists_error_cons_eq_iff {ε α : Type} {xs : List (Except ε α)} {e e' : ε} {P : List α → Prop} :
    (∃ as rest, .error e' :: xs = as.map .ok ++ .error e :: rest ∧ P as) ↔ e' = e ∧ P [] := by
  constructor
  · rintro ⟨as, rest, hxs, has⟩
    cases as with
    | nil => exact ⟨Except.error.inj (List.cons.inj hxs).1, has⟩
    | cons a as => cases (List.cons.inj hxs).1
  · rintro ⟨rfl, hnil⟩
    exact ⟨[], xs, rfl, hnil⟩

section Lift

variable {ε σ α β : Type} {s t : σ} {a : α}

@[simp] theorem liftM_fault_eq_ok_iff {x : Except Fault α} :
    (liftM x : Except (Stop ε) α) = .ok a ↔ x = .ok a := by
  cases x <;> simp [liftM, monadLift, MonadLift.monadLift, Except.mapError]

@[simp] theorem liftM_error_eq_ok_iff {x : Except ε α} :
    (liftM x : Except (Stop ε) α) = .ok a ↔ x = .ok a := by
  cases x <;> simp [liftM, monadLift, MonadLift.monadLift, Except.mapError]

@[simp] theorem liftM_fault_eq_error_iff {x : Except Fault α} {e : ε} :
    (liftM x : Except (Stop ε) α) = .error (.error e) ↔ False := by
  cases x <;> simp [liftM, monadLift, MonadLift.monadLift, Except.mapError]

@[simp] theorem liftM_error_eq_error_iff {x : Except ε α} {e : ε} :
    (liftM x : Except (Stop ε) α) = .error (.error e) ↔ x = .error e := by
  cases x <;> simp [liftM, monadLift, MonadLift.monadLift, Except.mapError]

@[simp] theorem liftM_fault_eq_fault_iff {x : Except Fault α} {fault : Fault} :
    (liftM x : Except (Stop ε) α) = .error (.fault fault) ↔ x = .error fault := by
  cases x <;> simp [liftM, monadLift, MonadLift.monadLift, Except.mapError]

@[simp] theorem liftM_error_eq_fault_iff {x : Except ε α} {fault : Fault} :
    (liftM x : Except (Stop ε) α) = .error (.fault fault) ↔ False := by
  cases x <;> simp [liftM, monadLift, MonadLift.monadLift, Except.mapError]

/-- With a state, the second computation goes on from where the first one ends. -/
theorem run_bind_eq_ok_iff {x : EStateM ε σ α} {f : α → EStateM ε σ β} {b : β} :
    (x >>= f) s = .ok b t ↔ ∃ a s', x s = .ok a s' ∧ f a s' = .ok b t := by
  simp only [bind, EStateM.bind]
  cases x s with
  | error e s' => simp
  | ok a s' =>
    constructor
    · intro h
      exact ⟨a, s', rfl, h⟩
    · rintro ⟨_, _, heq, h⟩
      cases heq
      exact h

theorem run_bind_eq_error_iff {x : EStateM ε σ α} {f : α → EStateM ε σ β} {e : ε} :
    (x >>= f) s = .error e t ↔ x s = .error e t ∨ ∃ a s', x s = .ok a s' ∧ f a s' = .error e t := by
  simp only [bind, EStateM.bind]
  cases x s with
  | error e' s' => simp
  | ok a s' =>
    simp only [reduceCtorEq, false_or]
    constructor
    · intro h
      exact ⟨a, s', rfl, h⟩
    · rintro ⟨_, _, heq, h⟩
      cases heq
      exact h

/-- What comes after a computation that has ended goes on from its state. -/
theorem run_bind_of_eq_ok {x : EStateM ε σ α} {f : α → EStateM ε σ β} (h : x s = .ok a t) : (x >>= f) s = f a t := by
  simp only [bind, EStateM.bind, h]

/-- Nothing comes after one that has been stopped. -/
theorem run_bind_of_eq_error {x : EStateM ε σ α} {f : α → EStateM ε σ β} {e : ε} (h : x s = .error e t) :
    (x >>= f) s = .error e t := by
  simp only [bind, EStateM.bind, h]

theorem run_get_bind (f : σ → EStateM ε σ β) (s : σ) : (get >>= f) s = f s s := rfl

theorem run_modify_bind (g : σ → σ) (f : PUnit → EStateM ε σ β) (s : σ) : (modify g >>= f) s = f ⟨⟩ (g s) := rfl

theorem run_modifyGet_bind (g : σ → α × σ) (f : α → EStateM ε σ β) (s : σ) :
    (modifyGet g >>= f) s = f (g s).1 (g s).2 := rfl

theorem run_check_eq_ok_iff {c : Prop} [Decidable c] {e : ε} {x : EStateM ε σ α} :
    (if c then (throw e >>= fun _ : PUnit => x) else x) s = .ok a t ↔ ¬ c ∧ x s = .ok a t := by
  split
  next h => simp [h, throw, throwThe, MonadExceptOf.throw, EStateM.throw, bind, EStateM.bind]
  next h => simp [h]

theorem run_pure_eq_ok_iff {b : α} : (pure b : EStateM ε σ α) s = .ok a t ↔ a = b ∧ t = s := by
  simp [pure, EStateM.pure, eq_comm]

theorem run_get_eq_ok_iff {u : σ} : (get : EStateM ε σ σ) s = .ok u t ↔ u = s ∧ t = s := by
  simp [get, getThe, MonadStateOf.get, EStateM.get, eq_comm]

theorem run_set_eq_ok_iff {u : σ} {a : PUnit} : (set u : EStateM ε σ PUnit) s = .ok a t ↔ t = u := by
  simp [set, EStateM.set, eq_comm]

theorem run_modify_eq_ok_iff {f : σ → σ} {a : PUnit} : (modify f : EStateM ε σ PUnit) s = .ok a t ↔ t = f s := by
  simp [modify, modifyGet, MonadStateOf.modifyGet, EStateM.modifyGet, eq_comm]

theorem run_modify_eq_error_iff {f : σ → σ} {e : ε} : (modify f : EStateM ε σ PUnit) s = .error e t ↔ False := by
  simp [modify, modifyGet, MonadStateOf.modifyGet, EStateM.modifyGet]

theorem run_liftM_ok (a : α) (s : σ) : (liftM (Except.ok a : Except ε α) : EStateM ε σ α) s = .ok a s := rfl

@[simp] theorem run_liftM_eq_ok_iff {x : Except ε α} :
    (liftM x : EStateM ε σ α) s = .ok a t ↔ x = .ok a ∧ t = s := by
  cases x <;> simp [liftM, monadLift, MonadLift.monadLift, pure, EStateM.pure, throw, throwThe,
    MonadExceptOf.throw, EStateM.throw, eq_comm]

@[simp] private theorem run_liftM_eq_error_iff {x : Except ε α} {e : ε} :
    (liftM x : EStateM ε σ α) s = .error e t ↔ x = .error e ∧ t = s := by
  cases x <;> simp [liftM, monadLift, MonadLift.monadLift, pure, EStateM.pure, throw, throwThe,
    MonadExceptOf.throw, EStateM.throw, eq_comm]

@[simp] theorem run_liftM_fault_eq_ok_iff {x : Except Fault α} :
    (liftM x : EStateM (Stop ε) σ α) s = .ok a t ↔ x = .ok a ∧ t = s := by
  change (liftM (liftM x : Except (Stop ε) α) : EStateM (Stop ε) σ α) s = _ ↔ _
  simp

@[simp] private theorem run_liftM_error_eq_ok_iff {x : Except ε α} :
    (liftM x : EStateM (Stop ε) σ α) s = .ok a t ↔ x = .ok a ∧ t = s := by
  change (liftM (liftM x : Except (Stop ε) α) : EStateM (Stop ε) σ α) s = _ ↔ _
  simp

/-- Without a state or with one, a sequence of two computations is the same. -/
theorem liftM_bind_bind {γ : Type} {x : Except (Stop ε) α} {f : α → Except (Stop ε) β}
    {g : β → EStateM (Stop ε) σ γ} :
    ((liftM (x >>= f) : EStateM (Stop ε) σ β) >>= g) = liftM x >>= fun a => liftM (f a) >>= g := by
  cases x <;> rfl

end Lift

section Part

variable {ε ε' σ τ α : Type} {part : σ → τ} {withPart : σ → τ → σ} {error : ε → ε'} {work : EStateM ε τ α} {s s' : σ}

theorem mapState_eq_ok_iff {f : σ → τ} {r : EStateM.Result ε σ α} {a : α} {t : τ} :
    mapState f r = .ok a t ↔ ∃ s, r = .ok a s ∧ t = f s := by
  cases r <;> simp [mapState, eq_comm]

theorem verdict_eq_ok_iff {r : EStateM.Result ε σ α} {a : α} : verdict r = .ok a ↔ ∃ s, r = .ok a s := by
  cases r <;> simp [verdict]

theorem verdict_eq_error_iff {r : EStateM.Result ε σ α} {e : ε} : verdict r = .error e ↔ ∃ s, r = .error e s := by
  cases r <;> simp [verdict]

theorem outcome_eq_ok_iff {work : EStateM ε σ Unit} : outcome work s = .ok s' ↔ work s = .ok () s' := by
  rw [outcome]
  cases work s <;> simp

end Part

/-- The state that a computation leaves, however it ends. -/
def endState {ε σ α : Type} : EStateM.Result ε σ α → σ
  | .ok _ s => s
  | .error _ s => s

/-- What state is left is seen through the map. -/
theorem endState_mapState {ε σ τ α : Type} (f : σ → τ) (r : EStateM.Result ε σ α) :
    endState (mapState f r) = f (endState r) := by
  cases r <;> rfl

/-- Work on a part of a state leaves the rest of the state, however it ends. -/
theorem endState_onPart {ε ε' σ τ α : Type} (part : σ → τ) (withPart : σ → τ → σ) (error : ε → ε')
    (work : EStateM ε τ α) (s : σ) :
    endState (onPart part withPart error work s) = withPart s (endState (work (part s))) := by
  rw [onPart]
  cases work (part s) <;> rfl

/-- What is made of the result of a computation does not change the state. -/
theorem run_bind_pure {ε σ α β : Type} (work : EStateM ε σ α) (f : α → β) (s : σ) :
    (work >>= fun a => pure (f a)) s = match work s with
      | .ok a t => .ok (f a) t
      | .error e t => .error e t := by
  simp only [bind, EStateM.bind]
  cases work s <;> rfl

theorem endState_bind_pure {ε σ α β : Type} (work : EStateM ε σ α) (f : α → β) (s : σ) :
    endState ((work >>= fun a => pure (f a)) s) = endState (work s) := by
  rw [run_bind_pure]
  cases work s <;> rfl

/-- Whether a computation with a state came to its end. -/
def succeeds {ε σ α : Type} : EStateM.Result ε σ α → Bool
  | .ok _ _ => true
  | .error _ _ => false

/-- A computation that succeeds has a result and leaves a state. -/
theorem exists_of_succeeds {ε σ α : Type} {r : EStateM.Result ε σ α} (h : succeeds r = true) :
    ∃ a t, r = .ok a t := by
  cases r with
  | ok a t => exact ⟨a, t, rfl⟩
  | error e t => cases h

end StackUnwind
