/-
  Outcomes of computations that log events.  The outcome of a sequence is decided by the outcomes of
  its steps: `result_bind` and its companions push `Action.result` inwards, and `result_bind_ok`
  takes a successful sequence apart.
-/
import Schemata.Log.Event

namespace Schemata

theorem toOption_eq_some {ε α : Type} {r : Except ε α} {x : α} :
    r.toOption = some x ↔ r = .ok x := by
  cases r <;> simp [Except.toOption]

theorem toOption_eq_none {ε α : Type} {r : Except ε α} : r.toOption = none ↔ ∃ e, r = .error e := by
  cases r <;> simp [Except.toOption]

theorem exists_ok_of_any {ε α : Type} {r : Except ε α} {p : α → Bool}
    (h : r.toOption.any p = true) : ∃ x, r = .ok x ∧ p x = true := by
  obtain ⟨x, hx, hp⟩ := (Option.any_eq_true p r.toOption).1 h
  exact ⟨x, toOption_eq_some.1 hx, hp⟩

namespace Log.Action

variable {ε ε' α β : Type}

@[simp] theorem result_pure (a : α) : (pure a : Action ε α).result = .ok a := rfl

@[simp] theorem result_throw (e : ε) : (throw e : Action ε α).result = .error e := rfl

@[simp] theorem result_lift (x : Logged α) : result (ExceptT.lift x : Action ε α) = .ok x.value := rfl

@[simp] theorem result_liftM (x : Logged α) : (liftM x : Action ε α).result = .ok x.value := rfl

@[simp] theorem result_monadLift (x : Logged α) :
    (monadLift x : Action ε α).result = .ok x.value := rfl

@[simp] theorem result_bind (x : Action ε α) (f : α → Action ε β) :
    (x >>= f).result = x.result.bind fun a => (f a).result := by
  simp only [result, ExceptT.run_bind, Logged.value_bind]
  cases x.run.value <;> rfl

@[simp] theorem result_map (f : α → β) (x : Action ε α) :
    (f <$> x).result = x.result.map f := by
  simp only [result, ExceptT.run_map, Logged.value_map]

@[simp] theorem result_adapt (f : ε → ε') (x : Action ε α) :
    result (ExceptT.adapt f x) = x.result.mapError f := rfl

theorem bind_ok {x : Except ε α} {f : α → Except ε β} {b : β} (h : x.bind f = .ok b) :
    ∃ a, x = .ok a ∧ f a = .ok b := by
  cases x with
  | error e => cases h
  | ok a => exact ⟨a, rfl, h⟩

/-- The steps of a successful sequence succeed. -/
theorem result_bind_ok {x : Action ε α} {f : α → Action ε β} {b : β}
    (h : (x >>= f).result = .ok b) : ∃ a, x.result = .ok a ∧ (f a).result = .ok b := by
  rw [result_bind] at h
  exact bind_ok h

theorem map_ok {x : Except ε α} {f : α → β} {b : β} (h : x.map f = .ok b) :
    ∃ a, x = .ok a ∧ f a = b := by
  cases x with
  | error e => cases h
  | ok a => exact ⟨a, rfl, Except.ok.inj h⟩

theorem result_map_ok {x : Action ε α} {f : α → β} {b : β} (h : (f <$> x).result = .ok b) :
    ∃ a, x.result = .ok a ∧ f a = b := by
  rw [result_map] at h
  exact map_ok h

end Log.Action

end Schemata
