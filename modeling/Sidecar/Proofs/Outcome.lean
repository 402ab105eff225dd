import Sidecar.Event

/-!
# Sidecar.Proofs.Outcome

Outcomes of computations in steps. A chain of steps that may fail succeeds when
every step does (`bind_eq_ok_iff`), and the events that a traced computation
leaves behind have no part in its result (`Traced.result_bind`).
-/

namespace Sidecar

/-! ## Steps that may fail -/

@[simp] theorem ok_bind (a : α) (f : α → Except ε β) : (.ok a : Except ε α) >>= f = f a := rfl

@[simp] theorem error_bind (e : ε) (f : α → Except ε β) :
    (.error e : Except ε α) >>= f = .error e := rfl

@[simp] theorem pure_eq_ok (a : α) : (pure a : Except ε α) = .ok a := rfl

@[simp] theorem bind_ok_unit (x : Except ε Unit) : (x >>= fun _ => .ok ()) = x := by
  cases x <;> rfl

/-- A step and what follows it succeed if both do. -/
theorem bind_eq_ok_iff {x : Except ε α} {f : α → Except ε β} {b : β} :
    x >>= f = .ok b ↔ ∃ a, x = .ok a ∧ f a = .ok b := by
  cases x <;> simp

/-- They fail if the first does, or else what follows it. -/
theorem bind_eq_error_iff {x : Except ε α} {f : α → Except ε β} {e : ε} :
    x >>= f = .error e ↔ x = .error e ∨ ∃ a, x = .ok a ∧ f a = .error e := by
  cases x <;> simp

/-- A test and what follows it succeed if the test finds nothing wrong. -/
theorem ite_error_eq_ok_iff {c : Prop} [Decidable c] {e : ε} {x : Except ε α} {a : α} :
    (if c then .error e else x) = .ok a ↔ ¬ c ∧ x = .ok a := by
  split <;> simp [*]

@[simp] theorem mapError_ok (f : ε → ε') (a : α) : (Except.ok a).mapError f = .ok a := rfl

@[simp] theorem mapError_error (f : ε → ε') (e : ε) :
    (Except.error e : Except ε α).mapError f = .error (f e) := rfl

/-- A step succeeds unless it fails. -/
theorem exists_eq_ok_iff {x : Except ε α} : (∃ a, x = .ok a) ↔ ¬ ∃ e, x = .error e := by
  cases x <;> simp

/-- Putting errors in other words changes no success. -/
theorem mapError_eq_ok_iff {x : Except ε α} {f : ε → ε'} {a : α} :
    x.mapError f = .ok a ↔ x = .ok a := by
  cases x <;> simp

/-- A mapped step succeeds with the image of what the step gives. -/
theorem map_eq_ok_iff {x : Except ε α} {f : α → β} {b : β} :
    x.map f = .ok b ↔ ∃ a, x = .ok a ∧ f a = b := by
  cases x <;> simp [Except.map]

/-- It fails as the step does. -/
theorem map_eq_error_iff {x : Except ε α} {f : α → β} {e : ε} :
    x.map f = .error e ↔ x = .error e := by
  cases x <;> simp [Except.map]

/-! ## Traced steps -/

namespace Traced

@[simp] theorem result_pure (a : α) : (pure a : Traced ε α).result = .ok a := rfl

@[simp] theorem result_log (event : Event) : (log (ε := ε) event).result = .ok () := rfl

@[simp] theorem result_liftM (x : Except ε α) : (liftM x : Traced ε α).result = x := rfl

/-- The events of a step have no part in what its result is followed by. -/
@[simp] theorem result_bind (x : Traced ε α) (f : α → Traced ε β) :
    (x >>= f).result = x.result >>= fun a => (f a).result := by
  obtain ⟨events, result⟩ := x
  cases result <;> rfl

/-- An event stands before those of what follows it. -/
@[simp] theorem log_bind (event : Event) (f : Unit → Traced ε α) :
    log event >>= f = ⟨event :: (f ()).events, (f ()).result⟩ := rfl

@[simp] theorem liftM_ok_bind (a : α) (f : α → Traced ε β) :
    (liftM (.ok a : Except ε α) : Traced ε α) >>= f = f a := rfl

end Traced

end Sidecar
