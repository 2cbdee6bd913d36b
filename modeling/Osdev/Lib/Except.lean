/-!
# Taking successful computations apart
-/

namespace Osdev.Lib

universe u v

variable {ε : Type u} {α β : Type v}
variable {x : Except ε α}

@[simp] theorem ok_bind (a : α) (f : α → Except ε β) : (Except.ok a >>= f) = f a := rfl

theorem bind_eq_ok {f : α → Except ε β} {b : β} :
    x >>= f = .ok b ↔ ∃ a, x = .ok a ∧ f a = .ok b := by
  cases x with
  | error e => simp [bind, Except.bind]
  | ok a => simp [bind, Except.bind]

theorem bind_ok {f : α → Except ε β} {b : β} (h : x >>= f = .ok b) : ∃ a, x = .ok a ∧ f a = .ok b :=
  bind_eq_ok.mp h

section Checks

variable {c : Prop} [Decidable c] {e : ε} {a : α}

/-- A computation that fails under a condition. -/
theorem guard_eq_ok : (if c then .error e else x) = .ok a ↔ ¬ c ∧ x = .ok a := by
  by_cases h : c <;> simp [h]

theorem check_eq_ok : (if c then x else .error e) = .ok a ↔ c ∧ x = .ok a := by
  by_cases h : c <;> simp [h]

end Checks

theorem map_eq_ok {f : α → β} {b : β} :
    f <$> x = .ok b ↔ ∃ a, x = .ok a ∧ f a = b := by
  cases x with
  | error e => simp [Functor.map, Except.map]
  | ok a => simp [Functor.map, Except.map]

theorem mapError_eq_ok {ε' : Type u} {f : ε → ε'} {a : α} :
    x.mapError f = .ok a ↔ x = .ok a := by
  cases x with
  | error e => exact ⟨fun h => (by cases h), fun h => (by cases h)⟩
  | ok b => exact ⟨fun h => congrArg _ (Except.ok.inj h), fun h => congrArg _ (Except.ok.inj h)⟩

theorem exists_of_toBool (h : x.toBool = true) : ∃ a, x = .ok a := by
  cases x with
  | error e => exact absurd h (by simp [Except.toBool])
  | ok a => exact ⟨a, rfl⟩

/-- A computed result is there and passes a test. -/
theorem exists_ok_of_any {p : α → Bool} (h : x.toOption.any p = true) :
    ∃ a, x = .ok a ∧ p a = true := by
  cases x with
  | error e => cases h
  | ok a => exact ⟨a, rfl, h⟩

/-- The error of a computation, if there is one. -/
def errorOf (x : Except ε α) : Option ε :=
  match x with
  | .error e => some e
  | .ok _ => none

theorem eq_error_of_errorOf {e : ε} (h : errorOf x = some e) : x = .error e := by
  cases x with
  | error e' => exact congrArg _ (Option.some.inj h)
  | ok a => cases h

end Osdev.Lib
