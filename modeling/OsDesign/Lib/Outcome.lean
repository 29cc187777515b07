import Mathlib.Logic.Basic

/-!
Calls that return or fail, as `Except` values. `Ensures good P` says that a failure is
one of the good ones and that a result has the property.
-/
namespace Outcome

variable {ε α β : Type*} {good : ε → Prop} {P P' : α → Prop} {x : Except ε α}

theorem map_eq_ok_iff {f : α → β} {b : β} : x.map f = .ok b ↔ ∃ a, x = .ok a ∧ f a = b := by
  cases x with
  | ok a => simp [Except.map]
  | error e => simp [Except.map]

theorem toOption_eq_some_iff {a : α} : x.toOption = some a ↔ x = .ok a := by
  cases x with
  | ok a => simp [Except.toOption]
  | error e => simp [Except.toOption]

def Ensures (good : ε → Prop) (P : α → Prop) : Except ε α → Prop
  | .ok a => P a
  | .error e => good e

theorem Ensures.ok {a : α} (h : P a) : Ensures good P (.ok a) := h

theorem Ensures.error {e : ε} (h : good e) : Ensures good P (.error e : Except ε α) := h

theorem Ensures.of_ok (h : Ensures good P x) {a : α} (returned : x = .ok a) : P a := by
  subst returned
  exact h

theorem Ensures.of_error (h : Ensures good P x) {e : ε} (failed : x = .error e) : good e := by
  subst failed
  exact h

theorem Ensures.mono (h : Ensures good P x) (weaker : ∀ a, P a → P' a) : Ensures good P' x := by
  cases x with
  | ok a => exact weaker a h
  | error e => exact h

theorem Ensures.weaken {good' : ε → Prop} (h : Ensures good P x) (weaker : ∀ e, good e → good' e) :
    Ensures good' P x := by
  cases x with
  | ok a => exact h
  | error e => exact weaker e h

end Outcome
