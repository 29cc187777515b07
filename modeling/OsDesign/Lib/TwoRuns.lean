import Mathlib.Data.List.Forall2

/-!
Two runs of a system whose calls answer or fail. A run shows, call by call, the answer
with a view of the state behind it, or the failure that ends it. What a relation between
states has alike, and the calls keep, two runs show alike.
-/
namespace TwoRuns

variable {σ ε φ α ω : Type*}

/-- Outcomes that fail alike, or answer alike in related states. -/
inductive Paired (R : σ → σ → Prop) : Except φ (σ × α) → Except φ (σ × α) → Prop
  | error (f : φ) : Paired R (.error f) (.error f)
  | ok {s t : σ} (a : α) (related : R s t) : Paired R (.ok (s, a)) (.ok (t, a))

/-- What a run shows. A call that the state does not allow ends it. -/
def trace (allowed : σ → ε → Prop) [∀ s, DecidablePred (allowed s)]
    (call : σ → ε → Except φ (σ × α)) (view : σ → ω) : σ → List ε → List (Except φ (α × ω))
  | _, [] => []
  | s, e :: es =>
      if allowed s e then
        match call s e with
        | .error f => [.error f]
        | .ok (s', a) => .ok (a, view s') :: trace allowed call view s' es
      else []

variable {allowed : σ → ε → Prop} [∀ s, DecidablePred (allowed s)]
  {call : σ → ε → Except φ (σ × α)} {view : σ → ω} {R : σ → σ → Prop} {Same : ε → ε → Prop}

/-- The rule of two runs: one call of each. -/
theorem trace_eq (views : ∀ s t, R s t → view s = view t)
    (guards : ∀ s t e d, R s t → Same e d → (allowed s e ↔ allowed t d))
    (one : ∀ s t e d, R s t → Same e d → allowed s e → Paired R (call s e) (call t d))
    {s t : σ} {es ds : List ε} (start : R s t) (events : List.Forall₂ Same es ds) :
    trace allowed call view s es = trace allowed call view t ds := by
  induction events generalizing s t with
  | nil => rfl
  | cons same _ ih =>
      rename_i e d es ds _
      rw [trace, trace]
      by_cases permitted : allowed s e
      · have pair := one s t e d start same permitted
        rw [if_pos permitted, if_pos ((guards s t e d start same).mp permitted)]
        generalize call s e = x at pair
        generalize call t d = y at pair
        cases pair with
        | error f => rfl
        | ok a related =>
            simp only [views _ _ related, ih related]
      · rw [if_neg permitted, if_neg fun h => permitted ((guards s t e d start same).mpr h)]

end TwoRuns
