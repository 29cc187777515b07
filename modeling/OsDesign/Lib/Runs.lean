import Mathlib.Logic.Basic

/-!
Runs of a labelled transition system. A run takes only steps that a permission
allows in the state before them, so that a usage discipline or a condition on
the schedule is a parameter and not a part of the system.
-/
namespace Runs

variable {σ ε : Type*}

/-- The states passed through when the labels are taken one after another. -/
inductive Steps (allowed : σ → ε → Prop) (step : σ → ε → σ → Prop) :
    σ → List ε → σ → Prop
  | nil (s : σ) : Steps allowed step s [] s
  | cons {s s' s'' : σ} {e : ε} {es : List ε} (permitted : allowed s e)
      (taken : step s e s') (rest : Steps allowed step s' es s'') :
      Steps allowed step s (e :: es) s''

variable {allowed allowed' : σ → ε → Prop} {step : σ → ε → σ → Prop} {s s' s'' : σ}
  {es es' : List ε}

/-- The run rule: what every permitted step preserves, every run preserves. -/
theorem Steps.preserves (P : σ → Prop)
    (one : ∀ s e s', allowed s e → step s e s' → P s → P s')
    (run : Steps allowed step s es s') (start : P s) : P s' := by
  induction run with
  | nil s => exact start
  | cons permitted taken _ ih => exact ih (one _ _ _ permitted taken start)

theorem Steps.append (first : Steps allowed step s es s')
    (second : Steps allowed step s' es' s'') : Steps allowed step s (es ++ es') s'' := by
  induction first with
  | nil s => exact second
  | cons permitted taken _ ih => exact .cons permitted taken (ih second)

theorem Steps.single {e : ε} (permitted : allowed s e) (taken : step s e s') :
    Steps allowed step s [e] s' :=
  .cons permitted taken (.nil s')

/-- A run whose steps are steps of a second system is a run of that system. -/
theorem Steps.mapStep {step' : σ → ε → σ → Prop}
    (h : ∀ s e s', allowed s e → step s e s' → allowed' s e ∧ step' s e s')
    (run : Steps allowed step s es s') : Steps allowed' step' s es s' := by
  induction run with
  | nil s => exact .nil s
  | cons permitted taken _ ih =>
      exact .cons (h _ _ _ permitted taken).1 (h _ _ _ permitted taken).2 ih

/-- A run under a stricter permission is a run under a laxer one. -/
theorem Steps.mono (h : ∀ s e, allowed s e → allowed' s e)
    (run : Steps allowed step s es s') : Steps allowed' step s es s' :=
  run.mapStep fun s e _ permitted taken => ⟨h s e permitted, taken⟩

/-- A permission may be exchanged label by label. -/
theorem Steps.mono_of_mem (h : ∀ e, e ∈ es → ∀ s, allowed s e → allowed' s e)
    (run : Steps allowed step s es s') : Steps allowed' step s es s' := by
  induction run with
  | nil s => exact .nil s
  | cons permitted taken _ ih =>
      exact .cons (h _ List.mem_cons_self _ permitted) taken
        (ih fun e he => h e (List.mem_cons_of_mem _ he))

/-- The states at the end of a run from an initial state. -/
def Reachable (init : σ → Prop) (allowed : σ → ε → Prop) (step : σ → ε → σ → Prop)
    (s : σ) : Prop :=
  ∃ s₀ es, init s₀ ∧ Steps allowed step s₀ es s

variable {init : σ → Prop}

theorem Reachable.start (h : init s) : Reachable init allowed step s :=
  ⟨s, [], h, .nil s⟩

theorem Reachable.extend (h : Reachable init allowed step s)
    (run : Steps allowed step s es s') : Reachable init allowed step s' := by
  obtain ⟨s₀, es₀, hinit, run₀⟩ := h
  exact ⟨s₀, es₀ ++ es, hinit, run₀.append run⟩

theorem Reachable.mono (h : ∀ s e, allowed s e → allowed' s e)
    (reach : Reachable init allowed step s) : Reachable init allowed' step s := by
  obtain ⟨s₀, es₀, hinit, run⟩ := reach
  exact ⟨s₀, es₀, hinit, run.mono h⟩

/-- An invariant holds initially and is preserved by every permitted step. -/
theorem Reachable.invariant (P : σ → Prop) (base : ∀ s, init s → P s)
    (one : ∀ s e s', allowed s e → step s e s' → P s → P s')
    (reach : Reachable init allowed step s) : P s := by
  obtain ⟨s₀, _, hinit, run⟩ := reach
  exact run.preserves P one (base s₀ hinit)

/-- Execute the labels with a step function, checking the permission before
each of them. -/
def run (permits : σ → ε → Bool) (next : σ → ε → Option σ) : σ → List ε → Option σ
  | s, [] => some s
  | s, e :: es => if permits s e then (next s e).bind fun s' => run permits next s' es else none

theorem steps_of_run (permits : σ → ε → Bool) (next : σ → ε → Option σ)
    (h : run permits next s es = some s') :
    Steps (fun s e => permits s e = true) (fun s e s' => next s e = some s') s es s' := by
  induction es generalizing s with
  | nil =>
      rw [run, Option.some.injEq] at h
      exact h ▸ .nil _
  | cons e es ih =>
      by_cases hp : permits s e = true
      · simp only [run, hp, if_true] at h
        cases hn : next s e with
        | none => simp [hn] at h
        | some t => exact .cons hp hn (ih (by simpa [hn] using h))
      · simp [run, hp] at h

/-- A run found by evaluation. -/
theorem exists_steps_of_run (allowed : σ → ε → Prop) [∀ s, DecidablePred (allowed s)]
    (next : σ → ε → Option σ) (s : σ) (P : σ → Prop) [DecidablePred P] (es : List ε)
    (h : (run (fun s e => decide (allowed s e)) next s es).any (fun s => decide (P s)) = true) :
    ∃ s', Steps allowed (fun s e s' => next s e = some s') s es s' ∧ P s' := by
  obtain ⟨s', hs, hP⟩ := (Option.any_eq_true _ _).mp h
  have taken := steps_of_run _ _ hs
  exact ⟨s', taken.mono fun _ _ permitted => of_decide_eq_true permitted, of_decide_eq_true hP⟩

/-- A state that executing some labels leads to, found by evaluation. -/
theorem exists_reachable_of_run (allowed : σ → ε → Prop) [∀ s, DecidablePred (allowed s)]
    (next : σ → ε → Option σ) (start : init s) (P : σ → Prop) [DecidablePred P] (es : List ε)
    (h : (run (fun s e => decide (allowed s e)) next s es).any (fun s => decide (P s)) = true) :
    ∃ s', Reachable init allowed (fun s e s' => next s e = some s') s' ∧ P s' := by
  obtain ⟨s', taken, hP⟩ := exists_steps_of_run allowed next s P es h
  exact ⟨s', ⟨s, es, start, taken⟩, hP⟩

end Runs
