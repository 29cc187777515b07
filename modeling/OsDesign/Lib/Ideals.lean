import OsDesign.Lib.Outcome
import OsDesign.Lib.Runs

/-!
A system next to an ideal one that promises what its calls answer. The ideal system has no
outcome for a call that it promises nothing about; the other one may also fail in ways that
the ideal one does not know.
-/
namespace Ideals

variable {σ τ ε φ α : Type*}

/-- Both fail alike, or answer alike in related states, or the call is lost. -/
inductive Meets (R : σ → τ → Prop) (lost : φ → Prop) :
    Except φ (σ × α) → Except φ (τ × α) → Prop
  | error (f : φ) : Meets R lost (.error f) (.error f)
  | ok {s : σ} {t : τ} (a : α) (related : R s t) : Meets R lost (.ok (s, a)) (.ok (t, a))
  | lost {f : φ} (fails : lost f) (y : Except φ (τ × α)) : Meets R lost (.error f) y

variable {R R' : σ → τ → Prop} {lost lost' : φ → Prop} {x : Except φ (σ × α)}
  {y : Except φ (τ × α)}

theorem Meets.imp (meets : Meets R lost x y) (related : ∀ s t, R s t → R' s t)
    (fails : ∀ f, lost f → lost' f) : Meets R' lost' x y := by
  cases meets with
  | error f => exact .error f
  | ok a h => exact .ok a (related _ _ h)
  | lost h y => exact .lost (fails _ h) y

/-- A call that comes back has the answer of the ideal one. -/
theorem Meets.of_ok (meets : Meets R lost x y) {s : σ} {a : α} (returned : x = .ok (s, a)) :
    ∃ t, y = .ok (t, a) ∧ R s t := by
  subst returned
  cases meets with
  | ok _ h => exact ⟨_, rfl, h⟩

/-- Where the ideal call comes back, so does the call, unless it is lost. -/
theorem Meets.ensures {r : τ × α} (meets : Meets R lost x (.ok r)) :
    Outcome.Ensures lost (fun r' => ∃ t, r = (t, r'.2)) x := by
  generalize promised : (Except.ok r : Except φ (τ × α)) = y at meets
  cases meets with
  | error f => cases promised
  | ok a related =>
      cases promised
      exact .ok ⟨_, rfl⟩
  | lost fails => exact .error fails

/-- A call that is not lost does what the ideal one does. -/
theorem Meets.of_kept (meets : Meets R lost x y) (kept : ∀ f, x = .error f → ¬ lost f) :
    Meets R (fun _ => False) x y := by
  cases meets with
  | error f => exact .error f
  | ok a h => exact .ok a h
  | lost h => exact absurd h (kept _ rfl)

variable {call : σ → ε → Except φ (σ × α)} {ideal : τ → ε → Option (Except φ (τ × α))}
  {allowed : σ × τ → ε → Prop} {init : σ × τ → Prop}

/-- Both systems make the call, if both come back. -/
def next (call : σ → ε → Except φ (σ × α)) (ideal : τ → ε → Option (Except φ (τ × α)))
    (p : σ × τ) (e : ε) : Option (σ × τ) :=
  match call p.1 e, ideal p.2 e with
  | .ok (s, _), some (.ok (t, _)) => some (s, t)
  | _, _ => none

def Step (call : σ → ε → Except φ (σ × α)) (ideal : τ → ε → Option (Except φ (τ × α)))
    (p : σ × τ) (e : ε) (p' : σ × τ) : Prop :=
  next call ideal p e = some p'

theorem step_iff {p p' : σ × τ} {e : ε} : Step call ideal p e p' ↔
    ∃ a b, call p.1 e = .ok (p'.1, a) ∧ ideal p.2 e = some (.ok (p'.2, b)) := by
  rw [Step, next]
  cases hcall : call p.1 e with
  | error f => simp
  | ok r =>
      cases hideal : ideal p.2 e with
      | none => simp
      | some y =>
          cases y with
          | error f => simp
          | ok r' => simp [Prod.ext_iff]

/-- The rule of the ideal system: what each call keeps, the runs side by side keep. -/
theorem related_of_steps {lost : σ → φ → Prop}
    (one : ∀ s t e y, R s t → allowed (s, t) e → ideal t e = some y →
      Meets R (lost s) (call s e) y)
    {p p' : σ × τ} {es : List ε} (run : Runs.Steps allowed (Step call ideal) p es p')
    (start : R p.1 p.2) : R p'.1 p'.2 := by
  refine run.preserves (fun p => R p.1 p.2) ?_ start
  rintro ⟨s, t⟩ e ⟨s', t'⟩ permitted taken related
  obtain ⟨a, b, called, promised⟩ := step_iff.mp taken
  obtain ⟨t'', same, related'⟩ := (one s t e _ related permitted promised).of_ok called
  cases same
  exact related'

end Ideals
