import OsDesign.Lib.Ideals

/-!
Programs that use a system. A program is at a point, makes the call that stands there, and
goes on as the answer says; which of its parts moves depends on what it sees of the system.
What its calls keep over the ideal system, they keep over the one that shows it, and they
come back there.
-/
namespace Clients

open Ideals

variable {κ θ ω σ τ ε φ α : Type*}

/-- At a point, on a turn, and from what is seen of the system: the call that comes next,
and where its answer leads to. -/
abbrev Program (κ θ ω ε α : Type*) := κ → θ → ω → Option (ε × (α → κ))

section Turns

variable (P : Program κ θ ω ε α) (see : σ → ω) (call : σ → ε → Except φ (σ × α))

/-- The next call of the program. -/
def turn (p : κ × σ) (e : θ) : Option (Except φ (κ × σ)) :=
  (P p.1 e (see p.2)).map fun c => (call p.2 c.1).map fun r => (c.2 r.2, r.1)

def next (p : κ × σ) (e : θ) : Option (κ × σ) := (turn P see call p e).bind Except.toOption

def Step (p : κ × σ) (e : θ) (p' : κ × σ) : Prop := next P see call p e = some p'

/-- The call that comes next is allowed. -/
def Permitted (allowed : σ → ε → Prop) (p : κ × σ) (e : θ) : Prop :=
  ∀ c, P p.1 e (see p.2) = some c → allowed p.2 c.1

end Turns

variable {P : Program κ θ ω ε α} {see : σ → ω} {call : σ → ε → Except φ (σ × α)}
  {p p' : κ × σ} {e : θ} {es : List θ}

theorem step_iff : Step P see call p e p' ↔
    ∃ c a, P p.1 e (see p.2) = some c ∧ call p.2 c.1 = .ok (p'.2, a) ∧ c.2 a = p'.1 := by
  rw [Step, next, turn]
  constructor
  · intro taken
    cases comes : P p.1 e (see p.2) with
    | none =>
        rw [comes] at taken
        cases taken
    | some c =>
        rw [comes] at taken
        cases called : call p.2 c.1 with
        | error f =>
            rw [Option.map_some, called] at taken
            cases taken
        | ok r =>
            rw [Option.map_some, called] at taken
            cases taken
            exact ⟨c, r.2, rfl, called, rfl⟩
  · rintro ⟨c, a, comes, called, goes⟩
    rw [comes, Option.map_some, called]
    exact congrArg some (Prod.ext goes rfl)

/-- Between the points of a program and the states of the ideal system: every call is
promised to come back, and the other system does what is promised. -/
structure Promise (P : Program κ θ ω ε α) (see : σ → ω) (call : σ → ε → Except φ (σ × α))
    (allowed : σ → ε → Prop) (ideal : τ → ε → Option (Except φ (τ × α))) (R : σ → τ → Prop)
    (inv : κ → τ → Prop) : Prop where
  promised : ∀ {s k t e c}, R s t → inv k t → P k e (see s) = some c → allowed s c.1 →
    ∃ t' a, ideal t c.1 = some (.ok (t', a)) ∧ inv (c.2 a) t'
  kept : ∀ {s k t c y}, R s t → inv k t → allowed s c → ideal t c = some y →
    Meets R (fun _ => False) (call s c) y

namespace Promise

variable {allowed : σ → ε → Prop} {ideal : τ → ε → Option (Except φ (τ × α))}
  {R : σ → τ → Prop} {inv : κ → τ → Prop} {k : κ} {s : σ} {t : τ}

/-- The call comes back, with the answer that was promised. -/
theorem answered (promise : Promise P see call allowed ideal R inv) (related : R s t)
    (stands : inv k t) {c : ε × (α → κ)} (comes : P k e (see s) = some c)
    (permitted : allowed s c.1) :
    ∃ s' t' a, call s c.1 = .ok (s', a) ∧ R s' t' ∧ inv (c.2 a) t' := by
  obtain ⟨t', a, promised, stands'⟩ := promise.promised related stands comes permitted
  have meets := promise.kept related stands permitted promised
  generalize returned : call s c.1 = x at meets
  cases meets with
  | ok _ related' => exact ⟨_, t', a, rfl, related', stands'⟩
  | lost fails => exact fails.elim

theorem step (promise : Promise P see call allowed ideal R inv)
    (permitted : Permitted P see allowed p e) (taken : Step P see call p e p')
    (stands : ∃ t, R p.2 t ∧ inv p.1 t) : ∃ t, R p'.2 t ∧ inv p'.1 t := by
  obtain ⟨t, related, stands⟩ := stands
  obtain ⟨c, a, comes, called, goes⟩ := step_iff.mp taken
  obtain ⟨s', t', a', called', related', stands'⟩ :=
    promise.answered related stands comes (permitted c comes)
  obtain ⟨rfl, rfl⟩ : p'.2 = s' ∧ a = a' := by
    rw [called] at called'
    cases called'
    exact ⟨rfl, rfl⟩
  exact ⟨t', related', goes ▸ stands'⟩

/-- The run rule for programs. -/
theorem steps (promise : Promise P see call allowed ideal R inv)
    (run : Runs.Steps (Permitted P see allowed) (Step P see call) p es p')
    (stands : ∃ t, R p.2 t ∧ inv p.1 t) : ∃ t, R p'.2 t ∧ inv p'.1 t :=
  run.preserves (fun p => ∃ t, R p.2 t ∧ inv p.1 t) (fun _ _ _ => promise.step) stands

/-- A program whose next call is allowed goes on. -/
theorem goes_on (promise : Promise P see call allowed ideal R inv)
    (stands : ∃ t, R p.2 t ∧ inv p.1 t) (permitted : Permitted P see allowed p e)
    (more : (P p.1 e (see p.2)).isSome = true) : ∃ p', Step P see call p e p' := by
  obtain ⟨t, related, stands⟩ := stands
  obtain ⟨c, comes⟩ := Option.isSome_iff_exists.mp more
  obtain ⟨s', _, a, called, -, -⟩ := promise.answered related stands comes (permitted c comes)
  exact ⟨(c.2 a, s'), step_iff.mpr ⟨c, a, comes, called, rfl⟩⟩

end Promise

end Clients
