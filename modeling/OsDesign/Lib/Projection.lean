import OsDesign.Lib.Runs

/-!
One party of a system among others. If no step of another party changes what the party
works with, and its own steps depend on nothing else, then it makes in a run what it would
make alone.
-/
namespace Projection

open Runs

variable {σ ε ι : Type*} [DecidableEq ι]

/-- The system as the party `i` sees it: states that it cannot tell apart, under an
invariant of the steps. -/
structure Separate (allowed : σ → ε → Prop) (next : σ → ε → σ) (caller : ε → ι)
    (Inv : σ → Prop) (i : ι) (Same : σ → σ → Prop) : Prop where
  kept : ∀ s e, Inv s → allowed s e → Inv (next s e)
  foreign : ∀ s s₁ e, Inv s → allowed s e → caller e ≠ i → Same s s₁ → Same (next s e) s₁
  own : ∀ s s₁ e, Inv s → Inv s₁ → allowed s e → caller e = i → Same s s₁ →
    allowed s₁ e ∧ Same (next s e) (next s₁ e)

variable {allowed : σ → ε → Prop} {next : σ → ε → σ} {caller : ε → ι} {Inv : σ → Prop} {i : ι}
  {Same : σ → σ → Prop} {s s' s₁ : σ} {es : List ε}

/-- The run rule: the party's own steps are a run, and lead where it sees the same. -/
theorem Separate.alone (separate : Separate allowed next caller Inv i Same) (inv : Inv s)
    (inv₁ : Inv s₁) (same : Same s s₁) (run : Steps allowed (fun s e s' => s' = next s e) s es s') :
    ∃ s₁', Steps allowed (fun s e s' => s' = next s e) s₁ (es.filter fun e => caller e = i) s₁' ∧
      Same s' s₁' := by
  induction run generalizing s₁ with
  | nil s => exact ⟨s₁, .nil s₁, same⟩
  | @cons s s' s'' e es permitted taken _ ih =>
      subst taken
      have inv' := separate.kept s e inv permitted
      by_cases mine : caller e = i
      · obtain ⟨permitted₁, same'⟩ := separate.own s s₁ e inv inv₁ permitted mine same
        obtain ⟨s₁', run₁, same''⟩ := ih inv' (separate.kept s₁ e inv₁ permitted₁) same'
        refine ⟨s₁', ?_, same''⟩
        rw [List.filter_cons_of_pos (by simpa using mine)]
        exact .cons permitted₁ rfl run₁
      · obtain ⟨s₁', run₁, same''⟩ := ih inv' inv₁
          (separate.foreign s s₁ e inv permitted mine same)
        refine ⟨s₁', ?_, same''⟩
        rw [List.filter_cons_of_neg (by simpa using mine)]
        exact run₁

end Projection
