import OsDesign.Lib.Runs
import Mathlib.Data.List.Pairwise

/-!
A queue inside a transition system, with a clock and the time at which each
element joined last. While a step only takes elements out, wherever they stand,
or puts one new element at the end, the queue is sorted by these times.
-/
namespace Arrivals

variable {σ ε α : Type*}

/-- A state, the number of steps made, and when each element joined the queue. -/
structure Stamped (σ α : Type*) where
  state : σ
  clock : Nat
  arrived : α → Nat

/-- The steps of a system, each stamping the elements that join the queue. -/
def Stamped.Step [DecidableEq α] (step : σ → ε → σ → Prop) (queue : σ → List α)
    (l : Stamped σ α) (e : ε) (l' : Stamped σ α) : Prop :=
  step l.state e l'.state ∧ l'.clock = l.clock + 1 ∧
    l'.arrived = fun a =>
      if a ∈ queue l'.state ∧ a ∉ queue l.state then l.clock else l.arrived a

/-- Elements leave, or one joins at the end. -/
inductive Moves (before : List α) : List α → Prop
  | left {after : List α} (kept : after.Sublist before) : Moves before after
  | joined (a : α) (fresh : a ∉ before) : Moves before (before ++ [a])

/-- The queue stands in the order of arrival. -/
structure Stamped.InOrder (queue : σ → List α) (l : Stamped σ α) : Prop where
  sorted : (queue l.state).Pairwise fun a b => l.arrived a < l.arrived b
  past : ∀ a, a ∈ queue l.state → l.arrived a < l.clock

namespace Stamped

variable {step : σ → ε → σ → Prop} {queue : σ → List α} {allowed : σ → ε → Prop}
  {l l' : Stamped σ α} {e : ε} {es : List ε} {s s' : σ} {a b : α}

theorem InOrder.of_empty (empty : queue l.state = []) : l.InOrder queue := by
  refine ⟨?_, ?_⟩
  · rw [empty]
    exact .nil
  · intro a ha
    rw [empty] at ha
    cases ha

/-- The first element with a property came before every other one with it. -/
theorem InOrder.find?_first (order : l.InOrder queue) {p : α → Bool}
    (found : (queue l.state).find? p = some a) (hb : b ∈ queue l.state) (hp : p b = true)
    (hne : b ≠ a) : l.arrived a < l.arrived b := by
  obtain ⟨-, as, bs, hsplit, hbefore⟩ := List.find?_eq_some_iff_append.mp found
  have hsorted := order.sorted
  rw [hsplit, List.pairwise_append, List.pairwise_cons] at hsorted
  rw [hsplit, List.mem_append, List.mem_cons] at hb
  rcases hb with hb | hb | hb
  · have hnot := hbefore b hb
    simp [hp] at hnot
  · exact absurd hb hne
  · exact hsorted.2.1.1 b hb

variable [DecidableEq α]

/-- What stood in the queue keeps its stamp. -/
theorem Step.arrived_of_mem (taken : l.Step step queue e l') (ha : a ∈ queue l.state) :
    l'.arrived a = l.arrived a := by
  rw [taken.2.2]
  exact if_neg fun h => h.2 ha

theorem Step.arrived_of_joined (taken : l.Step step queue e l') (before : a ∉ queue l.state)
    (after : a ∈ queue l'.state) : l'.arrived a = l.clock := by
  rw [taken.2.2]
  exact if_pos ⟨after, before⟩

theorem InOrder.preserved (order : l.InOrder queue) (taken : l.Step step queue e l')
    (moves : Moves (queue l.state) (queue l'.state)) : l'.InOrder queue := by
  have hkept : ∀ a, a ∈ queue l.state → l'.arrived a = l.arrived a :=
    fun a ha => taken.arrived_of_mem ha
  have hsorted : (queue l.state).Pairwise fun a b => l'.arrived a < l'.arrived b := by
    refine order.sorted.imp_of_mem ?_
    intro a b ha hb hab
    rw [hkept a ha, hkept b hb]
    exact hab
  have hpast : ∀ a, a ∈ queue l.state → l'.arrived a < l'.clock := by
    intro a ha
    rw [hkept a ha, taken.2.1]
    exact Nat.lt_succ_of_lt (order.past a ha)
  generalize hafter : queue l'.state = after at moves
  cases moves with
  | left kept =>
      refine ⟨hafter ▸ hsorted.sublist kept, ?_⟩
      intro a ha
      exact hpast a (kept.subset (hafter ▸ ha))
  | joined b fresh =>
      have hb : l'.arrived b = l.clock :=
        taken.arrived_of_joined fresh (by rw [hafter]; simp)
      refine ⟨?_, ?_⟩
      · rw [hafter, List.pairwise_append]
        refine ⟨hsorted, List.pairwise_singleton _ _, ?_⟩
        intro a ha c hc
        rw [List.mem_singleton.mp hc, hb, hkept a ha]
        exact order.past a ha
      · intro a ha
        rw [hafter] at ha
        cases List.mem_append.mp ha with
        | inl hold => exact hpast a hold
        | inr hnew =>
            rw [List.mem_singleton.mp hnew, hb, taken.2.1]
            exact Nat.lt_succ_self l.clock

/-- Every run can be stamped. -/
theorem exists_steps (run : Runs.Steps allowed step s es s') (clock : Nat) (arrived : α → Nat) :
    ∃ l' : Stamped σ α, l'.state = s' ∧
      Runs.Steps (fun l e => allowed l.state e) (Stamped.Step step queue)
        ⟨s, clock, arrived⟩ es l' := by
  induction run generalizing clock arrived with
  | nil s => exact ⟨_, rfl, .nil _⟩
  | @cons s s₁ s₂ e es permitted taken _ ih =>
      obtain ⟨l', hstate, run'⟩ := ih (clock + 1) fun a =>
        if a ∈ queue s₁ ∧ a ∉ queue s then clock else arrived a
      exact ⟨l', hstate, .cons permitted ⟨taken, rfl, rfl⟩ run'⟩

end Stamped

end Arrivals
