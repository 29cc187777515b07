import Mathlib.Algebra.BigOperators.Group.Finset.Basic
import Mathlib.Algebra.Order.BigOperators.Group.Finset
import Mathlib.Data.Nat.ModEq

/-!
Loops that share out a range: the loop that begins at `n` and goes in strides of `N`. From
`0, 1, .., N - 1` they visit every index below the bound once.
-/
namespace Strides

/-- The indices that the loop visits from `i` on. -/
def visits (N size i : Nat) : Finset Nat :=
  (Finset.range size).filter fun j => i ≤ j ∧ j % N = i % N

variable {N size i n : Nat}

theorem mod_of_mem {j : Nat} (mem : j ∈ visits N size i) : j % N = i % N :=
  (Finset.mem_filter.mp mem).2.2

theorem le_of_mem {j : Nat} (mem : j ∈ visits N size i) : i ≤ j :=
  (Finset.mem_filter.mp mem).2.1

theorem visits_eq_empty (done : ¬ i < size) : visits N size i = ∅ := by
  refine Finset.filter_eq_empty_iff.mpr fun j mem visited => ?_
  exact done (lt_of_le_of_lt visited.1 (Finset.mem_range.mp mem))

/-- The index at hand, and the rest of the loop. -/
theorem visits_eq_insert (positive : 0 < N) (more : i < size) :
    visits N size i = insert i (visits N size (i + N)) := by
  ext j
  simp only [visits, Finset.mem_filter, Finset.mem_range, Finset.mem_insert, Nat.add_mod_right]
  constructor
  · rintro ⟨below, le, mod⟩
    rcases Nat.eq_or_lt_of_le le with same | later
    · exact .inl same.symm
    · refine .inr ⟨below, ?_, mod⟩
      -- equal remainders are at least `N` apart
      by_contra close
      have gap : j - i < N := by omega
      have multiple : N ∣ j - i := (Nat.modEq_iff_dvd' le).mp mod.symm
      have zero := Nat.eq_zero_of_dvd_of_lt multiple gap
      omega
  · rintro (rfl | ⟨below, le, mod⟩)
    · exact ⟨more, Nat.le_refl j, rfl⟩
    · exact ⟨below, by omega, mod⟩

theorem notMem_visits_add (positive : 0 < N) : i ∉ visits N size (i + N) := by
  intro mem
  have le := le_of_mem mem
  omega

theorem card_visits (positive : 0 < N) (more : i < size) :
    (visits N size i).card = (visits N size (i + N)).card + 1 := by
  rw [visits_eq_insert positive more, Finset.card_insert_of_notMem (notMem_visits_add positive)]

theorem sum_visits {M : Type*} [AddCommMonoid M] (f : Nat → M) (positive : 0 < N)
    (more : i < size) :
    ∑ j ∈ visits N size i, f j = f i + ∑ j ∈ visits N size (i + N), f j := by
  rw [visits_eq_insert positive more, Finset.sum_insert (notMem_visits_add positive)]

/-- The loops of all threads visit each index once. -/
theorem sum_all {M : Type*} [AddCommMonoid M] (f : Nat → M) (positive : 0 < N) :
    ∑ n ∈ Finset.range N, ∑ j ∈ visits N size n, f j = ∑ j ∈ Finset.range size, f j := by
  have maps : ∀ j ∈ Finset.range size, j % N ∈ Finset.range N :=
    fun j _ => Finset.mem_range.mpr (Nat.mod_lt j positive)
  rw [← Finset.sum_fiberwise_of_maps_to maps f]
  refine Finset.sum_congr rfl fun n mem => Finset.sum_congr ?_ fun _ _ => rfl
  have below : n % N = n := Nat.mod_eq_of_lt (Finset.mem_range.mp mem)
  refine Finset.filter_congr fun j _ => ?_
  rw [below]
  refine and_iff_right_of_imp ?_
  rintro rfl
  exact Nat.mod_le j N

theorem card_all (positive : 0 < N) :
    ∑ n ∈ Finset.range N, (visits N size n).card = size := by
  simp only [Finset.card_eq_sum_ones]
  rw [sum_all _ positive, ← Finset.card_eq_sum_ones, Finset.card_range]

end Strides
