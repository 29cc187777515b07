import Mathlib.Data.Finset.Card
import Mathlib.Data.Fintype.Card
import Mathlib.Data.Finset.Range

/-!
How many of the first `n` flags are set, for tables of slots kept together
with a separate counter.
-/
namespace Tally

/-- The number of indices below `n` whose flag is set. -/
def tally (n : Nat) (flag : Nat → Bool) : Nat :=
  ((Finset.range n).filter fun i => flag i = true).card

variable {n i : Nat} {flag : Nat → Bool}

theorem tally_none (n : Nat) : tally n (fun _ => false) = 0 := by simp [tally]

theorem tally_le (n : Nat) (flag : Nat → Bool) : tally n flag ≤ n := by
  have h := Finset.card_filter_le (Finset.range n) fun i => flag i = true
  simpa [tally] using h

theorem tally_mono {flag' : Nat → Bool} (h : ∀ i, i < n → flag i = true → flag' i = true) :
    tally n flag ≤ tally n flag' := by
  apply Finset.card_le_card
  intro i hi
  rw [Finset.mem_filter] at hi ⊢
  exact ⟨hi.1, h i (Finset.mem_range.mp hi.1) hi.2⟩

theorem tally_set (hi : i < n) (clear : flag i = false) :
    tally n (Function.update flag i true) = tally n flag + 1 := by
  have h : ((Finset.range n).filter fun j => Function.update flag i true j = true) =
      insert i ((Finset.range n).filter fun j => flag j = true) := by
    ext j
    by_cases hj : j = i
    · subst hj; simp [hi]
    · simp [hj]
  have notMem : i ∉ (Finset.range n).filter fun j => flag j = true := by simp [clear]
  rw [tally, h, Finset.card_insert_of_notMem notMem, tally]

theorem tally_clear (hi : i < n) (set : flag i = true) :
    tally n (Function.update flag i false) + 1 = tally n flag := by
  have h : Function.update (Function.update flag i false) i true = flag := by
    rw [Function.update_idem, ← set, Function.update_eq_self]
  have more : tally n (Function.update (Function.update flag i false) i true) =
      tally n (Function.update flag i false) + 1 := tally_set hi (by simp)
  rw [h] at more
  exact more.symm

/-- A table with fewer set flags than entries has a clear entry. -/
theorem exists_clear (h : tally n flag < n) : ∃ i, i < n ∧ flag i = false := by
  by_contra none
  have all : ∀ i, i < n → flag i = true := by
    intro i hi
    by_contra hf
    exact none ⟨i, hi, by simpa using hf⟩
  have : ((Finset.range n).filter fun i => flag i = true) = Finset.range n :=
    Finset.filter_true_of_mem fun i hi => all i (Finset.mem_range.mp hi)
  rw [tally, this, Finset.card_range] at h
  exact Nat.lt_irrefl n h

/-- A table with as many set flags as entries is full. -/
theorem all_set (h : n ≤ tally n flag) (hi : i < n) : flag i = true := by
  by_contra hf
  have clear : flag i = false := by simpa using hf
  have more := tally_set hi clear
  have := tally_le n (Function.update flag i true)
  omega

/-- The table with `m` flags from `start` on set to `value`. -/
def fill (flag : Nat → Bool) (start m : Nat) (value : Bool) : Nat → Bool :=
  fun k => if start ≤ k ∧ k < start + m then value else flag k

theorem fill_of_mem {start m k : Nat} (value : Bool) (h : start ≤ k ∧ k < start + m) :
    fill flag start m value k = value := if_pos h

theorem fill_of_notMem {start m k : Nat} (value : Bool) (h : ¬ (start ≤ k ∧ k < start + m)) :
    fill flag start m value k = flag k := if_neg h

theorem fill_zero (flag : Nat → Bool) (start : Nat) (value : Bool) :
    fill flag start 0 value = flag := by
  funext k
  exact if_neg (by omega)

theorem fill_succ (flag : Nat → Bool) (start m : Nat) (value : Bool) :
    fill flag start (m + 1) value =
      Function.update (fill flag start m value) (start + m) value := by
  funext k
  by_cases hk : k = start + m
  · rw [hk, Function.update_self]
    exact if_pos (by omega)
  · rw [Function.update_of_ne hk]
    exact if_congr (by omega) rfl rfl

/-- Clearing a range again gives the flags back exactly if it was clear before. -/
theorem fill_clear_fill_set_iff (flag : Nat → Bool) (start m : Nat) :
    fill (fill flag start m true) start m false = flag ↔
      ∀ k, start ≤ k → k < start + m → flag k = false := by
  constructor
  · intro same k hlow hhigh
    rw [← congrFun same k]
    exact fill_of_mem false ⟨hlow, hhigh⟩
  · intro clear
    funext k
    by_cases hk : start ≤ k ∧ k < start + m
    · rw [fill_of_mem false hk, clear k hk.1 hk.2]
    · rw [fill_of_notMem false hk, fill_of_notMem true hk]

/-- Setting clear flags in a row counts each of them. -/
theorem tally_fill_set {start m : Nat} (hm : start + m ≤ n)
    (clear : ∀ k, start ≤ k → k < start + m → flag k = false) :
    tally n (fill flag start m true) = tally n flag + m := by
  induction m with
  | zero => rw [fill_zero]; rfl
  | succ m ih =>
      have hlast : fill flag start m true (start + m) = false := by
        rw [fill_of_notMem true (by omega)]
        exact clear _ (by omega) (by omega)
      rw [fill_succ, tally_set (by omega) hlast, ih (by omega)
        fun k hl hh => clear k hl (by omega)]
      rfl

theorem tally_fill_clear {start m : Nat} (hm : start + m ≤ n)
    (set : ∀ k, start ≤ k → k < start + m → flag k = true) :
    tally n (fill flag start m false) + m = tally n flag := by
  induction m with
  | zero => rw [fill_zero]; rfl
  | succ m ih =>
      have hlast : fill flag start m false (start + m) = true := by
        rw [fill_of_notMem false (by omega)]
        exact set _ (by omega) (by omega)
      have inTable : start + m < n := by omega
      have hset := tally_clear inTable hlast
      have hrest := ih (by omega) fun k hl hh => set k hl (by omega)
      rw [fill_succ]
      omega

/-- Pigeonhole: the entries of a table cannot be told apart by fewer keys. -/
theorem le_of_injective_keys {m : Nat} (key : Nat → Nat) (below : ∀ i, i < n → key i < m)
    (inj : ∀ i j, i < n → j < n → key i = key j → i = j) : n ≤ m := by
  have h : (Finset.range n).card ≤ (Finset.range m).card := Finset.card_le_card_of_injOn key
    (fun i hi => Finset.mem_coe.mpr (Finset.mem_range.mpr (below i (Finset.mem_range.mp hi))))
    (fun i hi j hj e => inj i j (by simpa using hi) (by simpa using hj) e)
  simpa using h

end Tally
