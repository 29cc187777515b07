import Mathlib.Data.List.Range
import Mathlib.Logic.Function.Basic

/-!
Counted loops. `forRange` is a loop whose body runs for every index,
`firstIndex` is a scan which leaves at the first index that passes its test, and
`searchFrom` is one whose body changes a state, may fail and may find a result.
Two searches whose turns match each other match as a whole.
-/
namespace Loops

variable {σ : Type*}

/-- Run the body at `0, 1, .., n - 1` in this order. -/
def forRange : Nat → (Nat → σ → σ) → σ → σ
  | 0, _, s => s
  | n + 1, body, s => body n (forRange n body s)

/-- The loop rule: an invariant indexed by the number of turns already made. -/
theorem forRange_induct (P : Nat → σ → Prop) (body : Nat → σ → σ) (n : Nat) (s : σ)
    (start : P 0 s) (turn : ∀ i s, i < n → P i s → P (i + 1) (body i s)) :
    P n (forRange n body s) := by
  induction n with
  | zero => exact start
  | succ n ih =>
      exact turn n _ (Nat.lt_succ_self n)
        (ih fun i s hi h => turn i s (Nat.lt_succ_of_lt hi) h)

/-- The first index below `n` that passes the test. -/
def firstIndex (n : Nat) (test : Nat → Bool) : Option Nat :=
  (List.range n).find? test

theorem firstIndex_eq_some {n i : Nat} {test : Nat → Bool} :
    firstIndex n test = some i ↔
      test i = true ∧ i < n ∧ ∀ j, j < i → test j = false := by
  simp [firstIndex, List.find?_range_eq_some]

theorem firstIndex_eq_none {n : Nat} {test : Nat → Bool} :
    firstIndex n test = none ↔ ∀ i, i < n → test i = false := by
  simp [firstIndex]

theorem firstIndex_isSome {n i : Nat} (test : Nat → Bool) (hi : i < n) (ht : test i = true) :
    ∃ j, firstIndex n test = some j := by
  cases h : firstIndex n test with
  | some j => exact ⟨j, rfl⟩
  | none =>
      have := firstIndex_eq_none.mp h i hi
      simp [ht] at this

variable {ε α : Type*}

/-- Run the body at `i, i + 1, ..` until a turn fails or finds a result. -/
def searchFrom (body : Nat → σ → Except ε (σ × Option α)) :
    Nat → Nat → σ → Except ε (σ × Option α)
  | 0, _, s => .ok (s, none)
  | n + 1, i, s =>
      match body i s with
      | .error e => .error e
      | .ok (s, some a) => .ok (s, some a)
      | .ok (s, none) => searchFrom body n (i + 1) s

/-- The search rule. While the turns miss, the invariant holds; the search fails,
misses everywhere, or hits behind misses only. -/
theorem searchFrom_cases {body : Nat → σ → Except ε (σ × Option α)} (P : σ → Prop)
    (Fails : ε → Prop) (Miss : Nat → Prop) (Hit : Nat → σ → α → Prop) (n i : Nat) (s : σ)
    (start : P s)
    (turn : ∀ k s, i ≤ k → k < i + n → P s →
      (∃ e, body k s = .error e ∧ Fails e) ∨ (∃ s', body k s = .ok (s', none) ∧ P s' ∧ Miss k) ∨
        ∃ s' a, body k s = .ok (s', some a) ∧ Hit k s' a) :
    (∃ e, searchFrom body n i s = .error e ∧ Fails e) ∨
    (∃ s', searchFrom body n i s = .ok (s', none) ∧ P s' ∧ ∀ k, i ≤ k → k < i + n → Miss k) ∨
    ∃ k s' a, i ≤ k ∧ k < i + n ∧ (∀ j, i ≤ j → j < k → Miss j) ∧
      searchFrom body n i s = .ok (s', some a) ∧ Hit k s' a := by
  induction n generalizing i s with
  | zero => exact .inr (.inl ⟨s, rfl, start, fun k hk hk' => by omega⟩)
  | succ n ih =>
      rcases turn i s (Nat.le_refl i) (by omega) start with
        ⟨e, hfail, hfails⟩ | ⟨s₁, hmiss, hP, hmisses⟩ | ⟨s₁, a, hhit, hhits⟩
      · exact .inl ⟨e, by simp only [searchFrom, hfail], hfails⟩
      · have hnext : searchFrom body (n + 1) i s = searchFrom body n (i + 1) s₁ := by
          simp only [searchFrom, hmiss]
        rw [hnext]
        rcases ih (i + 1) s₁ hP (fun k s hk hk' => turn k s (by omega) (by omega)) with
          hfail | ⟨s₂, hall, hP₂, hmissed⟩ | ⟨k, s₂, a, hk, hk', hbefore, hhit, hhits⟩
        · exact .inl hfail
        · refine .inr (.inl ⟨s₂, hall, hP₂, ?_⟩)
          intro k hk hk'
          rcases Nat.eq_or_lt_of_le hk with rfl | later
          · exact hmisses
          · exact hmissed k later (by omega)
        · refine .inr (.inr ⟨k, s₂, a, by omega, by omega, ?_, hhit, hhits⟩)
          intro j hj hj'
          rcases Nat.eq_or_lt_of_le hj with rfl | later
          · exact hmisses
          · exact hbefore j later hj'
      · refine .inr (.inr ⟨i, s₁, a, Nat.le_refl i, by omega, fun j hj hj' => by omega, ?_, hhits⟩)
        simp only [searchFrom, hhit]

/-- What every turn that does not fail preserves, a search that does not fail preserves. -/
theorem searchFrom_preserves {body : Nat → σ → Except ε (σ × Option α)} (P : σ → Prop)
    (turn : ∀ k s s' r, body k s = .ok (s', r) → P s → P s') {n i : Nat} {s s' : σ}
    {r : Option α} (taken : searchFrom body n i s = .ok (s', r)) (start : P s) : P s' := by
  induction n generalizing i s with
  | zero =>
      simp only [searchFrom, Except.ok.injEq, Prod.mk.injEq] at taken
      exact taken.1 ▸ start
  | succ n ih =>
      rw [searchFrom] at taken
      cases hbody : body i s with
      | error e => simp [hbody] at taken
      | ok outcome =>
          obtain ⟨s₁, found⟩ := outcome
          have one := turn i s s₁ found hbody start
          cases found with
          | none =>
              simp only [hbody] at taken
              exact ih taken one
          | some a =>
              simp only [hbody, Except.ok.injEq, Prod.mk.injEq] at taken
              exact taken.1 ▸ one

variable {τ : Type*}

/-- Two turns that fail alike, both miss, or both find the same; `R` relates the
states behind a miss and `Q` those behind a hit. -/
inductive Matches (R Q : σ → τ → Prop) :
    Except ε (σ × Option α) → Except ε (τ × Option α) → Prop
  | fails (e : ε) : Matches R Q (.error e) (.error e)
  | misses {s : σ} {s' : τ} (related : R s s') : Matches R Q (.ok (s, none)) (.ok (s', none))
  | hits {s : σ} {s' : τ} (a : α) (related : Q s s') :
      Matches R Q (.ok (s, some a)) (.ok (s', some a))

theorem Matches.imp {R R' Q : σ → τ → Prop} {x : Except ε (σ × Option α)}
    {x' : Except ε (τ × Option α)} (same : Matches R Q x x') (weaker : ∀ s s', R s s' → R' s s') :
    Matches R' Q x x' := by
  cases same with
  | fails e => exact .fails e
  | misses related => exact .misses (weaker _ _ related)
  | hits a related => exact .hits a related

theorem Matches.of_ok {R Q : σ → τ → Prop} {x : Except ε (σ × Option α)}
    {x' : Except ε (τ × Option α)} (same : Matches R Q x x') {s : σ} {r : Option α}
    (taken : x = .ok (s, r)) : ∃ s', x' = .ok (s', r) ∧ (R s s' ∨ Q s s') := by
  cases same with
  | fails e => cases taken
  | misses related =>
      cases taken
      exact ⟨_, rfl, .inl related⟩
  | hits a related =>
      cases taken
      exact ⟨_, rfl, .inr related⟩

theorem searchFrom_matches {body : Nat → σ → Except ε (σ × Option α)}
    {body' : Nat → τ → Except ε (τ × Option α)} {R Q : σ → τ → Prop} {n i : Nat} {s : σ} {s' : τ}
    (turn : ∀ k s s', i ≤ k → k < i + n → R s s' → Matches R Q (body k s) (body' k s'))
    (start : R s s') : Matches R Q (searchFrom body n i s) (searchFrom body' n i s') := by
  induction n generalizing i s s' with
  | zero => exact .misses start
  | succ n ih =>
      have one := turn i s s' (Nat.le_refl i) (by omega) start
      rw [searchFrom, searchFrom]
      generalize body i s = x at one ⊢
      generalize body' i s' = x' at one ⊢
      cases one with
      | fails e => exact .fails e
      | misses related => exact ih (fun k s s' hk hk' => turn k s s' (by omega) (by omega)) related
      | hits a related => exact .hits a related

end Loops
