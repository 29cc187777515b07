import OsDesign.Preempt.Interleavings

/-!
Mutual exclusion under preemption: what keeps a mutex to one thread, and what
happens without it.
-/
namespace OsDesign.Preempt

open Pthread Virt CountedLock

variable {threads : Finset ThreadId} {mutexes : Nat → Bool} {s s' : Watched} {t u : ThreadId}
  {m : Nat} {e : Turn}

/-- A turn under which mutual exclusion is kept. -/
structure Apart (threads : Finset ThreadId) (mutexes : Nat → Bool) (s : Watched) (e : Turn) :
    Prop where
  orderly : s.Orderly threads mutexes e
  takes : s.TakesAlone threads e

instance (threads : Finset ThreadId) (mutexes : Nat → Bool) (s : Watched) :
    DecidablePred (Apart threads mutexes s) := fun e =>
  decidable_of_iff (s.Orderly threads mutexes e ∧ s.TakesAlone threads e)
    ⟨fun h => ⟨h.1, h.2⟩, fun h => ⟨h.orderly, h.takes⟩⟩

/-- No two threads are between a lock of a mutex that returned 0 and their unlock of it. -/
def Watched.Exclusive (s : Watched) : Prop :=
  ∀ m t u, 0 < s.holding m t → 0 < s.holding m u → t = u

/-- A mutex that is had at most once is held by at most one thread. -/
theorem held_once (mem : t ∈ threads) (mem' : u ∈ threads)
    (one : (s.lock m).inside threads ≤ 1) (held : 0 < s.holding m t)
    (held' : 0 < s.holding m u) : t = u := by
  by_contra hne
  have hsum : s.holding m t + s.holding m u ≤ ∑ x ∈ threads, s.holding m x := by
    have hle := Finset.sum_le_sum_of_subset (f := s.holding m)
      (s := {t, u}) (t := threads) (by
        intro x hx
        simp only [Finset.mem_insert, Finset.mem_singleton] at hx
        cases hx with
        | inl h => exact h ▸ mem
        | inr h => exact h ▸ mem')
    rw [Finset.sum_pair hne] at hle
    exact hle
  have hinside : ∑ x ∈ threads, s.holding m x ≤ (s.lock m).inside threads := Nat.le_add_right _ _
  omega

/-- In every run whose turns meet the conditions, a mutex is held by one thread. -/
theorem exclusive_of_reachable
    (reach : Runs.Reachable (Watched.Init threads mutexes) (Apart threads mutexes) Watched.Step
      s) : s.Exclusive := by
  have hinv : Counted threads mutexes s ∧
      ∀ m, mutexes m = true → (s.lock m).Exclusive threads := by
    refine lock_of_reachable (fun _ _ permitted => permitted.orderly) ?_ ?_ reach
    · exact fun s m init hm => (init.lock_free hm).exclusive
    · intro s e m l counted hm permitted running move exclusive
      exact exclusive.move (counted.balanced m hm) counted.few counted.seated.runs
        (takesAlone running permitted.takes) move
  intro m t u held held'
  obtain ⟨ht, hm⟩ := hinv.1.seated.holding m t held
  obtain ⟨hu, -⟩ := hinv.1.seated.holding m u held'
  have hone := (hinv.2 m hm).one
  exact held_once ht hu (Nat.le_trans (Nat.le_add_right _ _) hone) held held'

section Runs

open Runs Watched

/-- Thread 0 gets the mutex, thread 1 waits for it, and thread 0 hands it over. -/
def handingOver : List Turn :=
  .lock 1 :: Turn.statements 6 ++ .preempt :: .lock 1 :: Turn.statements 11 ++
    .preempt :: .preempt :: .unlock 1 :: Turn.statements 8 ++
    .preempt :: .preempt :: .preempt :: Turn.statements 2

/-- The mutex was handed over, and one thread holds it. -/
theorem exclusive_after_handover :
    ∃ s, Reachable (Init startThreads startMutexes) (Apart startThreads startMutexes) Step s ∧
      0 < s.holding 1 1 ∧ s.Exclusive := by
  obtain ⟨s, reach, held⟩ := exists_reachable (Apart startThreads startMutexes)
    (fun s => 0 < s.holding 1 1) handingOver (by decide +kernel)
  exact ⟨s, reach, held, exclusive_of_reachable reach⟩

/-- Thread 0 and thread 1 both find the count at zero. -/
def bothTake : List Turn :=
  .lock 1 :: Turn.statements 3 ++ .preempt :: .lock 1 :: Turn.statements 6 ++
    .preempt :: .preempt :: .preempt :: Turn.statements 3

/-- Thread 1 reads a count of zero that it writes back as one when thread 2 has
the mutex and thread 3 waits. Thread 2 hands over with the count at zero. -/
def staleWrite : List Turn :=
  .lock 1 :: Turn.statements 6 ++ .preempt :: .lock 1 :: Turn.statements 3 ++
    .preempt :: .preempt :: .preempt :: .unlock 1 :: Turn.statements 7 ++
    .preempt :: Turn.statements 1 ++ .preempt :: .lock 1 :: Turn.statements 6 ++
    .preempt :: .lock 1 :: Turn.statements 11 ++
    .preempt :: .preempt :: .unlock 1 :: Turn.statements 4 ++
    .preempt :: .preempt :: Turn.statements 1 ++ .preempt :: Turn.statements 4 ++
    .preempt :: .lock 1 :: Turn.statements 6 ++ .preempt :: .preempt :: Turn.statements 2

/-- Thread 1 is preempted in front of its `swapcontext`. Its flow is saved in the
context of thread 2, and whenever thread 2 is scheduled it goes on from there
and returns thread 1 to the end of its lock. -/
def lostContext : List Turn :=
  .lock 1 :: Turn.statements 6 ++ .preempt :: .lock 1 :: Turn.statements 10 ++
    .preempt :: .preempt :: .unlock 1 :: Turn.statements 8 ++
    .preempt :: Turn.statements 1 ++ .preempt :: .preempt :: Turn.statements 2 ++
    .unlock 1 :: Turn.statements 7 ++ .preempt :: .lock 1 :: Turn.statements 6 ++
    .preempt :: Turn.statements 1 ++ .preempt :: .preempt :: Turn.statements 2

/-- Two threads hold one mutex, and none of the conditions can be left out. -/
theorem shared_under_preemption :
    (¬ ∀ s, Reachable (Init startThreads startMutexes) (Disciplined startMutexes) Step s →
      s.Exclusive) ∧
    (∃ s, Reachable (Init startThreads startMutexes)
      (fun s e => s.Disciplined startMutexes e ∧ s.WritesAlone startThreads e ∧
        s.SwitchesWhole e) Step s ∧ ¬ s.Exclusive) ∧
    (∃ s, Reachable (Init startThreads startMutexes)
      (fun s e => s.Disciplined startMutexes e ∧ s.TakesAlone startThreads e ∧
        s.SwitchesWhole e) Step s ∧ ¬ s.Exclusive) ∧
    (∃ s, Reachable (Init startThreads startMutexes)
      (fun s e => s.Disciplined startMutexes e ∧ s.TakesAlone startThreads e ∧
        s.WritesAlone startThreads e) Step s ∧ ¬ s.Exclusive) := by
  have shared : ∀ {s : Watched} {t u : ThreadId}, t ≠ u → 0 < s.holding 1 t ∧ 0 < s.holding 1 u →
      ¬ s.Exclusive := by
    intro s t u hne held exclusive
    exact hne (exclusive 1 t u held.1 held.2)
  obtain ⟨s₁, reach₁, held₁⟩ := exists_reachable (fun s e =>
      s.Disciplined startMutexes e ∧ s.WritesAlone startThreads e ∧ s.SwitchesWhole e)
    (fun s => 0 < s.holding 1 0 ∧ 0 < s.holding 1 1) bothTake (by decide +kernel)
  obtain ⟨s₂, reach₂, held₂⟩ := exists_reachable (fun s e =>
      s.Disciplined startMutexes e ∧ s.TakesAlone startThreads e ∧ s.SwitchesWhole e)
    (fun s => 0 < s.holding 1 0 ∧ 0 < s.holding 1 3) staleWrite (by decide +kernel)
  obtain ⟨s₃, reach₃, held₃⟩ := exists_reachable (fun s e =>
      s.Disciplined startMutexes e ∧ s.TakesAlone startThreads e ∧ s.WritesAlone startThreads e)
    (fun s => 0 < s.holding 1 0 ∧ 0 < s.holding 1 1) lostContext (by decide +kernel)
  refine ⟨?_, ⟨s₁, reach₁, shared (by decide) held₁⟩, ⟨s₂, reach₂, shared (by decide) held₂⟩,
    ⟨s₃, reach₃, shared (by decide) held₃⟩⟩
  intro always
  exact shared (by decide) held₁ (always s₁ (reach₁.mono fun _ _ permitted => permitted.1))

end Runs

end OsDesign.Preempt
