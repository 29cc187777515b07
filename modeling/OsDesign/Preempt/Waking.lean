import OsDesign.Preempt.Interleavings

/-!
Wake-ups under preemption: what keeps a waiter from being forgotten, and what
happens without it.
-/
namespace OsDesign.Preempt

open Pthread Virt CountedLock

variable {threads : Finset ThreadId} {mutexes : Nat → Bool} {s s' : Watched} {t u : ThreadId}
  {m : Nat} {e : Turn}

/-- A turn under which no waiter is forgotten. -/
structure Attentive (threads : Finset ThreadId) (mutexes : Nat → Bool) (s : Watched) (e : Turn) :
    Prop where
  orderly : s.Orderly threads mutexes e
  announces : s.AnnouncesAlone threads e
  leaves : s.LeavesNobody threads e

instance (threads : Finset ThreadId) (mutexes : Nat → Bool) (s : Watched) :
    DecidablePred (Attentive threads mutexes s) := fun e =>
  decidable_of_iff
    (s.Orderly threads mutexes e ∧ s.AnnouncesAlone threads e ∧ s.LeavesNobody threads e)
    ⟨fun h => ⟨h.1, h.2.1, h.2.2⟩, fun h => ⟨h.orderly, h.announces, h.leaves⟩⟩

/-- `t` waits for a mutex that no thread holds and that no other thread is about
to lock or to unlock. -/
structure Watched.Forgotten (threads : Finset ThreadId) (s : Watched) (m : Nat) (t : ThreadId) :
    Prop where
  waits : t ∈ s.machine.queues.wait
  mu : s.machine.queues.mu t = m
  free : ∀ u, u ∈ threads → s.holding m u = 0
  outside : ∀ u, u ∈ threads → u ≠ t → (s.machine.flow u).pc.handle ≠ some m

instance (threads : Finset ThreadId) (s : Watched) (m : Nat) (t : ThreadId) :
    Decidable (s.Forgotten threads m t) :=
  decidable_of_iff (t ∈ s.machine.queues.wait ∧ s.machine.queues.mu t = m ∧
      (∀ u, u ∈ threads → s.holding m u = 0) ∧
      ∀ u, u ∈ threads → u ≠ t → (s.machine.flow u).pc.handle ≠ some m)
    ⟨fun h => ⟨h.1, h.2.1, h.2.2.1, h.2.2.2⟩, fun h => ⟨h.waits, h.mu, h.free, h.outside⟩⟩

/-- Where waiters have somebody to wait for, nobody is forgotten. -/
theorem not_forgotten (seated : Seated threads mutexes s)
    (attended : ∀ m, mutexes m = true → (s.lock m).Attended threads) :
    ∀ m t, ¬ s.Forgotten threads m t := by
  intro m t forgotten
  have ht : t ∈ threads := by
    rw [← seated.members t, Queues.members]
    simp [forgotten.waits]
  have hqueued : s.stage m t = .queued := (seated.queued_iff ht).mpr ⟨forgotten.waits, forgotten.mu⟩
  have hm : mutexes m = true := by
    refine seated.handles t ht m ?_
    have hne : (s.machine.flow t).pc.stage m (s.machine.queues.wait.contains t) ≠ .outside := by
      change s.stage m t ≠ .outside
      simp [hqueued]
    exact (Pc.handle_of_stage hne).1
  have hwaiting : 0 < (s.lock m).waiting threads := by
    have hle := le_total Stage.waits (s.lock m).stage ht
    have hone : ((s.lock m).stage t).waits = 1 := by
      change (s.stage m t).waits = 1
      rw [hqueued]
      rfl
    rw [hone] at hle
    exact hle
  have hheld : ∑ u ∈ threads, (s.lock m).held u = 0 := Finset.sum_eq_zero forgotten.free
  have hoff : ∀ u, u ∈ threads → ((s.lock m).stage u).has + ((s.lock m).stage u).passes = 0 := by
    intro u hu
    change (s.stage m u).has + (s.stage m u).passes = 0
    by_cases same : u = t
    · rw [same, hqueued]
      rfl
    · rw [Watched.stage, Pc.stage_of_ne (forgotten.outside u hu same)]
      rfl
  have hnone : (s.lock m).inside threads + (s.lock m).passing threads = 0 := by
    rw [Lock.inside, Lock.passing, hheld, Nat.zero_add, total, total, ← Finset.sum_add_distrib]
    exact Finset.sum_eq_zero hoff
  have := (attended m hm).waiting hwaiting
  omega

/-- In every run whose turns meet the conditions, no waiter is forgotten. -/
theorem not_forgotten_of_reachable
    (reach : Runs.Reachable (Watched.Init threads mutexes) (Attentive threads mutexes)
      Watched.Step s) : ∀ m t, ¬ s.Forgotten threads m t := by
  have hinv : Counted threads mutexes s ∧
      ∀ m, mutexes m = true → (s.lock m).Attended threads := by
    refine lock_of_reachable (fun _ _ permitted => permitted.orderly) ?_ ?_ reach
    · exact fun s m init hm => (init.lock_free hm).attended
    · intro s e m l counted hm permitted running move attended
      exact attended.move (counted.balanced m hm) counted.few counted.seated.runs
        (announcesAlone running permitted.announces)
        (leavesNobody running counted.seated permitted.leaves) move
  exact not_forgotten hinv.1.seated hinv.2

section Runs

open Runs Watched

/-- Thread 0 holds the mutex, thread 1 waits for it. -/
def oneWaits : List Turn :=
  .lock 1 :: Turn.statements 6 ++ .preempt :: .lock 1 :: Turn.statements 11

theorem not_forgotten_waiting :
    ∃ s, Reachable (Init startThreads startMutexes) (Attentive startThreads startMutexes) Step s ∧
      1 ∈ s.machine.queues.wait ∧ ∀ m t, ¬ s.Forgotten startThreads m t := by
  obtain ⟨s, reach, waits⟩ := exists_reachable (Attentive startThreads startMutexes)
    (fun s => 1 ∈ s.machine.queues.wait) oneWaits (by decide +kernel)
  exact ⟨s, reach, waits, not_forgotten_of_reachable reach⟩

/-- Threads 1 and 2 wait, and their two increments of the count are one. Thread
2 is woken and leaves the count at zero. -/
def lostIncrement : List Turn :=
  .lock 1 :: Turn.statements 6 ++ .preempt :: .lock 1 :: Turn.statements 4 ++
    .preempt :: .lock 1 :: Turn.statements 11 ++ .preempt :: .preempt :: Turn.statements 7 ++
    .preempt :: .unlock 1 :: Turn.statements 8 ++ .preempt :: .preempt :: Turn.statements 2 ++
    .unlock 1 :: Turn.statements 7

/-- Thread 0 finds the count at one, thread 1 starts to wait, and thread 0
decreases the count without a look at the wait queue. -/
def lateWaiter : List Turn :=
  .lock 1 :: Turn.statements 6 ++ .unlock 1 :: Turn.statements 4 ++
    .preempt :: .lock 1 :: Turn.statements 11 ++ .preempt :: .preempt :: Turn.statements 3

/-- Thread 1 has increased the count and is not yet in the wait queue when
thread 0 looks there. -/
def earlyRelease : List Turn :=
  .lock 1 :: Turn.statements 6 ++ .preempt :: .lock 1 :: Turn.statements 5 ++
    .preempt :: .preempt :: .preempt :: .unlock 1 :: Turn.statements 8 ++
    .preempt :: Turn.statements 6

/-- Thread 0 is preempted in front of its `release_thread`. Thread 3, which waits
for another mutex, is preempted in front of its `swapcontext` to thread 0 and is
saved in the context of thread 0. -/
def lostRelease : List Turn :=
  .lock 1 :: Turn.statements 6 ++ .preempt :: .lock 1 :: Turn.statements 11 ++
    .lock 2 :: Turn.statements 6 ++ .preempt :: .preempt :: .unlock 1 :: Turn.statements 6 ++
    .preempt :: .preempt :: .lock 2 :: Turn.statements 10 ++ [.preempt]

/-- A waiter is forgotten, and none of the conditions can be left out. -/
theorem forgotten_under_preemption :
    (¬ ∀ s, Reachable (Init startThreads startMutexes) (Disciplined startMutexes) Step s →
      ∀ m t, ¬ s.Forgotten startThreads m t) ∧
    (∃ s, Reachable (Init startThreads startMutexes)
      (fun s e => s.Disciplined startMutexes e ∧ s.SwitchesWhole e ∧
        s.AnnouncesAlone startThreads e ∧ s.LeavesNobody startThreads e) Step s ∧
      s.Forgotten startThreads 1 1) ∧
    (∃ s, Reachable (Init startThreads startMutexes)
      (fun s e => s.Orderly startThreads startMutexes e ∧ s.LeavesNobody startThreads e) Step s ∧
      s.Forgotten startThreads 1 1) ∧
    (∃ s, Reachable (Init startThreads startMutexes)
      (fun s e => s.Orderly startThreads startMutexes e ∧ s.AnnouncesAlone startThreads e) Step s ∧
      s.Forgotten startThreads 1 1) ∧
    (∃ s, Reachable (Init startThreads startMutexes)
      (fun s e => s.Disciplined startMutexes e ∧ s.WritesAlone startThreads e ∧
        s.AnnouncesAlone startThreads e ∧ s.LeavesNobody startThreads e) Step s ∧
      s.Forgotten startThreads 1 1) := by
  have early := exists_reachable
    (fun s e => s.Orderly startThreads startMutexes e ∧ s.AnnouncesAlone startThreads e)
    (fun s => s.Forgotten startThreads 1 1) earlyRelease (by decide +kernel)
  refine ⟨?_, ?_, ?_, early, ?_⟩
  · obtain ⟨s, reach, forgotten⟩ := early
    intro always
    exact always s (reach.mono fun _ _ permitted => permitted.1.disciplined) 1 1 forgotten
  · exact exists_reachable (fun s e => s.Disciplined startMutexes e ∧ s.SwitchesWhole e ∧
        s.AnnouncesAlone startThreads e ∧ s.LeavesNobody startThreads e)
      (fun s => s.Forgotten startThreads 1 1) lostIncrement (by decide +kernel)
  · exact exists_reachable (fun s e => s.Orderly startThreads startMutexes e ∧
        s.LeavesNobody startThreads e)
      (fun s => s.Forgotten startThreads 1 1) lateWaiter (by decide +kernel)
  · exact exists_reachable (fun s e => s.Disciplined startMutexes e ∧
        s.WritesAlone startThreads e ∧ s.AnnouncesAlone startThreads e ∧
        s.LeavesNobody startThreads e)
      (fun s => s.Forgotten startThreads 1 1) lostRelease (by decide +kernel)

end Runs

end OsDesign.Preempt
