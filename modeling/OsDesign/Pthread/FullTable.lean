import OsDesign.Pthread.Joining

/-!
Creation with a full table, and the handles of the threads. Threads and mutexes
take their handles from the same 31 entries. `my_pthread_create` does not look at
the failure of `alloc_mutex`, unlike `my_pthread_mutex_init`: it stores the count
of entry -1. As long as creation succeeds, no two live threads and mutexes share
a handle.
-/
namespace OsDesign.Pthread

open Virt

/-- Every entry that `alloc_mutex` gives out is in use. -/
def MutexTable.Full (table : MutexTable) : Prop :=
  ∀ i, 1 ≤ i → i < maxMutexNum → (table i).used = true

theorem MutexTable.allocMutex_of_full {table : MutexTable} (full : table.Full) :
    table.allocMutex = (table, none) := by
  have hnone : Loops.firstIndex (maxMutexNum - 1) (fun i => !(table (i + 1)).used) = none := by
    refine Loops.firstIndex_eq_none.mpr ?_
    intro i hi
    have hlt : i + 1 < maxMutexNum := by
      simp only [maxMutexNum] at hi ⊢
      omega
    simp [full (i + 1) (Nat.le_add_left 1 i) hlt]
  rw [allocMutex, hnone]

/-- The creation of a thread fails, and nothing but its return tells of it. -/
def System.FailsCleanly (s : System) (ti : ThreadId) : Prop :=
  s.call (.create ti) = .error .errExit ∨
    ∃ s' r, s.call (.create ti) = .ok (s', r) ∧ r.value ≠ 0 ∧
      s'.queues.ready = s.queues.ready ∧ s'.gMutexTable = s.gMutexTable

theorem System.create_of_full {s : System} (full : s.gMutexTable.Full) (ti : ThreadId) :
    s.call (.create ti) = .error .outOfBounds := by
  change s.myPthreadCreate ti = _
  rw [myPthreadCreate, MutexTable.allocMutex_of_full full]

theorem System.not_failsCleanly_of_full {s : System} (full : s.gMutexTable.Full) (ti : ThreadId) :
    ¬ s.FailsCleanly ti := by
  rintro (hexit | ⟨s', r, hok, -⟩)
  · rw [create_of_full full] at hexit
    cases hexit
  · rw [create_of_full full] at hok
    cases hok

namespace Audit

/-- The thread that `my_pthread_init` made. A thread that is created later may get
its block, but only after it ended. -/
def MainThread (main : ThreadId) (o : Audit) (t : ThreadId) : Prop :=
  t = main ∧ main ∉ o.ledger.ended

/-- The handle of a thread is in range and in use, and nobody else has it. -/
structure OwnHandle (o : Audit) (t : ThreadId) : Prop where
  range : o.system.sched.Numbered t
  used : (o.system.gMutexTable (o.system.tid t)).used = true
  threads : ∀ t', t' ∈ o.system.sched.threads → o.system.tid t' = o.system.tid t → t' = t
  mutexes : ∀ h, o.ledger.mutexes h = true → o.system.tid t ≠ h

/-- What every run keeps that destroys mutexes only. -/
structure Owned (main : ThreadId) (o : Audit) : Prop where
  sound : o.Sound main
  numbered : ∀ t, o.system.live t = true → o.MainThread main t ∨ o.system.sched.Numbered t

variable {o o' : Audit} {main t : ThreadId} {e : Event} {r : Return}

theorem Owned.init (init : o.InitUnnumbered main) : o.Owned main := by
  refine ⟨init.sound, ?_⟩
  intro t ht
  rw [init.system.live] at ht
  refine .inl ⟨by simpa using ht, ?_⟩
  rw [init.ledger]
  exact List.not_mem_nil

theorem Owned.call (owned : o.Owned main)
    (permitted : DestroysMutexes o.system.sched o.ledger e) (call : o.Call e r o') :
    o'.Owned main := by
  have effect := owned.sound.effect permitted.toMade call
  refine ⟨owned.sound.call permitted call, ?_⟩
  have hended : e ≠ .exit → o'.ledger.ended = o.ledger.ended := by
    intro he
    rw [call.ledger, Ledger.record_ended, Ledger.acted_ended he]
  -- threads that were alive before, with the handle they had
  have kept : ∀ t, e ≠ .exit → o.system.live t = true →
      o'.system.sched.tid t = o.system.sched.tid t →
        o'.MainThread main t ∨ o'.system.sched.Numbered t := by
    intro t he ht htid
    rw [MainThread, hended he, Sched.Numbered, htid]
    exact owned.numbered t ht
  change ∀ t, o'.system.sched.live t = true → _
  generalize o'.system.sched = a' at effect kept ⊢
  cases effect with
  | refused handle =>
      have he : e ≠ .exit := by
        intro same
        simp [same, Event.handle] at handle
      exact fun t ht => kept t he ht rfl
  | created ti i range =>
      intro t ht
      by_cases hsame : t = ti
      · right
        rw [Sched.Numbered, hsame]
        simpa using range
      · refine kept t (by simp) (by simpa [hsame, System.sched] using ht) ?_
        exact Function.update_of_ne hsame _ _
  | switched he =>
      intro t ht
      rw [Sched.schedule_live] at ht
      exact kept t (by cases he <;> simp_all) ht (by rw [Sched.schedule_tid])
  | exited c running =>
      intro t ht
      rw [Sched.schedule_live] at ht
      have hne : t ≠ c := by
        intro same
        simp [Sched.retired, same] at ht
      have hlive : o.system.live t = true := by
        simpa [Sched.retired, hne, System.sched] using ht
      rw [MainThread, call.ledger, Ledger.record_ended, Ledger.acted_exit running,
        Sched.Numbered, Sched.schedule_tid]
      cases owned.numbered t hlive with
      | inl hmain =>
          refine .inl ⟨hmain.1, ?_⟩
          rw [List.mem_cons, not_or]
          exact ⟨fun same => hne (hmain.1.trans same), hmain.2⟩
      | inr hnumbered => exact .inr hnumbered
  | took waits | passed waits | parked waits =>
      have he : e ≠ .exit := by
        intro same
        simp [same, Event.waits] at waits
      exact fun t ht => kept t he ht rfl
  | initialised | unlocked | handedOver | destroyed => exact fun t ht => kept t (by simp) ht rfl

theorem Owned.reachable (reach : Runs.Reachable (InitUnnumbered main)
    (fun o e => DestroysMutexes o.system.sched o.ledger e) Step o) : o.Owned main := by
  refine reach.invariant (Owned main) (fun _ init => .init init) ?_
  intro o e o' permitted step owned
  obtain ⟨r, call⟩ := step
  exact owned.call permitted call

theorem Owned.ownHandle (owned : o.Owned main) (ht : t ∈ o.system.sched.threads)
    (other : ¬ o.MainThread main t) : o.OwnHandle t := by
  have part := owned.sound.wellFormed.partition
  have handles := owned.sound.handles
  have hlive := (part.live t).mp ht
  have hnumbered := (owned.numbered t hlive).resolve_left other
  refine ⟨hnumbered, handles.used t hlive hnumbered, ?_, ?_⟩
  · intro t' ht' same
    exact handles.distinct t t' hlive ((part.live t').mp ht') hnumbered same
  · intro h hm
    exact handles.apart h t hm hlive

/-- In every reachable state every thread but the main thread has its own handle,
and a creation does what it should with a full table exactly if the table is not
full. -/
theorem create_fails_cleanly_iff (reach : Runs.Reachable (InitUnnumbered main)
    (fun o e => DestroysMutexes o.system.sched o.ledger e) Step o) :
    (∀ t, t ∈ o.system.sched.threads → ¬ o.MainThread main t → o.OwnHandle t) ∧
      ∀ ti, (o.system.gMutexTable.Full → o.system.FailsCleanly ti) ↔
        ∃ i, 1 ≤ i ∧ i < maxMutexNum ∧ (o.system.gMutexTable i).used = false := by
  have owned := Owned.reachable reach
  refine ⟨fun t ht other => owned.ownHandle ht other, fun ti => ⟨fun clean => ?_, ?_⟩⟩
  · by_contra none
    have hfull : o.system.gMutexTable.Full := by
      intro i hpos hlt
      by_contra hunused
      exact none ⟨i, hpos, hlt, by simpa using hunused⟩
    exact System.not_failsCleanly_of_full hfull ti (clean hfull)
  · rintro ⟨i, hpos, hlt, hunused⟩ hfull
    rw [hfull i hpos hlt] at hunused
    cases hunused

/-- Two threads and a mutex between them. -/
theorem create_fails_cleanly_two : ∃ o : Audit, o.OwnHandle 1 ∧ o.OwnHandle 2 ∧
    o.ledger.mutexes 2 = true ∧ (o.system.gMutexTable.Full → o.system.FailsCleanly 3) := by
  have hrun : ((start 0 0).execute DestroysMutexes [.create 1, .mutexInit, .create 2]).any (fun o =>
      decide (o.system.sched.threads = [0, 1, 2] ∧ o.ledger.mutexes 2 = true ∧
        (o.system.gMutexTable 4).used = false)) = true := by decide +kernel
  obtain ⟨o, ho, hfacts⟩ := (Option.any_eq_true _ _).mp hrun
  obtain ⟨hthreads, hmutex, hunused⟩ := of_decide_eq_true hfacts
  have reach := reachable_of_execute (initUnnumbered_start 0) ho
  obtain ⟨own, clean⟩ := create_fails_cleanly_iff reach
  refine ⟨o, own 1 ?_ ?_, own 2 ?_ ?_, hmutex, (clean 3).mpr ⟨4, by decide, by decide, hunused⟩⟩
  · simp [hthreads]
  · exact fun main => absurd main.1 (by decide)
  · simp [hthreads]
  · exact fun main => absurd main.1 (by decide)

/-- The creation of 31 threads, one for each entry. -/
def fillingRun : List Event := (List.range 31).map fun i => .create (i + 1)

theorem full_after_fillingRun : ∃ o : Audit, Runs.Reachable (InitUnnumbered 0)
    (fun o e => DestroysMutexes o.system.sched o.ledger e) Step o ∧
      o.system.gMutexTable.Full := by
  have hrun : ((start 0 0).execute DestroysMutexes fillingRun).any (fun o =>
      (List.range 31).all fun i => (o.system.gMutexTable (i + 1)).used) = true := by
    decide +kernel
  obtain ⟨o, ho, hall⟩ := (Option.any_eq_true _ _).mp hrun
  refine ⟨o, reachable_of_execute (initUnnumbered_start 0) ho, ?_⟩
  intro i hpos hlt
  have hmem : i - 1 ∈ List.range 31 := by
    simp only [maxMutexNum] at hlt
    rw [List.mem_range]
    omega
  have hused := List.all_eq_true.mp hall (i - 1) hmem
  rwa [Nat.sub_add_cancel hpos] at hused

/-- A creation with a full table writes past the table. And a main thread whose unset
`tid` is 1 has the handle of the first thread that is created. -/
theorem create_writes_past_table :
    (∃ o : Audit, Runs.Reachable (InitUnnumbered 0)
      (fun o e => DestroysMutexes o.system.sched o.ledger e) Step o ∧
        o.system.gMutexTable.Full ∧ o.system.call (.create 32) = .error .outOfBounds ∧
        ¬ o.system.FailsCleanly 32) ∧
      ∃ o : Audit, Runs.Reachable (Init 0)
        (fun o e => DestroysMutexes o.system.sched o.ledger e) Step o ∧
          0 ∈ o.system.sched.threads ∧ 1 ∈ o.system.sched.threads ∧ ¬ o.MainThread 0 1 ∧
          o.system.tid 1 = o.system.tid 0 := by
  refine ⟨?_, ?_⟩
  · obtain ⟨o, reach, full⟩ := full_after_fillingRun
    exact ⟨o, reach, full, System.create_of_full full 32, System.not_failsCleanly_of_full full 32⟩
  · have hrun : ((start 0 1).execute DestroysMutexes [.create 1]).any (fun o =>
        decide (o.system.sched.threads = [0, 1] ∧ o.system.tid 1 = o.system.tid 0)) = true := by
      decide +kernel
    obtain ⟨o, ho, hfacts⟩ := (Option.any_eq_true _ _).mp hrun
    obtain ⟨hthreads, hsame⟩ := of_decide_eq_true hfacts
    refine ⟨o, reachable_of_execute (init_start 0 1) ho, ?_, ?_, ?_, hsame⟩
    · simp [hthreads]
    · simp [hthreads]
    · exact fun main => absurd main.1 (by decide)

end Audit

end OsDesign.Pthread
