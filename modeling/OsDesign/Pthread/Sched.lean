import OsDesign.Pthread.Calls

/-!
The scheduler without pointers and without memory: `CURRENT`, the two queues
as lists and the mutex table. In a state whose pointers describe lists, every
call of the library is the call on the lists, faults included, so that what is
proved about the lists is proved about the code.
-/
namespace OsDesign.Pthread

open Virt Loops

structure Sched where
  current : Option ThreadId
  ready : List ThreadId
  wait : List ThreadId
  mu : ThreadId → Nat
  tid : ThreadId → Nat
  table : MutexTable
  live : ThreadId → Bool

namespace Sched

def schedule (a : Sched) : Sched :=
  match a.ready with
  | [] => a
  | next :: rest => { a with current := some next, ready := rest ++ a.current.toList }

/-- `schedule_swap_current_to_wait` by the thread `tmp`. -/
def swap (a : Sched) (tmp : ThreadId) : Sched :=
  match a.ready with
  | [] => a
  | next :: rest => { a with current := some next, ready := rest, wait := a.wait ++ [tmp] }

/-- The test of `release_thread` and `release_all_thread`. -/
def waitsOn (a : Sched) (h : Nat) (t : ThreadId) : Bool := h == a.mu t

/-- The first thread that waits on `h` becomes ready. -/
def release (a : Sched) (h : Nat) : Sched :=
  { a with
    ready := a.ready ++ (a.wait.find? (a.waitsOn h)).toList
    wait := a.wait.eraseP (a.waitsOn h) }

def create (ti : ThreadId) (a : Sched) : Except Fault (Sched × Return) :=
  match a.table.allocMutex with
  | (_, none) => .error .outOfBounds
  | (table, some tid) =>
      .ok ({ a with
        ready := a.ready ++ [ti]
        mu := Function.update a.mu ti 0
        tid := Function.update a.tid ti tid
        table := table.setCount tid 1
        live := Function.update a.live ti true }, ⟨0, some tid⟩)

/-- `CURRENT` ends: one thread that waits on it becomes ready. -/
def retired (a : Sched) (current : ThreadId) : Sched :=
  { a.release (a.tid current) with
    current := none
    table := a.table.freeMutex (a.tid current)
    live := Function.update a.live current false }

def exit (a : Sched) : Except Fault (Sched × Return) :=
  match a.current with
  | none => .error .nullDereference
  | some current =>
      if maxMutexNum ≤ a.tid current then .error .outOfBounds
      else .ok ((a.retired current).schedule, ⟨0, none⟩)

def counted (a : Sched) (current : ThreadId) (h : Nat) : Sched :=
  { a with
    table := a.table.setCount h ((a.table h).count + 1)
    mu := Function.update a.mu current h }

def countAndWait (h : Nat) (a : Sched) : Except Fault (Sched × Return) :=
  if maxMutexNum ≤ h then .error .outOfBounds
  else if (a.table h).used = false then .ok (a, ⟨-1, none⟩)
  else if (a.table h).count = 0 then
    .ok ({ a with table := a.table.setCount h ((a.table h).count + 1) }, ⟨0, none⟩)
  else
    match a.current with
    | none => .error .nullDereference
    | some current => .ok ((a.counted current h).swap current, ⟨0, none⟩)

def mutexInit (a : Sched) : Except Fault (Sched × Return) :=
  match a.table.allocMutex with
  | (_, none) => .error .errExit
  | (table, some i) => .ok ({ a with table := table }, ⟨0, some i⟩)

def unlock (h : Nat) (a : Sched) : Except Fault (Sched × Return) :=
  if maxMutexNum ≤ h then .error .outOfBounds
  else if (a.table h).used = false then .ok (a, ⟨-1, none⟩)
  else if (a.table h).count = 0 then .ok (a, ⟨-1, none⟩)
  else
    let table := a.table.setCount h ((a.table h).count - 1)
    if (a.table h).count = 1 then .ok ({ a with table := table }, ⟨0, none⟩)
    else .ok ({ a.release h with table := table }, ⟨0, none⟩)

def destroy (h : Nat) (a : Sched) : Except Fault (Sched × Return) :=
  if maxMutexNum ≤ h then .error .outOfBounds
  else if (a.table h).used = false then .ok (a, ⟨-1, none⟩)
  else .ok ({ a with table := a.table.freeMutex h }, ⟨0, none⟩)

def call (a : Sched) : Event → Except Fault (Sched × Return)
  | .create ti => a.create ti
  | .yield | .tick => .ok (a.schedule, ⟨0, none⟩)
  | .exit => a.exit
  | .join h | .lock h => a.countAndWait h
  | .mutexInit => a.mutexInit
  | .unlock h => a.unlock h
  | .destroy h => a.destroy h

/-- `CURRENT`, the ready threads and the waiting threads. -/
def threads (a : Sched) : List ThreadId :=
  a.current.toList ++ (a.ready ++ a.wait)

variable {a a' : Sched} {t c : ThreadId} {r : Return}

theorem mem_threads : t ∈ a.threads ↔ a.current = some t ∨ t ∈ a.ready ∨ t ∈ a.wait := by
  simp [threads, Option.mem_toList]

theorem mem_threads_schedule : t ∈ a.schedule.threads ↔ t ∈ a.threads := by
  unfold schedule
  split
  · exact Iff.rfl
  · rename_i next rest hready
    simp only [mem_threads, hready, List.mem_append, Option.mem_toList, List.mem_cons,
      Option.some.injEq]
    tauto

theorem mem_threads_swap (current : a.current = some c) :
    t ∈ (a.swap c).threads ↔ t ∈ a.threads := by
  unfold swap
  split
  · exact Iff.rfl
  · rename_i next rest hready
    simp only [mem_threads, hready, current, List.mem_append, List.mem_cons, List.not_mem_nil,
      Option.some.injEq, or_false]
    tauto

theorem mem_threads_release (h : Nat) (mem : t ∈ (a.release h).threads) : t ∈ a.threads := by
  simp only [mem_threads, release, List.mem_append, Option.mem_toList] at mem ⊢
  rcases mem with current | (ready | found) | waits
  · exact .inl current
  · exact .inr (.inl ready)
  · exact .inr (.inr (List.mem_of_find?_eq_some found))
  · exact .inr (.inr (List.mem_of_mem_eraseP waits))

theorem mem_threads_exit (h : a.exit = .ok (a', r)) (mem : t ∈ a'.threads) : t ∈ a.threads := by
  unfold exit at h
  split at h
  · cases h
  · rename_i current hcurrent
    split at h
    · cases h
    · cases h
      have retired := mem_threads_schedule.mp mem
      refine mem_threads_release (a.tid current) ?_
      rw [mem_threads] at retired ⊢
      rcases retired with none | queued
      · cases none
      · exact .inr queued

/-- No call other than `my_pthread_create` brings a thread to the scheduler. -/
theorem mem_threads_call {e : Event} (other : ∀ ti, e ≠ .create ti)
    (h : a.call e = .ok (a', r)) (mem : t ∈ a'.threads) : t ∈ a.threads := by
  cases e with
  | create ti => exact absurd rfl (other ti)
  | yield | tick =>
      cases h
      exact mem_threads_schedule.mp mem
  | exit => exact mem_threads_exit h mem
  | join n | lock n =>
      simp only [call, countAndWait] at h
      split at h
      · cases h
      · split at h
        · cases h
          exact mem
        · split at h
          · cases h
            exact mem
          · split at h
            · cases h
            · rename_i current hcurrent
              cases h
              exact (mem_threads_swap (a := a.counted current n) hcurrent).mp mem
  | mutexInit =>
      simp only [call, mutexInit] at h
      split at h
      · cases h
      · cases h
        exact mem
  | unlock n =>
      simp only [call, unlock] at h
      split at h
      · cases h
      · split at h
        · cases h
          exact mem
        · split at h
          · cases h
            exact mem
          · split at h
            · cases h
              exact mem
            · cases h
              exact mem_threads_release n mem
  | destroy n =>
      simp only [call, destroy] at h
      split at h
      · cases h
      · split at h
        · cases h
          exact mem
        · cases h
          exact mem

end Sched

namespace System

/-- The lists that the pointers of a state describe. -/
def sched (s : System) : Sched where
  current := s.queues.current
  ready := s.queues.ready
  wait := s.queues.wait
  mu := s.queues.mu
  tid := s.tid
  table := s.gMutexTable
  live := s.live

/-- The pointers describe lists, and the threads on them are the live threads. -/
structure WellFormed (s : System) : Prop where
  holds : s.queues.Holds s.queues.ready s.queues.wait
  live : ∀ t, t ∈ s.sched.threads ↔ s.live t = true

variable {s s' : System}

theorem sched_resume (s : System) : s.resume.sched = s.sched := by
  cases h : s.queues.current with
  | none => simp [resume, h]
  | some next =>
      by_cases hentered : s.entered next = true <;> simp [resume, h, hentered, sched]

theorem queues_resume (s : System) : s.resume.queues = s.queues := by
  cases h : s.queues.current with
  | none => simp [resume, h]
  | some next =>
      by_cases hentered : s.entered next = true <;> simp [resume, h, hentered]

theorem live_resume (s : System) : s.resume.live = s.live := by
  cases h : s.queues.current with
  | none => simp [resume, h]
  | some next =>
      by_cases hentered : s.entered next = true <;> simp [resume, h, hentered]

theorem process_resume {next : ThreadId} (h : s.queues.current = some next) :
    s.resume.process = s.process.enter next := by
  by_cases hentered : s.entered next = true <;>
    simp [resume, h, hentered, Process.enter, process]

/-- A state with these queues and otherwise the fields of `s`. -/
theorem sched_eq {q : Queues} {rs ws : List ThreadId} (s : System) (hq : s.queues = q)
    (holds : q.Holds rs ws) :
    s.sched = ⟨q.current, rs, ws, q.mu, s.tid, s.gMutexTable, s.live⟩ := by
  subst hq
  simp only [sched, holds.ready_eq, holds.wait_eq]

theorem WellFormed.of_holds {rs ws : List ThreadId} (holds : s.queues.Holds rs ws)
    (live : ∀ t, t ∈ s.queues.members rs ws ↔ s.live t = true) : s.WellFormed := by
  refine ⟨?_, ?_⟩
  · rw [holds.ready_eq, holds.wait_eq]
    exact holds
  · intro t
    simp only [Sched.threads, sched, holds.ready_eq, holds.wait_eq]
    exact live t

theorem WellFormed.resumed {rs ws : List ThreadId} (holds : s.queues.Holds rs ws)
    (live : ∀ t, t ∈ s.queues.members rs ws ↔ s.live t = true) : s.resume.WellFormed := by
  have holds' : s.resume.queues.Holds rs ws := by
    rw [queues_resume]
    exact holds
  refine WellFormed.of_holds holds' ?_
  rw [queues_resume, live_resume]
  exact live

/-- A block that no live thread has is on no queue. -/
theorem WellFormed.notMem_threads (wf : s.WellFormed) {ti : ThreadId}
    (fresh : s.live ti = false) : ti ∉ s.sched.threads := by
  intro hmem
  have hlive := (wf.live ti).mp hmem
  rw [fresh] at hlive
  cases hlive

/-- The first ready thread is live and is not `CURRENT`. -/
theorem WellFormed.mayRun (wf : s.WellFormed) {next : ThreadId} {rest : List ThreadId}
    (hready : s.queues.ready = next :: rest) : s.process.MayRun next := by
  have hmem : next ∈ s.sched.threads := by
    simp [Sched.threads, sched, hready]
  refine ⟨(wf.live next).mp hmem, ?_⟩
  intro hcurrent
  have hnot := (wf.holds.notMem_ready hcurrent).1
  rw [hready] at hnot
  exact hnot List.mem_cons_self

/-- `schedule` is `schedule` on the lists, and a switch of the process if a
thread is ready. -/
theorem WellFormed.schedule (wf : s.WellFormed) :
    ∃ s', s.schedule = .ok s' ∧ s'.sched = s.sched.schedule ∧ s'.WellFormed ∧
      s'.process = (match s.queues.ready with
        | [] => s.process
        | next :: _ => s.process.switchTo next) := by
  have holds := wf.holds
  cases hready : s.queues.ready with
  | nil =>
      rw [hready] at holds
      have hempty : s.queues.gQueueReady.first = none := holds.ready.first_of_nil
      refine ⟨s, by rw [System.schedule, if_pos hempty], ?_, wf, rfl⟩
      have hnil : s.sched.ready = [] := hready
      rw [Sched.schedule, hnil]
  | cons next rest =>
      rw [hready] at holds
      have hfirst : s.queues.gQueueReady.first ≠ none := by
        rw [holds.ready.first]
        simp
      have hcons : s.sched.ready = next :: rest := hready
      by_cases hnone : s.queues.current = none
      · obtain ⟨q, hq, hcurrent, hholds, hframe⟩ := holds.scheduleSection_none hnone
        have hcur : s.sched.current = none := hnone
        refine ⟨({ s with queues := q } : System).resume, ?_, ?_, ?_, ?_⟩
        · rw [System.schedule, if_neg hfirst]
          simp only [hnone, hq]
          rfl
        · rw [sched_resume, sched_eq _ rfl hholds, Sched.schedule, hcons, hcurrent, hframe.mu, hcur]
          simp [sched]
        · refine WellFormed.resumed hholds ?_
          intro t
          rw [← wf.live t]
          simp [Queues.members, Sched.threads, sched, hcurrent, hready, hnone]
        · change _ = s.process.switchTo next
          rw [Process.switchTo_of_none hnone, process_resume hcurrent]
          rfl
      · obtain ⟨tmp, hsome⟩ := Option.ne_none_iff_exists'.mp hnone
        obtain ⟨q, hq, hcurrent, hholds, hframe⟩ := holds.scheduleSection_some hsome
        have hcur : s.sched.current = some tmp := hsome
        refine ⟨({ s with vm := s.vm.mmStoreVirtualPagesBack tmp, queues := q } : System).resume,
          ?_, ?_, ?_, ?_⟩
        · rw [System.schedule, if_neg hfirst]
          simp only [hsome, hq]
          rfl
        · rw [sched_resume, sched_eq _ rfl hholds, Sched.schedule, hcons, hcurrent, hframe.mu, hcur]
          simp [sched]
        · refine WellFormed.resumed hholds ?_
          intro t
          rw [← wf.live t]
          simp only [Queues.members, Sched.threads, sched, hcurrent, hready, hsome,
            Option.toList_some, List.mem_append, List.mem_cons, List.not_mem_nil]
          tauto
        · change _ = s.process.switchTo next
          rw [Process.switchTo_of_some hsome, process_resume hcurrent]
          rfl

theorem WellFormed.scheduleSwapCurrentToWait (wf : s.WellFormed) {current : ThreadId}
    (hsome : s.queues.current = some current) :
    ∃ s', s.scheduleSwapCurrentToWait = .ok s' ∧
      s'.sched = s.sched.swap current ∧ s'.WellFormed ∧
      s'.process = (match s.queues.ready with
        | [] => s.process
        | next :: _ => s.process.switchTo next) := by
  have holds := wf.holds
  cases hready : s.queues.ready with
  | nil =>
      rw [hready] at holds
      have hempty : s.queues.gQueueReady.first = none := holds.ready.first_of_nil
      have hnil : s.sched.ready = [] := hready
      refine ⟨s, by rw [System.scheduleSwapCurrentToWait, if_pos hempty], ?_, wf, rfl⟩
      simp only [Sched.swap, hnil]
  | cons next rest =>
      rw [hready] at holds
      have hfirst : s.queues.gQueueReady.first ≠ none := by
        rw [holds.ready.first]
        simp
      have hcons : s.sched.ready = next :: rest := hready
      obtain ⟨q, hq, hcurrent, hholds, hframe⟩ := holds.swapSection hsome
      refine ⟨({ s with vm := s.vm.mmStoreVirtualPagesBack current, queues := q } : System).resume,
        ?_, ?_, ?_, ?_⟩
      · rw [System.scheduleSwapCurrentToWait, if_neg hfirst]
        simp only [hsome, hq]
        rfl
      · have hsched := sched_eq
          ({ s with vm := s.vm.mmStoreVirtualPagesBack current, queues := q } : System) rfl hholds
        rw [sched_resume, hsched, hcurrent, hframe.mu]
        simp only [Sched.swap, hcons]
        rfl
      · refine WellFormed.resumed hholds ?_
        intro t
        rw [← wf.live t]
        simp only [Queues.members, Sched.threads, sched, hcurrent, hready, hsome,
          Option.toList_some, List.mem_append, List.mem_cons, List.not_mem_nil]
        tauto
      · change _ = s.process.switchTo next
        rw [Process.switchTo_of_some hsome, process_resume hcurrent]
        rfl

end System

end OsDesign.Pthread
