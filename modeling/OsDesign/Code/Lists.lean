import OsDesign.Code.Library
import OsDesign.Pthread.StaleMu

/-!
The library of `code/` on the lists of the scheduler. In a state whose pointers describe
lists, every call is the call of the later version on the lists, faults included, but for
two words that C leaves unspecified: the `mu` of a new block, which is read by nobody until
it is written, and the value of a lock that waited.
-/
namespace OsDesign.Code

open Virt Pthread TailQueue

variable {q q' : Queues} {rs ws : List ThreadId} {t n : ThreadId}

theorem mu_of_takeFirstReady (h : q.takeFirstReady = .ok q') : q'.mu = q.mu := by
  rw [Queues.takeFirstReady] at h
  split at h
  · cases h
    rfl
  · cases h

theorem mu_of_scheduleSection (h : scheduleSection q = .ok q') : q'.mu = q.mu := by
  rw [scheduleSection] at h
  cases taken : q.takeFirstReady with
  | error fault =>
      rw [taken] at h
      cases h
  | ok q₁ =>
      rw [taken] at h
      have kept := mu_of_takeFirstReady taken
      cases hcurrent : q.current with
      | none =>
          rw [hcurrent] at h
          cases h
          exact kept
      | some tmp =>
          rw [hcurrent] at h
          cases h
          exact kept

theorem mu_of_swapSection (h : swapSection q = .ok q') : q'.mu = q.mu := by
  rw [swapSection] at h
  cases taken : q.takeFirstReady with
  | error fault =>
      rw [taken] at h
      cases h
  | ok q₁ =>
      rw [taken] at h
      have kept := mu_of_takeFirstReady taken
      cases hcurrent : q.current with
      | none =>
          rw [hcurrent] at h
          cases h
      | some tmp =>
          rw [hcurrent] at h
          cases h
          exact kept

theorem mu_of_release (holds : q.Holds rs ws) {h : Nat} (released : releaseThread h q = .ok q') :
    q'.mu = q.mu := by
  obtain ⟨q₁, hfirst, -, -, -, hframe⟩ := (links_of_holds holds).release_cases holds.wait_few h
  obtain rfl : q₁ = q' := Except.ok.inj (hfirst.symm.trans released)
  exact hframe.mu

namespace Library

/-- The lists that the pointers of a state describe. -/
def sched (l : Library) : Sched where
  current := l.queues.current
  ready := l.queues.ready
  wait := l.queues.wait
  mu := l.queues.mu
  tid := l.tid
  table := l.gMutexTable
  live := l.live

/-- The call is a lock that finds the mutex counted. -/
def waited (a : Sched) : Pthread.Event → Bool
  | .lock h => (a.table h).used && (a.table h).count != 0
  | _ => false

/-- What the call gives back where the later version gives back `r`. -/
def answer (u : Unspecified) (a : Sched) (e : Pthread.Event) (r : Return) : Return :=
  if waited a e = true then { r with value := u.value } else r

/-- The outcome of a call, next to the outcome on the lists. -/
inductive Follows (u : Unspecified) (a : Sched) (e : Pthread.Event) :
    Except Fault (Library × Return) → Except Fault (Sched × Return) → Prop
  | error (fault : Fault) : Follows u a e (.error fault) (.error fault)
  | ok {l' : Library} {a' : Sched} (r : Return) (wf : l'.WellFormed)
      (lists : a'.Alike l'.sched) : Follows u a e (.ok (l', answer u a e r)) (.ok (a', r))

variable {l l' : Library} {u : Unspecified} {a : Sched}

theorem alike_of_eq {a b : Sched} (same : b = a) : a.Alike b :=
  ⟨a.mu, same, fun _ _ => rfl⟩

theorem alike_trans {a b c : Sched} (first : a.Alike b) (second : b.Alike c) : a.Alike c := by
  obtain ⟨mu, rfl, agree⟩ := first
  obtain ⟨mu', rfl, agree'⟩ := second
  exact ⟨mu', rfl, fun t ht => (agree t ht).trans (agree' t ht)⟩

/-- A state with these queues and otherwise the fields of `l`. -/
theorem sched_eq (l : Library) (hq : l.queues = q) (holds : q.Holds rs ws) :
    l.sched = ⟨q.current, rs, ws, q.mu, l.tid, l.gMutexTable, l.live⟩ := by
  subst hq
  simp only [sched, holds.ready_eq, holds.wait_eq]

theorem WellFormed.holds (wf : l.WellFormed) :
    l.queues.Holds l.queues.ready l.queues.wait := by
  obtain ⟨rs, ws, holds, -⟩ := wf
  rw [holds.ready_eq, holds.wait_eq]
  exact holds

theorem WellFormed.mem_threads (wf : l.WellFormed) : t ∈ l.sched.threads ↔ l.live t = true := by
  obtain ⟨rs, ws, holds, live⟩ := wf
  rw [sched_eq l rfl holds]
  exact live t

theorem WellFormed.setTable (wf : l.WellFormed) (table : MutexTable) :
    ({ l with gMutexTable := table } : Library).WellFormed := by
  obtain ⟨rs, ws, holds, live⟩ := wf
  exact ⟨rs, ws, holds, live⟩

/-- `schedule` is `schedule` on the lists. -/
theorem WellFormed.schedule_lists (wf : l.WellFormed) :
    ∃ l', l.schedule = .ok l' ∧ l'.WellFormed ∧ l'.sched = l.sched.schedule := by
  obtain ⟨l', hl', wf'⟩ := wf.schedule
  refine ⟨l', hl', wf', ?_⟩
  have holds := wf.holds
  cases hready : l.queues.ready with
  | nil =>
      have hnil : l.sched.ready = [] := hready
      rw [hready] at holds
      rw [Library.schedule, if_pos holds.ready.first_of_nil] at hl'
      cases hl'
      rw [Sched.schedule, hnil]
  | cons next rest =>
      have hcons : l.sched.ready = next :: rest := hready
      rw [hready] at holds
      have hfirst : l.queues.gQueueReady.first ≠ none := by
        rw [holds.ready.first]
        simp
      obtain ⟨q, hq, hcurrent, holds'⟩ := scheduleSection_ok holds
      rw [Library.schedule, if_neg hfirst, hq] at hl'
      cases hl'
      rw [sched_eq _ rfl holds', Sched.schedule, hcons, hcurrent, mu_of_scheduleSection hq]
      rfl

theorem WellFormed.swap_lists (wf : l.WellFormed) {current : ThreadId}
    (hsome : l.queues.current = some current) :
    ∃ l', l.scheduleSwapCurrentToWait = .ok l' ∧ l'.WellFormed ∧
      l'.sched = l.sched.swap current := by
  obtain ⟨l', hl', wf'⟩ := wf.scheduleSwapCurrentToWait hsome
  refine ⟨l', hl', wf', ?_⟩
  have holds := wf.holds
  cases hready : l.queues.ready with
  | nil =>
      have hnil : l.sched.ready = [] := hready
      rw [hready] at holds
      rw [Library.scheduleSwapCurrentToWait, if_pos holds.ready.first_of_nil] at hl'
      cases hl'
      simp only [Sched.swap, hnil]
  | cons next rest =>
      have hcons : l.sched.ready = next :: rest := hready
      rw [hready] at holds
      have hfirst : l.queues.gQueueReady.first ≠ none := by
        rw [holds.ready.first]
        simp
      obtain ⟨q, hq, hcurrent, holds'⟩ := swapSection_ok holds hsome
      rw [Library.scheduleSwapCurrentToWait, if_neg hfirst, hq] at hl'
      cases hl'
      rw [sched_eq _ rfl holds', hcurrent, mu_of_swapSection hq]
      simp only [Sched.swap, hcons]
      rfl

theorem WellFormed.follows_schedule (wf : l.WellFormed) {e : Pthread.Event}
    (he : waited l.sched e = false) :
    Follows u l.sched e (l.schedule.map fun l => (l, ⟨0, none⟩))
      (.ok (l.sched.schedule, ⟨0, none⟩)) := by
  obtain ⟨l', hl', wf', hlists⟩ := wf.schedule_lists
  have hanswer : answer u l.sched e ⟨0, none⟩ = ⟨0, none⟩ := by
    rw [answer, he]
    rfl
  have outcome := Follows.ok (u := u) (a := l.sched) (e := e) ⟨0, none⟩ wf' (alike_of_eq hlists)
  rw [hanswer] at outcome
  rw [hl']
  exact outcome

theorem WellFormed.follows_mutexInit (wf : l.WellFormed) :
    Follows u l.sched .mutexInit l.myPthreadMutexInit l.sched.mutexInit := by
  have htable : l.sched.table = l.gMutexTable := rfl
  rw [myPthreadMutexInit, Sched.mutexInit, htable]
  cases l.gMutexTable.allocMutex with
  | mk table handle =>
      cases handle with
      | none => exact .error .errExit
      | some i => exact .ok ⟨0, some i⟩ (wf.setTable table) (alike_of_eq rfl)

theorem WellFormed.follows_destroy (wf : l.WellFormed) (h : Nat) :
    Follows u l.sched (.destroy h) (l.myPthreadMutexDestroy h) (l.sched.destroy h) := by
  have htable : l.sched.table = l.gMutexTable := rfl
  rw [myPthreadMutexDestroy, Sched.destroy, htable]
  split
  · exact .error .outOfBounds
  split
  · exact .ok ⟨-1, none⟩ wf (alike_of_eq rfl)
  · exact .ok ⟨0, none⟩ (wf.setTable _) (alike_of_eq rfl)

/-- The new thread stands behind the ready threads. -/
theorem WellFormed.created_lists (wf : l.WellFormed) {ti : ThreadId}
    (new : l.live ti = false) {q : Queues} (hq : q = ({ l.queues with
      mu := Function.update l.queues.mu ti u.mu
      gThreadsCnt := l.queues.gThreadsCnt + 1 } : Queues).insertTailReady ti) :
    q.ready = l.queues.ready ++ [ti] ∧ q.wait = l.queues.wait := by
  have holds := wf.holds
  have hfresh : ti ∉ l.queues.members l.queues.ready l.queues.wait := by
    intro hmem
    have hlive := wf.mem_threads.mp hmem
    simp [new] at hlive
  have hnot : ti ∉ l.queues.ready ∧ ti ∉ l.queues.wait := by
    simp only [Queues.members, List.mem_append, not_or] at hfresh
    exact hfresh.2
  have hlinks : ({ l.queues with
      mu := Function.update l.queues.mu ti u.mu
      gThreadsCnt := l.queues.gThreadsCnt + 1 } : Queues).Links l.queues.ready l.queues.wait :=
    ⟨holds.ready, holds.wait, holds.disjoint⟩
  have hlinks' := hlinks.insertTailReady hnot.1 hnot.2
  rw [← hq] at hlinks'
  have hbound : q.bound = l.queues.bound + 1 := by
    rw [hq]
    rfl
  have few := holds.few
  simp only [Queues.members, List.length_append] at few
  refine ⟨hlinks'.ready.elements ?_, hlinks'.wait.elements ?_⟩
  · rw [hbound, List.length_append, List.length_singleton]
    omega
  · rw [hbound]
    omega

theorem answer_of_not_waited {e : Pthread.Event} (he : waited a e = false) (r : Return) :
    answer u a e r = r := by
  rw [answer, he]
  rfl

theorem answer_of_table {b : Sched} (same : a.table = b.table) (e : Pthread.Event) (r : Return) :
    answer u a e r = answer u b e r := by
  have hwaited : waited a e = waited b e := by
    cases e <;> simp only [waited, same]
  rw [answer, answer, hwaited]

theorem WellFormed.follows_create (wf : l.WellFormed) {ti : ThreadId}
    (new : l.live ti = false) :
    Follows u l.sched (.create ti) (l.myPthreadCreate u ti) (l.sched.create ti) := by
  have htable : l.sched.table = l.gMutexTable := rfl
  rw [Sched.create, htable]
  cases halloc : l.gMutexTable.allocMutex with
  | mk table handle =>
  cases handle with
  | none =>
      have hcall : l.myPthreadCreate u ti = .error .outOfBounds := by
        rw [myPthreadCreate, halloc]
      rw [hcall]
      exact .error .outOfBounds
  | some tid =>
      have hcall : l.myPthreadCreate u ti = .ok ({ l with
          queues := ({ l.queues with
            mu := Function.update l.queues.mu ti u.mu
            gThreadsCnt := l.queues.gThreadsCnt + 1 } : Queues).insertTailReady ti
          tid := Function.update l.tid ti tid
          gMutexTable := table.setCount tid 1
          live := Function.update l.live ti true }, ⟨0, some tid⟩) := by
        rw [myPthreadCreate, halloc]
      have wf' := wf.create new hcall
      obtain ⟨hready, hwait⟩ := wf.created_lists (u := u) new rfl
      rw [hcall]
      refine .ok ⟨0, some tid⟩ wf' ⟨Function.update l.queues.mu ti u.mu, ?_, ?_⟩
      · simp only [sched, hready, hwait]
        rfl
      · intro t ht
        -- the new block waits for nothing, so that nobody reads its `mu`
        have hne : t ≠ ti := by
          intro same
          have hmem : ti ∈ l.sched.threads := by
            rw [Sched.mem_threads, ← same]
            exact .inr (.inr ht)
          have hlive := wf.mem_threads.mp hmem
          simp [new] at hlive
        simp only [Function.update_of_ne hne]
        rfl

/-- The end of `CURRENT` on the lists, in front of the choice of the next thread. -/
theorem WellFormed.retired_lists (wf : l.WellFormed) {current : ThreadId}
    (hsome : l.queues.current = some current) :
    ∃ q, releaseAllThread (l.tid current) l.queues = .ok q ∧ (l.retired current q).WellFormed ∧
      (l.retired current q).sched = l.sched.retired current := by
  obtain ⟨q, hq, wf'⟩ := wf.retired hsome
  refine ⟨q, hq, wf', ?_⟩
  obtain ⟨q₁, hfirst, heach, hcurrent, holds⟩ := release_ok wf.holds (l.tid current)
  obtain rfl : q₁ = q := Except.ok.inj (heach.symm.trans hq)
  rw [sched_eq (l.retired current q₁) rfl holds.leave]
  simp only [Library.retired, mu_of_release wf.holds hfirst]
  rfl

theorem WellFormed.follows_exit (wf : l.WellFormed) :
    Follows u l.sched .exit l.endThread l.sched.exit := by
  cases hsome : l.queues.current with
  | none =>
      have hnone : l.sched.current = none := hsome
      rw [endThread, Sched.exit, hsome, hnone]
      exact .error .nullDereference
  | some current =>
      have hsome' : l.sched.current = some current := hsome
      obtain ⟨q, hq, wf₁, hlists⟩ := wf.retired_lists hsome
      rw [Sched.exit, hsome']
      by_cases htid : Pthread.maxMutexNum ≤ l.tid current
      · have htid' : Pthread.maxMutexNum ≤ l.sched.tid current := htid
        have hcall : l.endThread = .error .outOfBounds := by
          simp only [endThread, hsome, hq, if_pos htid]
        simp only [hcall, if_pos htid']
        exact .error .outOfBounds
      · have htid' : ¬ Pthread.maxMutexNum ≤ l.sched.tid current := htid
        have hcall : l.endThread =
            (l.retired current q).schedule.map fun l => (l, ⟨0, none⟩) := by
          simp only [endThread, hsome, hq, if_neg htid]
        obtain ⟨l', hl', wf', hsched⟩ := wf₁.schedule_lists
        rw [hcall, hl']
        simp only [if_neg htid', ← hlists, ← hsched]
        exact .ok ⟨0, none⟩ wf' (alike_of_eq rfl)

/-- A wait for `h`; the value behind it is the one that the caller of the body says. -/
theorem WellFormed.follows_countAndWait (wf : l.WellFormed) {e : Pthread.Event} {h : Nat}
    {value : Int} (free : waited l.sched e = true →
      (l.gMutexTable h).used = true ∧ (l.gMutexTable h).count ≠ 0)
    (behind : (l.gMutexTable h).used = true → (l.gMutexTable h).count ≠ 0 →
      answer u l.sched e ⟨0, none⟩ = ⟨value, none⟩) :
    Follows u l.sched e (l.countAndWait value h) (l.sched.countAndWait h) := by
  have htable : l.sched.table = l.gMutexTable := rfl
  rw [Library.countAndWait, Sched.countAndWait, htable]
  split
  · exact .error .outOfBounds
  rename_i inTable
  split
  · rename_i hused
    have hplain : waited l.sched e = false := by
      refine Bool.eq_false_iff.mpr fun hwaited => ?_
      rw [(free hwaited).1] at hused
      cases hused
    have outcome := Follows.ok (u := u) (a := l.sched) (e := e) ⟨-1, none⟩ wf (alike_of_eq rfl)
    rw [answer_of_not_waited hplain] at outcome
    exact outcome
  rename_i hused
  split
  · rename_i hcount
    have hplain : waited l.sched e = false :=
      Bool.eq_false_iff.mpr fun hwaited => (free hwaited).2 hcount
    have outcome := Follows.ok (u := u) (a := l.sched) (e := e) ⟨0, none⟩
      (wf.setTable (l.gMutexTable.setCount h ((l.gMutexTable h).count + 1))) (alike_of_eq rfl)
    rw [answer_of_not_waited hplain] at outcome
    exact outcome
  rename_i hcount
  cases hsome : l.queues.current with
  | none =>
      have hnone : l.sched.current = none := hsome
      rw [hnone]
      exact .error .nullDereference
  | some current =>
      have hsome' : l.sched.current = some current := hsome
      have wf₁ : (l.counted current h).WellFormed := by
        obtain ⟨rs, ws, holds, live⟩ := wf
        exact ⟨rs, ws, holds.setMu _, live⟩
      obtain ⟨l', hl', wf', hlists⟩ := wf₁.swap_lists hsome
      have hcounted : (l.counted current h).sched = l.sched.counted current h := rfl
      have outcome := Follows.ok (u := u) (a := l.sched) (e := e) ⟨0, none⟩ wf'
        (alike_of_eq rfl)
      rw [behind (Bool.eq_true_of_not_eq_false hused) hcount, hlists, hcounted] at outcome
      simp only [hsome', hl']
      exact outcome

theorem WellFormed.follows_unlock (wf : l.WellFormed) (h : Nat) :
    Follows u l.sched (.unlock h) (l.myPthreadMutexUnlock h) (l.sched.unlock h) := by
  have htable : l.sched.table = l.gMutexTable := rfl
  rw [myPthreadMutexUnlock, Sched.unlock, htable]
  split
  · exact .error .outOfBounds
  split
  · exact .ok ⟨-1, none⟩ wf (alike_of_eq rfl)
  split
  · exact .ok ⟨-1, none⟩ wf (alike_of_eq rfl)
  by_cases hone : (l.gMutexTable h).count = 1
  · simp only [hone, if_true]
    exact .ok ⟨0, none⟩ (wf.setTable _) (alike_of_eq rfl)
  · obtain ⟨q, hq, -, hcurrent, holds⟩ := release_ok wf.holds h
    simp only [hone, if_false, hq, Except.map]
    have hlists : ({ l with
        gMutexTable := l.gMutexTable.setCount h ((l.gMutexTable h).count - 1)
        queues := q } : Library).sched =
        { l.sched.release h with
          table := l.gMutexTable.setCount h ((l.gMutexTable h).count - 1) } := by
      rw [sched_eq _ rfl holds, hcurrent, mu_of_release wf.holds hq]
      rfl
    refine .ok ⟨0, none⟩ ⟨_, _, holds, ?_⟩ (alike_of_eq hlists)
    intro t
    rw [← wf.mem_threads]
    exact (Queues.Links.release_perm hcurrent h).mem_iff

/-- Every call of the library is the call on the lists. -/
theorem WellFormed.follows_call (wf : l.WellFormed) {e : Pthread.Event}
    (enabled : l.Enabled e) : Follows u l.sched e (l.call u e) (l.sched.call e) := by
  cases e with
  | create ti => exact wf.follows_create enabled
  | yield | tick => exact wf.follows_schedule rfl
  | exit => exact wf.follows_exit
  | join thread =>
      refine wf.follows_countAndWait (fun hwaited => ?_) fun _ _ => rfl
      cases hwaited
  | mutexInit => exact wf.follows_mutexInit
  | lock mutex =>
      refine wf.follows_countAndWait (fun hwaited => ?_) fun used counted => ?_
      · simpa [waited, sched] using hwaited
      · have hwaited : waited l.sched (.lock mutex) = true := by
          simpa [waited, sched] using ⟨used, counted⟩
        rw [answer, if_pos hwaited]
  | unlock mutex => exact wf.follows_unlock mutex
  | destroy mutex => exact wf.follows_destroy mutex

end Library

end OsDesign.Code
