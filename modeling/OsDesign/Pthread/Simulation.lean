import OsDesign.Pthread.Sched

/-!
Every call of the library from a well-formed state: the call on the lists has
the same outcome, the state reached is well formed, and the paging layer makes
the steps of one of its runs. The partition of the live threads over `CURRENT`
and the two queues is read off at the end.
-/
namespace OsDesign.Pthread

open Virt TailQueue

namespace System

variable {s s' : System}

/-- The steps of the paging layer behind a call. -/
def PagingRun (s s' : System) : Prop :=
  ∃ es, Runs.Steps Process.Enabled Process.Step s.process es s'.process

theorem PagingRun.of_process_eq (h : s'.process = s.process) : s.PagingRun s' := by
  refine ⟨[], ?_⟩
  rw [h]
  exact .nil _

/-- The outcome of a call in a well-formed state, next to the call on the lists. -/
inductive Matches (s : System) :
    Except Fault (System × Return) → Except Fault (Sched × Return) → Prop
  | error (fault : Fault) : Matches s (.error fault) (.error fault)
  | ok (s' : System) (r : Return) (wf : s'.WellFormed) (paging : s.PagingRun s') :
      Matches s (.ok (s', r)) (.ok (s'.sched, r))

/-- A change outside the queues and the live threads keeps the state well formed. -/
theorem WellFormed.setTable (wf : s.WellFormed) (table : MutexTable) :
    ({ s with gMutexTable := table } : System).WellFormed :=
  ⟨wf.holds, wf.live⟩

theorem WellFormed.setMu (wf : s.WellFormed) (table : MutexTable) (mu : ThreadId → Nat) :
    ({ s with
      gMutexTable := table
      queues := { s.queues with mu := mu } } : System).WellFormed :=
  ⟨wf.holds.setMu mu, wf.live⟩

/-- The switch that `schedule` makes is a step of the process. -/
theorem WellFormed.pagingRun_switchTo (wf : s.WellFormed)
    (h : s'.process = (match s.queues.ready with
      | [] => s.process
      | next :: _ => s.process.switchTo next)) : s.PagingRun s' := by
  cases hready : s.queues.ready with
  | nil =>
      rw [hready] at h
      exact PagingRun.of_process_eq h
  | cons next rest =>
      rw [hready] at h
      refine ⟨[.switchTo next], ?_⟩
      rw [h]
      exact .single (wf.mayRun hready) rfl

theorem WellFormed.matches_schedule (wf : s.WellFormed) :
    Matches s (s.schedule.map fun s => (s, ⟨0, none⟩)) (.ok (s.sched.schedule, ⟨0, none⟩)) := by
  obtain ⟨s', hs', hsched, wf', hprocess⟩ := wf.schedule
  rw [hs', ← hsched]
  exact .ok s' ⟨0, none⟩ wf' (wf.pagingRun_switchTo hprocess)

theorem WellFormed.matches_mutexInit (wf : s.WellFormed) :
    Matches s s.myPthreadMutexInit s.sched.mutexInit := by
  have htable : s.sched.table = s.gMutexTable := rfl
  rw [myPthreadMutexInit, Sched.mutexInit, htable]
  cases s.gMutexTable.allocMutex with
  | mk table handle =>
      cases handle with
      | none => exact .error .errExit
      | some i => exact .ok _ ⟨0, some i⟩ (wf.setTable table) (.of_process_eq rfl)

theorem countAndWait_of_wait {h : Nat} {current : ThreadId} (hh : ¬ maxMutexNum ≤ h)
    (hused : ¬ (s.gMutexTable h).used = false) (hcount : ¬ (s.gMutexTable h).count = 0)
    (hcurrent : s.queues.current = some current) :
    s.countAndWait h =
      (s.counted current h).scheduleSwapCurrentToWait.map fun s => (s, ⟨0, none⟩) := by
  rw [countAndWait, if_neg hh, if_neg hused, if_neg hcount]
  split
  · simp_all
  · rename_i t ht
    obtain rfl : t = current := Option.some.inj (ht.symm.trans hcurrent)
    rfl

theorem WellFormed.matches_countAndWait (wf : s.WellFormed) (h : Nat) :
    Matches s (s.countAndWait h) (s.sched.countAndWait h) := by
  by_cases hh : maxMutexNum ≤ h
  · rw [countAndWait, Sched.countAndWait, if_pos hh, if_pos hh]
    exact .error .outOfBounds
  by_cases hused : (s.gMutexTable h).used = false
  · have hused' : (s.sched.table h).used = false := hused
    rw [countAndWait, Sched.countAndWait, if_neg hh, if_neg hh, if_pos hused, if_pos hused']
    exact .ok s ⟨-1, none⟩ wf (.of_process_eq rfl)
  have hused' : ¬ (s.sched.table h).used = false := hused
  by_cases hcount : (s.gMutexTable h).count = 0
  · have hcount' : (s.sched.table h).count = 0 := hcount
    rw [countAndWait, Sched.countAndWait, if_neg hh, if_neg hh, if_neg hused, if_neg hused',
      if_pos hcount, if_pos hcount']
    exact .ok _ ⟨0, none⟩ (wf.setTable _) (.of_process_eq rfl)
  have hcount' : ¬ (s.sched.table h).count = 0 := hcount
  by_cases hnone : s.queues.current = none
  · have hnone' : s.sched.current = none := hnone
    rw [countAndWait, Sched.countAndWait, if_neg hh, if_neg hh, if_neg hused, if_neg hused',
      if_neg hcount, if_neg hcount', hnone, hnone']
    exact .error .nullDereference
  · obtain ⟨current, hsome⟩ := Option.ne_none_iff_exists'.mp hnone
    have hsome' : s.sched.current = some current := hsome
    have wf₁ : (s.counted current h).WellFormed := wf.setMu _ _
    obtain ⟨s', hs', hsched, wf', hprocess⟩ := wf₁.scheduleSwapCurrentToWait hsome
    rw [countAndWait_of_wait hh hused hcount hsome, Sched.countAndWait, if_neg hh, if_neg hused',
      if_neg hcount', hsome', hs']
    have hlists : (s.sched.counted current h).swap current = s'.sched := hsched.symm
    simp only [hlists]
    exact .ok s' ⟨0, none⟩ wf' (wf₁.pagingRun_switchTo hprocess)

theorem WellFormed.matches_unlock (wf : s.WellFormed) (h : Nat) :
    Matches s (s.myPthreadMutexUnlock h) (s.sched.unlock h) := by
  by_cases hh : maxMutexNum ≤ h
  · rw [myPthreadMutexUnlock, Sched.unlock, if_pos hh, if_pos hh]
    exact .error .outOfBounds
  by_cases hused : (s.gMutexTable h).used = false
  · have hused' : (s.sched.table h).used = false := hused
    rw [myPthreadMutexUnlock, Sched.unlock, if_neg hh, if_neg hh, if_pos hused, if_pos hused']
    exact .ok s ⟨-1, none⟩ wf (.of_process_eq rfl)
  have hused' : ¬ (s.sched.table h).used = false := hused
  by_cases hcount : (s.gMutexTable h).count = 0
  · have hcount' : (s.sched.table h).count = 0 := hcount
    rw [myPthreadMutexUnlock, Sched.unlock, if_neg hh, if_neg hh, if_neg hused, if_neg hused',
      if_pos hcount, if_pos hcount']
    exact .ok s ⟨-1, none⟩ wf (.of_process_eq rfl)
  have hcount' : ¬ (s.sched.table h).count = 0 := hcount
  rw [myPthreadMutexUnlock, Sched.unlock, if_neg hh, if_neg hh, if_neg hused, if_neg hused',
    if_neg hcount, if_neg hcount']
  by_cases hone : (s.gMutexTable h).count = 1
  · have hone' : (s.sched.table h).count = 1 := hone
    simp only [hone, hone', if_true]
    exact .ok _ ⟨0, none⟩ (wf.setTable _) (.of_process_eq rfl)
  · have hone' : ¬ (s.sched.table h).count = 1 := hone
    obtain ⟨q, hq, hcurrent, hframe, holds⟩ := wf.holds.releaseThread h
    simp only [hone, hone', if_false, hq, Except.map]
    have wf' : ({ s with
        gMutexTable := s.gMutexTable.setCount h ((s.gMutexTable h).count - 1)
        queues := q } : System).WellFormed := by
      refine WellFormed.of_holds holds ?_
      intro t
      rw [← wf.live t]
      exact (Queues.Links.release_perm hcurrent h).mem_iff
    have hlists : ({ s.sched.release h with
          table := s.sched.table.setCount h ((s.sched.table h).count - 1) } : Sched) =
        ({ s with
          gMutexTable := s.gMutexTable.setCount h ((s.gMutexTable h).count - 1)
          queues := q } : System).sched := by
      have hsched := sched_eq
        ({ s with
          gMutexTable := s.gMutexTable.setCount h ((s.gMutexTable h).count - 1)
          queues := q } : System) rfl holds
      rw [hsched, hcurrent, hframe.mu]
      rfl
    rw [hlists]
    exact .ok _ ⟨0, none⟩ wf' (.of_process_eq (by simp [process, hcurrent]))

theorem WellFormed.matches_destroy (wf : s.WellFormed) (h : Nat) :
    Matches s (s.myPthreadMutexDestroy h) (s.sched.destroy h) := by
  by_cases hh : maxMutexNum ≤ h
  · rw [myPthreadMutexDestroy, Sched.destroy, if_pos hh, if_pos hh]
    exact .error .outOfBounds
  by_cases hused : (s.gMutexTable h).used = false
  · have hused' : (s.sched.table h).used = false := hused
    rw [myPthreadMutexDestroy, Sched.destroy, if_neg hh, if_neg hh, if_pos hused, if_pos hused']
    exact .ok s ⟨-1, none⟩ wf (.of_process_eq rfl)
  have hused' : ¬ (s.sched.table h).used = false := hused
  rw [myPthreadMutexDestroy, Sched.destroy, if_neg hh, if_neg hh, if_neg hused, if_neg hused']
  exact .ok _ ⟨0, none⟩ (wf.setTable _) (.of_process_eq rfl)

theorem WellFormed.matches_create (wf : s.WellFormed) {ti : ThreadId}
    (new : s.live ti = false) : Matches s (s.myPthreadCreate ti) (s.sched.create ti) := by
  have htable : s.sched.table = s.gMutexTable := rfl
  rw [myPthreadCreate, Sched.create, htable]
  cases s.gMutexTable.allocMutex with
  | mk table handle =>
  cases handle with
  | none => exact .error .outOfBounds
  | some tid =>
      have hfresh : ti ∉ s.queues.members s.queues.ready s.queues.wait := wf.notMem_threads new
      have holds₀ : (s.allocThreadInfo ti).queues.Holds s.queues.ready s.queues.wait :=
        (wf.holds.setList hfresh none).setMu _
      obtain ⟨q, hq, hcurrent, holds, hmu⟩ := holds₀.addReady hfresh
      simp only [hq, Except.map]
      have hlists : ({ s.sched with
          ready := s.sched.ready ++ [ti]
          mu := Function.update s.sched.mu ti 0
          tid := Function.update s.sched.tid ti tid
          table := table.setCount tid 1
          live := Function.update s.sched.live ti true } : Sched) =
          ({ s.allocThreadInfo ti with
            queues := q
            tid := Function.update (s.allocThreadInfo ti).tid ti tid
            gMutexTable := table.setCount tid 1 } : System).sched := by
        have hsched := sched_eq
          ({ s.allocThreadInfo ti with
            queues := q
            tid := Function.update (s.allocThreadInfo ti).tid ti tid
            gMutexTable := table.setCount tid 1 } : System) rfl holds
        rw [hsched, hcurrent, hmu]
        simp [allocThreadInfo, sched]
      rw [hlists]
      refine .ok _ ⟨0, some tid⟩ (WellFormed.of_holds holds ?_) ⟨[.create ti], ?_⟩
      · intro t
        change t ∈ q.current.toList ++ _ ↔ Function.update s.live ti true t = true
        rw [hcurrent]
        change t ∈ s.queues.current.toList ++ _ ↔ _
        by_cases hsame : t = ti
        · simp [hsame]
        · rw [Function.update_of_ne hsame, ← wf.live t]
          simp [Sched.threads, sched, hsame]
      · refine .single new ?_
        simp [Process.Step, Process.next, Process.create, process, allocThreadInfo, hcurrent]

theorem myPthreadExit_of_some {current : ThreadId} {q : Queues}
    (hcurrent : s.queues.current = some current)
    (hq : s.queues.releaseAllThread (s.tid current) = .ok q)
    (htid : ¬ maxMutexNum ≤ s.tid current) :
    s.myPthreadExit = (s.retired current q).schedule.map fun s => (s, ⟨0, none⟩) := by
  rw [myPthreadExit]
  split
  · simp_all
  · rename_i t ht
    obtain rfl : t = current := Option.some.inj (ht.symm.trans hcurrent)
    rw [hq]
    simp only [htid, if_false]

/-- The end of `CURRENT` on the lists, in front of the choice of the next thread. -/
theorem WellFormed.retired (wf : s.WellFormed) {current : ThreadId}
    (hsome : s.queues.current = some current) :
    ∃ q, s.queues.releaseAllThread (s.tid current) = .ok q ∧ (s.retired current q).WellFormed ∧
      (s.retired current q).sched = s.sched.retired current := by
  obtain ⟨q, hq, hcurrent, hframe, holds⟩ := wf.holds.releaseAllThread (s.tid current)
  have hperm : (s.queues.members (s.queues.ready ++ (s.queues.wait.find?
      (s.queues.waitsOn (s.tid current))).toList) (s.queues.wait.eraseP
        (s.queues.waitsOn (s.tid current)))).Perm
      (s.queues.members s.queues.ready s.queues.wait) := Queues.Links.release_perm rfl _
  refine ⟨q, hq, WellFormed.of_holds holds.leave ?_, ?_⟩
  · intro t
    have hmem := (hperm.mem_iff (a := t)).trans (wf.live t)
    have hnodup := hperm.nodup_iff.mpr wf.holds.nodup
    simp only [Queues.members, hsome, Option.toList_some, List.singleton_append,
      List.mem_cons] at hmem hnodup
    change t ∈ [] ++ _ ↔ Function.update s.live current false t = true
    by_cases hsame : t = current
    · subst hsame
      simpa using (List.nodup_cons.mp hnodup).1
    · rw [Function.update_of_ne hsame, List.nil_append, ← hmem]
      simp [hsame]
  · have hsched := sched_eq (s.retired current q) rfl holds.leave
    rw [hsched]
    simp only [System.retired, hframe.mu]
    rfl

theorem WellFormed.matches_exit (wf : s.WellFormed) :
    Matches s s.myPthreadExit s.sched.exit := by
  by_cases hnone : s.queues.current = none
  · have hnone' : s.sched.current = none := hnone
    rw [myPthreadExit, Sched.exit, hnone, hnone']
    exact .error .nullDereference
  obtain ⟨current, hsome⟩ := Option.ne_none_iff_exists'.mp hnone
  have hsome' : s.sched.current = some current := hsome
  obtain ⟨q, hq, wf₁, hlists⟩ := wf.retired hsome
  by_cases htid : maxMutexNum ≤ s.tid current
  · have htid' : maxMutexNum ≤ s.sched.tid current := htid
    have hfault : s.myPthreadExit = .error .outOfBounds := by
      simp [myPthreadExit, hsome, hq, htid]
    rw [hfault, Sched.exit, hsome']
    simp only [htid', if_true]
    exact .error .outOfBounds
  have htid' : ¬ maxMutexNum ≤ s.sched.tid current := htid
  obtain ⟨s', hs', hsched, wf', hprocess⟩ := wf₁.schedule
  rw [myPthreadExit_of_some hsome hq htid, Sched.exit, hsome', hs']
  simp only [htid', if_false, ← hlists, ← hsched]
  refine .ok s' ⟨0, none⟩ wf' ?_
  have hexit : ∀ next, s.process.exit next = .ok
      (next.elim (s.process.retire current) (s.process.retire current).enter) := by
    intro next
    have hrunning : s.process.current = some current := hsome
    rw [Process.exit, hrunning]
    cases next <;> rfl
  cases hready : (s.retired current q).queues.ready with
  | nil =>
      rw [hready] at hprocess
      refine ⟨[.exit none], .single (fun t ht => by cases ht) ?_⟩
      rw [Process.Step, Process.next, hexit, hprocess]
      rfl
  | cons next rest =>
      rw [hready] at hprocess
      have hlive := (wf₁.mayRun hready).1
      have hne : next ≠ current := by
        intro same
        change Function.update s.live current false next = true at hlive
        simp [same] at hlive
      refine ⟨[.exit (some next)], .single ?_ ?_⟩
      · intro t ht
        obtain rfl : next = t := Option.some.inj ht
        refine ⟨?_, ?_⟩
        · change Function.update s.live current false next = true at hlive
          rwa [Function.update_of_ne hne] at hlive
        · change s.queues.current ≠ some next
          rw [hsome]
          exact fun same => hne (Option.some.inj same).symm
      · rw [Process.Step, Process.next, hexit, hprocess]
        change _ = Except.ok ((s.retired current q).process.switchTo next)
        rw [Process.switchTo_of_none rfl]
        rfl

/-- Every call of the library is the call on the lists. -/
theorem WellFormed.matches_call (wf : s.WellFormed) {e : Event} (enabled : s.Enabled e) :
    Matches s (s.call e) (s.sched.call e) := by
  cases e with
  | create ti => exact wf.matches_create enabled
  | yield => exact wf.matches_schedule
  | tick => exact wf.matches_schedule
  | exit => exact wf.matches_exit
  | join thread => exact wf.matches_countAndWait thread
  | mutexInit => exact wf.matches_mutexInit
  | lock mutex => exact wf.matches_countAndWait mutex
  | unlock mutex => exact wf.matches_unlock mutex
  | destroy mutex => exact wf.matches_destroy mutex

/-- A call that comes back is the call on the lists, with the same value. -/
theorem WellFormed.call_ok (wf : s.WellFormed) {e : Event} (enabled : s.Enabled e) {r : Return}
    (h : s.call e = .ok (s', r)) :
    s.sched.call e = .ok (s'.sched, r) ∧ s'.WellFormed ∧ s.PagingRun s' := by
  have hmatches := wf.matches_call enabled
  rw [h] at hmatches
  generalize hlists : s.sched.call e = outcome at hmatches
  cases hmatches with
  | ok _ _ wf' paging => exact ⟨rfl, wf', paging⟩

/-- A call comes back if the call on the lists does. -/
theorem WellFormed.call_of_sched (wf : s.WellFormed) {e : Event} (enabled : s.Enabled e)
    {a : Sched} {r : Return} (h : s.sched.call e = .ok (a, r)) :
    ∃ s', s.call e = .ok (s', r) ∧ s'.sched = a := by
  have hmatches := wf.matches_call enabled
  rw [h] at hmatches
  generalize hcall : s.call e = outcome at hmatches
  cases hmatches with
  | ok s' _ _ _ => exact ⟨s', rfl, rfl⟩

theorem Init.holds {main : ThreadId} (init : s.Init main) : s.queues.Holds [] [] := by
  refine ⟨?_, ?_, ?_, ?_, init.unlocked⟩
  · rw [init.ready]
    exact IsQueue.empty _
  · rw [init.wait]
    exact IsQueue.empty _
  · simp [Queues.members, init.current]
  · simp [Queues.members, Queues.bound, init.current]

theorem Init.wellFormed {main : ThreadId} (init : s.Init main) : s.WellFormed := by
  refine WellFormed.of_holds init.holds ?_
  intro t
  rw [Queues.members, init.current, init.live]
  simp

/-- Every reachable state is well formed. -/
theorem WellFormed.reachable {main : ThreadId}
    (reach : Runs.Reachable (System.Init main) System.Enabled System.Step s) : s.WellFormed := by
  refine reach.invariant _ (fun s init => init.wellFormed) ?_
  intro s e s' enabled step wf
  obtain ⟨r, hcall⟩ := step
  exact (wf.call_ok enabled hcall).2.1

theorem Init.process_eq {main : ThreadId} (init : s.Init main) :
    s.process = Process.start main := by
  simp [process, Process.start, init.vm, init.current, init.live, init.entered]

/-- What the library does to the pages is a run of the paging layer. -/
theorem process_reachable {main : ThreadId}
    (reach : Runs.Reachable (System.Init main) System.Enabled System.Step s) :
    Runs.Reachable (fun p => p = Process.start main) Process.Enabled Process.Step s.process := by
  have both : s.WellFormed ∧
      Runs.Reachable (fun p => p = Process.start main) Process.Enabled Process.Step s.process := by
    refine reach.invariant (fun s => s.WellFormed ∧ Runs.Reachable
      (fun p => p = Process.start main) Process.Enabled Process.Step s.process) ?_ ?_
    · intro s init
      exact ⟨init.wellFormed, .start init.process_eq⟩
    · intro s e s' enabled step before
      obtain ⟨r, hcall⟩ := step
      obtain ⟨-, wf', es, run⟩ := before.1.call_ok enabled hcall
      exact ⟨wf', before.2.extend run⟩
  exact both.2

/-- The queues are chains of their elements, and `CURRENT` and the two queues
together hold every live thread once and no other thread. -/
structure Partitioned (s : System) : Prop where
  ready : IsQueue s.queues.list s.queues.gQueueReady s.queues.ready
  wait : IsQueue s.queues.list s.queues.gQueueWait s.queues.wait
  once : ∀ t, (s.queues.current.toList ++ (s.queues.ready ++ s.queues.wait)).count t =
    if s.live t = true then 1 else 0

theorem WellFormed.partitioned (wf : s.WellFormed) : s.Partitioned := by
  refine ⟨wf.holds.ready, wf.holds.wait, ?_⟩
  intro t
  by_cases hlive : s.live t = true
  · rw [if_pos hlive]
    exact List.count_eq_one_of_mem wf.holds.nodup ((wf.live t).mpr hlive)
  · rw [if_neg hlive]
    exact List.count_eq_zero_of_not_mem fun hmem => hlive ((wf.live t).mp hmem)

/-- No thread is lost or duplicated by the scheduler. -/
theorem partitioned_of_reachable {main : ThreadId}
    (reach : Runs.Reachable (System.Init main) System.Enabled System.Step s) : s.Partitioned :=
  (WellFormed.reachable reach).partitioned

/-- Two threads are created, one is joined, the other runs and ends. -/
theorem partitioned_after_exit :
    ∃ s, (start 0 0).execute [.create 1, .create 2, .join 1, .yield, .exit] = some s ∧
      s.Partitioned := by
  have hruns : ((start 0 0).execute [.create 1, .create 2, .join 1, .yield, .exit]).isSome :=
    by decide +kernel
  obtain ⟨s, hs⟩ := Option.isSome_iff_exists.mp hruns
  exact ⟨s, hs, partitioned_of_reachable (reachable_of_execute hs)⟩

end System

end OsDesign.Pthread
