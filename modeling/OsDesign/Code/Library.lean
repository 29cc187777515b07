import OsDesign.Lib.Runs
import OsDesign.Pthread.Calls

/-!
The library of `code/my_pthread.c`: the queues and the mutex table of the later
version, with no spinlock and no pages. Its calls keep the two queues as the
later version does. The heap that the end of a thread reclaims is not part of it;
`HeapReclaim` puts the two together.
-/
namespace OsDesign.Code

open Virt Pthread TailQueue

structure Library where
  queues : Queues
  tid : ThreadId → Nat
  gMutexTable : MutexTable
  live : ThreadId → Bool

/-- What C leaves unspecified at a call: the `mu` word of a block from `malloc`,
and the value of a function that ends without `return`. -/
structure Unspecified where
  mu : Nat
  value : Int

def scheduleSection (q : Queues) : Except Fault Queues := do
  let tmp := q.current
  let q ← q.takeFirstReady
  return match tmp with
    | none => q
    | some tmp => q.insertTailReady tmp

def swapSection (q : Queues) : Except Fault Queues := do
  let tmp := q.current
  let q ← q.takeFirstReady
  match tmp with
    | none => .error .nullDereference
    | some tmp => return q.insertTailWait tmp

def releaseThread (mu : Nat) (q : Queues) : Except Fault Queues :=
  Queues.releaseFirst mu q.bound q.gQueueWait.first q

def releaseAllThread (mu : Nat) (q : Queues) : Except Fault Queues :=
  Queues.releaseEach mu q.bound q.gQueueWait.first q

namespace Library

def schedule (l : Library) : Except Fault Library :=
  if l.queues.gQueueReady.first = none then .ok l
  else (scheduleSection l.queues).map fun q => { l with queues := q }

def scheduleSwapCurrentToWait (l : Library) : Except Fault Library :=
  if l.queues.gQueueReady.first = none then .ok l
  else (swapSection l.queues).map fun q => { l with queues := q }

/-- The block is not zeroed, and it is on the ready queue before it has its handle. -/
def myPthreadCreate (u : Unspecified) (ti : ThreadId) (l : Library) :
    Except Fault (Library × Return) :=
  let q := { l.queues with
    mu := Function.update l.queues.mu ti u.mu
    gThreadsCnt := l.queues.gThreadsCnt + 1 }
  match l.gMutexTable.allocMutex with
  | (_, none) => .error .outOfBounds
  | (table, some tid) =>
      .ok ({ l with
        queues := q.insertTailReady ti
        tid := Function.update l.tid ti tid
        gMutexTable := table.setCount tid 1
        live := Function.update l.live ti true }, ⟨0, some tid⟩)

def retired (l : Library) (current : ThreadId) (q : Queues) : Library :=
  { l with
    queues := { q with current := none }
    gMutexTable := l.gMutexTable.freeMutex (l.tid current)
    live := Function.update l.live current false }

/-- What `my_pthread_exit` and the tail of `thread_stub` do to the threads and the table.
Their `reclaim_current_heap`, in front of the `schedule`, is in `Program.call`. -/
def endThread (l : Library) : Except Fault (Library × Return) :=
  match l.queues.current with
  | none => .error .nullDereference
  | some current =>
      match releaseAllThread (l.tid current) l.queues with
      | .error fault => .error fault
      | .ok q =>
          if Pthread.maxMutexNum ≤ l.tid current then .error .outOfBounds
          else (l.retired current q).schedule.map fun l => (l, ⟨0, none⟩)

def counted (l : Library) (current : ThreadId) (h : Nat) : Library :=
  { l with
    gMutexTable := l.gMutexTable.setCount h ((l.gMutexTable h).count + 1)
    queues := { l.queues with mu := Function.update l.queues.mu current h } }

/-- The body of `my_pthread_join` and `my_pthread_mutex_lock`; `value` is what
the call gives back when it waited. -/
def countAndWait (value : Int) (h : Nat) (l : Library) : Except Fault (Library × Return) :=
  if Pthread.maxMutexNum ≤ h then .error .outOfBounds
  else if (l.gMutexTable h).used = false then .ok (l, ⟨-1, none⟩)
  else if (l.gMutexTable h).count = 0 then
    .ok ({ l with gMutexTable := l.gMutexTable.setCount h ((l.gMutexTable h).count + 1) },
      ⟨0, none⟩)
  else
    match l.queues.current with
    | none => .error .nullDereference
    | some current =>
        (l.counted current h).scheduleSwapCurrentToWait.map fun l => (l, ⟨value, none⟩)

def myPthreadJoin (thread : Nat) (l : Library) : Except Fault (Library × Return) :=
  l.countAndWait 0 thread

/-- Behind the wait there is no `return`. -/
def myPthreadMutexLock (u : Unspecified) (mutex : Nat) (l : Library) :
    Except Fault (Library × Return) :=
  l.countAndWait u.value mutex

def myPthreadMutexInit (l : Library) : Except Fault (Library × Return) :=
  match l.gMutexTable.allocMutex with
  | (_, none) => .error .errExit
  | (table, some i) => .ok ({ l with gMutexTable := table }, ⟨0, some i⟩)

def myPthreadMutexUnlock (mutex : Nat) (l : Library) : Except Fault (Library × Return) :=
  if Pthread.maxMutexNum ≤ mutex then .error .outOfBounds
  else if (l.gMutexTable mutex).used = false then .ok (l, ⟨-1, none⟩)
  else if (l.gMutexTable mutex).count = 0 then .ok (l, ⟨-1, none⟩)
  else
    let table := l.gMutexTable.setCount mutex ((l.gMutexTable mutex).count - 1)
    if (l.gMutexTable mutex).count = 1 then .ok ({ l with gMutexTable := table }, ⟨0, none⟩)
    else
      (releaseThread mutex l.queues).map fun q =>
        ({ l with gMutexTable := table, queues := q }, ⟨0, none⟩)

def myPthreadMutexDestroy (mutex : Nat) (l : Library) : Except Fault (Library × Return) :=
  if Pthread.maxMutexNum ≤ mutex then .error .outOfBounds
  else if (l.gMutexTable mutex).used = false then .ok (l, ⟨-1, none⟩)
  else .ok ({ l with gMutexTable := l.gMutexTable.freeMutex mutex }, ⟨0, none⟩)

def call (u : Unspecified) (l : Library) : Pthread.Event → Except Fault (Library × Return)
  | .create ti => l.myPthreadCreate u ti
  | .yield | .tick => l.schedule.map fun l => (l, ⟨0, none⟩)
  | .exit => l.endThread
  | .join thread => l.myPthreadJoin thread
  | .mutexInit => l.myPthreadMutexInit
  | .lock mutex => l.myPthreadMutexLock u mutex
  | .unlock mutex => l.myPthreadMutexUnlock mutex
  | .destroy mutex => l.myPthreadMutexDestroy mutex

def Step (l : Library) (e : Pthread.Event) (l' : Library) : Prop :=
  ∃ u r, l.call u e = .ok (l', r)

def Enabled (l : Library) : Pthread.Event → Prop
  | .create ti => l.live ti = false
  | _ => True

structure Init (main : ThreadId) (l : Library) : Prop where
  current : l.queues.current = some main
  ready : l.queues.gQueueReady = Head.empty
  wait : l.queues.gQueueWait = Head.empty
  unlocked : l.queues.gQueueSpinlock = false
  gThreadsCnt : l.queues.gThreadsCnt = 0
  gMutexTable : l.gMutexTable = fun _ => ⟨false, 0⟩
  live : l.live = fun t => t == main

/-- The state of the library after a start with a zeroed block. -/
def start (main : ThreadId) : Library where
  queues := (System.start main 0).queues
  tid := fun _ => 0
  gMutexTable := fun _ => ⟨false, 0⟩
  live := fun t => t == main

theorem init_start (main : ThreadId) : (start main).Init main :=
  ⟨rfl, rfl, rfl, rfl, rfl, rfl, rfl⟩

end Library

variable {q : Queues} {rs ws : List ThreadId} {t n : ThreadId}

theorem links_of_holds (holds : q.Holds rs ws) : q.Links rs ws :=
  ⟨holds.ready, holds.wait, holds.disjoint⟩

/-- A free spinlock is not touched. -/
theorem holds_of_links {q' : Queues} {rs' ws' : List ThreadId} (links : q'.Links rs' ws')
    (unlocked : q'.gQueueSpinlock = false) (holds : q.Holds rs ws)
    (hcnt : q'.gThreadsCnt = q.gThreadsCnt)
    (perm : (q'.members rs' ws').Perm (q.members rs ws)) : q'.Holds rs' ws' := by
  have hreleased := links.holds holds hcnt perm
  exact ⟨hreleased.ready, hreleased.wait, hreleased.nodup, hreleased.few, unlocked⟩

theorem scheduleSection_ok (holds : q.Holds (n :: rs) ws) :
    ∃ q', scheduleSection q = .ok q' ∧ q'.current = some n ∧
      q'.Holds (rs ++ q.current.toList) ws := by
  obtain ⟨head, htaken, hlinks⟩ := (links_of_holds holds).takeFirstReady
  by_cases hnone : q.current = none
  · have holds' := holds_of_links hlinks holds.unlocked holds rfl (Queues.perm_members (by
      intro a
      simp [hnone]))
    rw [scheduleSection, htaken, hnone, Option.toList_none, List.append_nil]
    exact ⟨_, rfl, rfl, holds'⟩
  · obtain ⟨t, hsome⟩ := Option.ne_none_iff_exists'.mp hnone
    obtain ⟨hr, hw⟩ := holds.notMem_ready hsome
    have hlinks' := hlinks.insertTailReady (fun hmem => hr (List.mem_cons_of_mem n hmem)) hw
    have holds' := holds_of_links hlinks' holds.unlocked holds rfl (Queues.perm_members (by
      intro a
      simp only [hsome, Option.toList_some, List.count_append, List.count_cons, List.count_nil,
        Queues.insertTailReady]
      omega))
    rw [scheduleSection, htaken, hsome, Option.toList_some]
    exact ⟨_, rfl, rfl, holds'⟩

theorem swapSection_ok (holds : q.Holds (n :: rs) ws) (h : q.current = some t) :
    ∃ q', swapSection q = .ok q' ∧ q'.current = some n ∧ q'.Holds rs (ws ++ [t]) := by
  obtain ⟨head, htaken, hlinks⟩ := (links_of_holds holds).takeFirstReady
  obtain ⟨hr, hw⟩ := holds.notMem_ready h
  have hlinks' := hlinks.insertTailWait (fun hmem => hr (List.mem_cons_of_mem n hmem)) hw
  have holds' := holds_of_links hlinks' holds.unlocked holds rfl (Queues.perm_members (by
    intro a
    simp only [h, Option.toList_some, List.count_append, List.count_cons, List.count_nil,
      Queues.insertTailWait]
    omega))
  rw [swapSection, htaken, h]
  exact ⟨_, rfl, rfl, holds'⟩

/-- Both release functions move the first thread that waits on `h`. -/
theorem release_ok (holds : q.Holds rs ws) (h : Nat) :
    ∃ q', releaseThread h q = .ok q' ∧ releaseAllThread h q = .ok q' ∧
      q'.current = q.current ∧
      q'.Holds (rs ++ (ws.find? (q.waitsOn h)).toList) (ws.eraseP (q.waitsOn h)) := by
  obtain ⟨q', hfirst, heach, hlinks, hcurrent, hframe⟩ :=
    (links_of_holds holds).release_cases holds.wait_few h
  refine ⟨q', hfirst, heach, hcurrent, ?_⟩
  refine holds_of_links hlinks ?_ holds hframe.gThreadsCnt
    (Queues.Links.release_perm hcurrent h)
  rw [hframe.gQueueSpinlock, holds.unlocked]

namespace Library

variable {l l' : Library} {u : Unspecified}

/-- The pointers describe two lists, and the threads on them are the live threads. -/
def WellFormed (l : Library) : Prop :=
  ∃ rs ws, l.queues.Holds rs ws ∧ ∀ t, t ∈ l.queues.members rs ws ↔ l.live t = true

theorem WellFormed.schedule (wf : l.WellFormed) : ∃ l', l.schedule = .ok l' ∧ l'.WellFormed := by
  obtain ⟨rs, ws, holds, live⟩ := wf
  cases rs with
  | nil =>
      have hempty : l.queues.gQueueReady.first = none := holds.ready.first_of_nil
      exact ⟨l, by rw [Library.schedule, if_pos hempty], [], ws, holds, live⟩
  | cons next rest =>
      have hfirst : l.queues.gQueueReady.first ≠ none := by
        rw [holds.ready.first]
        simp
      obtain ⟨q, hq, hcurrent, holds'⟩ := scheduleSection_ok holds
      refine ⟨{ l with queues := q }, ?_, rest ++ l.queues.current.toList, ws, holds', ?_⟩
      · rw [Library.schedule, if_neg hfirst, hq]
        rfl
      · intro t
        rw [← live t]
        simp only [Queues.members, hcurrent, Option.toList_some, List.mem_append, List.mem_cons,
          List.not_mem_nil]
        tauto

theorem WellFormed.scheduleSwapCurrentToWait (wf : l.WellFormed) {current : ThreadId}
    (hsome : l.queues.current = some current) :
    ∃ l', l.scheduleSwapCurrentToWait = .ok l' ∧ l'.WellFormed := by
  obtain ⟨rs, ws, holds, live⟩ := wf
  cases rs with
  | nil =>
      have hempty : l.queues.gQueueReady.first = none := holds.ready.first_of_nil
      exact ⟨l, by rw [Library.scheduleSwapCurrentToWait, if_pos hempty], [], ws, holds, live⟩
  | cons next rest =>
      have hfirst : l.queues.gQueueReady.first ≠ none := by
        rw [holds.ready.first]
        simp
      obtain ⟨q, hq, hcurrent, holds'⟩ := swapSection_ok holds hsome
      refine ⟨{ l with queues := q }, ?_, rest, ws ++ [current], holds', ?_⟩
      · rw [Library.scheduleSwapCurrentToWait, if_neg hfirst, hq]
        rfl
      · intro t
        rw [← live t]
        simp only [Queues.members, hcurrent, hsome, Option.toList_some, List.mem_append,
          List.mem_cons, List.not_mem_nil]
        tauto

theorem WellFormed.create (wf : l.WellFormed) {ti : ThreadId} (new : l.live ti = false)
    {r : Return} (h : l.myPthreadCreate u ti = .ok (l', r)) : l'.WellFormed := by
  obtain ⟨rs, ws, holds, live⟩ := wf
  have hfresh : ti ∉ l.queues.members rs ws := by
    intro hmem
    have hlive := (live ti).mp hmem
    simp [new] at hlive
  have hperm : (l.queues.current.toList ++ (rs ++ [ti] ++ ws)).Perm
      (ti :: l.queues.members rs ws) := by
    refine List.perm_iff_count.mpr ?_
    intro a
    simp only [Queues.members, List.count_append, List.count_cons, List.count_nil]
    omega
  have hnot : ti ∉ rs ∧ ti ∉ ws := by
    simp only [Queues.members, List.mem_append, not_or] at hfresh
    exact hfresh.2
  have hlinks : ({ l.queues with
      mu := Function.update l.queues.mu ti u.mu
      gThreadsCnt := l.queues.gThreadsCnt + 1 } : Queues).Links rs ws :=
    ⟨holds.ready, holds.wait, holds.disjoint⟩
  have hlinks' := hlinks.insertTailReady hnot.1 hnot.2
  rw [myPthreadCreate] at h
  cases halloc : l.gMutexTable.allocMutex with
  | mk table handle =>
      cases handle with
      | none => simp [halloc] at h
      | some tid =>
          simp only [halloc, Except.ok.injEq, Prod.mk.injEq] at h
          obtain ⟨rfl, -⟩ := h
          refine ⟨rs ++ [ti], ws, ⟨hlinks'.ready, hlinks'.wait, ?_, ?_, holds.unlocked⟩, ?_⟩
          · exact hperm.nodup_iff.mpr (List.nodup_cons.mpr ⟨hfresh, holds.nodup⟩)
          · refine hperm.length_eq.trans_le ?_
            have hfew := holds.few
            simp only [Queues.bound] at hfew
            exact Nat.succ_le_succ hfew
          · intro t
            change t ∈ l.queues.current.toList ++ (rs ++ [ti] ++ ws) ↔
              Function.update l.live ti true t = true
            rw [hperm.mem_iff]
            by_cases hsame : t = ti
            · simp [hsame]
            · rw [Function.update_of_ne hsame, ← live t]
              simp [hsame]

/-- The thread that exits is on neither queue, so that the others stay linked. -/
theorem WellFormed.retired (wf : l.WellFormed) {current : ThreadId}
    (hsome : l.queues.current = some current) :
    ∃ q, releaseAllThread (l.tid current) l.queues = .ok q ∧
      (l.retired current q).WellFormed := by
  obtain ⟨rs, ws, holds, live⟩ := wf
  obtain ⟨q, -, hq, hcurrent, holds'⟩ := release_ok holds (l.tid current)
  have hperm : (l.queues.members (rs ++ (ws.find? (l.queues.waitsOn (l.tid current))).toList)
      (ws.eraseP (l.queues.waitsOn (l.tid current)))).Perm (l.queues.members rs ws) :=
    Queues.Links.release_perm rfl _
  refine ⟨q, hq, _, _, holds'.leave, ?_⟩
  intro t
  have hmem := (hperm.mem_iff (a := t)).trans (live t)
  have hnodup := hperm.nodup_iff.mpr holds.nodup
  simp only [Queues.members, hsome, Option.toList_some, List.singleton_append,
    List.mem_cons] at hmem hnodup
  change t ∈ [] ++ _ ↔ Function.update l.live current false t = true
  by_cases hsame : t = current
  · subst hsame
    simpa using (List.nodup_cons.mp hnodup).1
  · rw [Function.update_of_ne hsame, List.nil_append, ← hmem]
    simp [hsame]

theorem WellFormed.exit (wf : l.WellFormed) {r : Return} (h : l.endThread = .ok (l', r)) :
    l'.WellFormed := by
  by_cases hnone : l.queues.current = none
  · simp [endThread, hnone] at h
  obtain ⟨current, hsome⟩ := Option.ne_none_iff_exists'.mp hnone
  obtain ⟨q, hq, wf₁⟩ := wf.retired hsome
  obtain ⟨l₁, hschedule, wf₂⟩ := wf₁.schedule
  simp only [endThread, hsome, hq] at h
  by_cases htid : Pthread.maxMutexNum ≤ l.tid current
  · simp [htid] at h
  · rw [if_neg htid, hschedule] at h
    cases h
    exact wf₂

theorem WellFormed.countAndWait (wf : l.WellFormed) {value : Int} {h : Nat} {r : Return}
    (hcall : l.countAndWait value h = .ok (l', r)) : l'.WellFormed := by
  rw [Library.countAndWait] at hcall
  split at hcall
  · cases hcall
  split at hcall
  · cases hcall
    exact wf
  split at hcall
  · cases hcall
    exact wf
  by_cases hnone : l.queues.current = none
  · simp [hnone] at hcall
  obtain ⟨current, hsome⟩ := Option.ne_none_iff_exists'.mp hnone
  have wf₁ : (l.counted current h).WellFormed := by
    obtain ⟨rs, ws, holds, live⟩ := wf
    exact ⟨rs, ws, holds.setMu _, live⟩
  obtain ⟨l₁, hswap, wf₂⟩ := wf₁.scheduleSwapCurrentToWait hsome
  simp only [hsome, hswap] at hcall
  cases hcall
  exact wf₂

theorem WellFormed.unlock (wf : l.WellFormed) {h : Nat} {r : Return}
    (hcall : l.myPthreadMutexUnlock h = .ok (l', r)) : l'.WellFormed := by
  rw [myPthreadMutexUnlock] at hcall
  split at hcall
  · cases hcall
  split at hcall
  · cases hcall
    exact wf
  split at hcall
  · cases hcall
    exact wf
  by_cases hone : (l.gMutexTable h).count = 1
  · simp only [hone, if_true, Except.ok.injEq, Prod.mk.injEq] at hcall
    obtain ⟨rfl, -⟩ := hcall
    exact wf
  · obtain ⟨rs, ws, holds, live⟩ := wf
    obtain ⟨q, hq, -, hcurrent, holds'⟩ := release_ok holds h
    simp only [hone, if_false, hq] at hcall
    cases hcall
    refine ⟨_, _, holds', ?_⟩
    intro t
    rw [← live t]
    exact (Queues.Links.release_perm hcurrent h).mem_iff

theorem WellFormed.call (wf : l.WellFormed) {e : Pthread.Event} (enabled : l.Enabled e)
    {r : Return} (h : l.call u e = .ok (l', r)) : l'.WellFormed := by
  cases e with
  | create ti => exact wf.create enabled h
  | exit => exact wf.exit h
  | join thread => exact wf.countAndWait h
  | lock mutex => exact wf.countAndWait h
  | unlock mutex => exact wf.unlock h
  | yield | tick =>
      obtain ⟨l₁, hschedule, wf₁⟩ := wf.schedule
      rw [Library.call, hschedule] at h
      cases h
      exact wf₁
  | mutexInit =>
      rw [Library.call, myPthreadMutexInit] at h
      split at h
      · cases h
      · cases h
        exact wf
  | destroy mutex =>
      rw [Library.call, myPthreadMutexDestroy] at h
      split at h
      · cases h
      split at h
      · cases h
        exact wf
      · cases h
        exact wf

/-- Every reachable state is well formed. -/
theorem WellFormed.reachable {main : ThreadId}
    (reach : Runs.Reachable (Library.Init main) Library.Enabled Library.Step l) :
    l.WellFormed := by
  refine reach.invariant _ ?_ ?_
  · intro l init
    refine ⟨[], [], ⟨?_, ?_, ?_, ?_, init.unlocked⟩, ?_⟩
    · rw [init.ready]
      exact IsQueue.empty _
    · rw [init.wait]
      exact IsQueue.empty _
    · simp [Queues.members, init.current]
    · simp [Queues.members, Queues.bound, init.current]
    · intro t
      rw [Queues.members, init.current, init.live]
      simp
  · intro l e l' enabled step wf
    obtain ⟨u, r, hcall⟩ := step
    exact wf.call enabled hcall

end Library

end OsDesign.Code
