import OsDesign.Pthread.Simulation

/-!
What a call of the library does to the paging layer, told from the lists alone: nothing,
a switch to the first ready thread, a cleared page table, or the release of the pages of
`CURRENT` and a switch.
-/
namespace OsDesign.Pthread

open Virt

namespace Sched

/-- The switch to the first ready thread. -/
def switched (a : Sched) (p : Process) : Process :=
  match a.ready with
  | [] => p
  | next :: _ => p.switchTo next

def pages (a : Sched) (p : Process) : Event → Process
  | .create ti => p.create ti
  | .yield | .tick => a.switched p
  | .exit =>
      match a.current with
      | none => p
      | some current => (a.retired current).switched (p.retire current)
  | .join h | .lock h =>
      if (a.table h).used = false ∨ (a.table h).count = 0 then p else a.switched p
  | .mutexInit | .unlock _ | .destroy _ => p

end Sched

theorem Queues.addReady_current {q q' : Queues} {t : ThreadId} (h : q.addReady t = .ok q') :
    q'.current = q.current := by
  rw [Queues.addReady, Queues.acquireQueueSpinlock] at h
  split at h
  · cases h
  · cases h
    rfl

namespace System

variable {s s' : System} {r : Return}

theorem WellFormed.schedule_pages (wf : s.WellFormed) (h : s.schedule = .ok s') :
    s'.process = s.sched.switched s.process := by
  obtain ⟨s₁, hs, -, -, hprocess⟩ := wf.schedule
  rw [hs] at h
  cases h
  rw [hprocess]
  rfl

theorem process_of_create {ti : ThreadId} (h : s.myPthreadCreate ti = .ok (s', r)) :
    s'.process = s.process.create ti := by
  rw [myPthreadCreate] at h
  split at h
  · cases h
  · rename_i table tid _
    dsimp only at h
    generalize hadded : Queues.addReady _ ti = added at h
    cases added with
    | error fault => cases h
    | ok q =>
        cases h
        have hcurrent := Queues.addReady_current hadded
        simp only [process, Process.create, hcurrent]
        rfl

theorem WellFormed.countAndWait_pages (wf : s.WellFormed) {n : Nat}
    (h : s.countAndWait n = .ok (s', r)) : s'.process = s.sched.pages s.process (.lock n) := by
  rw [countAndWait] at h
  split at h
  · cases h
  split at h
  · rename_i unused
    cases h
    exact (if_pos (.inl unused)).symm
  split at h
  · rename_i free
    cases h
    exact (if_pos (.inr free)).symm
  rename_i used count
  split at h
  · cases h
  · rename_i current hcurrent
    have wf₁ : (s.counted current n).WellFormed := wf.setMu _ _
    obtain ⟨s₁, hs, -, -, hprocess⟩ := wf₁.scheduleSwapCurrentToWait hcurrent
    rw [hs] at h
    cases h
    have waits : ¬ ((s.sched.table n).used = false ∨ (s.sched.table n).count = 0) :=
      not_or.mpr ⟨used, count⟩
    rw [hprocess, Sched.pages, if_neg waits]
    rfl

theorem WellFormed.exit_pages (wf : s.WellFormed) (h : s.myPthreadExit = .ok (s', r)) :
    s'.process = s.sched.pages s.process .exit := by
  cases hcurrent : s.queues.current with
  | none =>
      simp only [myPthreadExit, hcurrent] at h
      cases h
  | some current =>
      obtain ⟨q, hq, wf₁, hlists⟩ := wf.retired hcurrent
      simp only [myPthreadExit, hcurrent, hq] at h
      split at h
      · cases h
      · cases hs : (s.retired current q).schedule with
        | error fault =>
            rw [hs] at h
            cases h
        | ok s₁ =>
            rw [hs] at h
            cases h
            have hsome : s.sched.current = some current := hcurrent
            rw [wf₁.schedule_pages hs, Sched.pages, hsome, hlists]
            rfl

theorem WellFormed.unlock_pages (wf : s.WellFormed) {n : Nat}
    (h : s.myPthreadMutexUnlock n = .ok (s', r)) : s'.process = s.process := by
  rw [myPthreadMutexUnlock] at h
  split at h
  · cases h
  split at h
  · cases h
    rfl
  split at h
  · cases h
    rfl
  dsimp only at h
  split at h
  · cases h
    rfl
  · obtain ⟨q, hq, hcurrent, -, -⟩ := wf.holds.releaseThread n
    rw [hq] at h
    cases h
    simp [process, hcurrent]

/-- Every call moves the paging layer as the lists tell. -/
theorem WellFormed.call_pages (wf : s.WellFormed) {e : Event} (h : s.call e = .ok (s', r)) :
    s'.process = s.sched.pages s.process e := by
  cases e with
  | create ti => exact process_of_create h
  | yield | tick =>
      cases hs : s.schedule with
      | error fault =>
          simp only [System.call, myPthreadYield, timerHandler, hs] at h
          cases h
      | ok s₁ =>
          simp only [System.call, myPthreadYield, timerHandler, hs] at h
          cases h
          exact wf.schedule_pages hs
  | exit => exact wf.exit_pages h
  | join n | lock n => exact wf.countAndWait_pages h
  | mutexInit =>
      simp only [System.call, myPthreadMutexInit] at h
      split at h
      · cases h
      · cases h
        rfl
  | unlock n => exact wf.unlock_pages h
  | destroy n =>
      simp only [System.call, myPthreadMutexDestroy] at h
      split at h
      · cases h
      split at h
      · cases h
        rfl
      · cases h
        rfl

end System

end OsDesign.Pthread
