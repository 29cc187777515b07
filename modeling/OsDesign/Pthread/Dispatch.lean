import OsDesign.Lib.Fifo
import OsDesign.Pthread.Ledger
import Mathlib.Data.List.Rotate

/-!
The order in which the scheduler takes threads from `g_queue_ready`. Every call
serves the queue from its head and adds at its tail, so a ready thread is
overtaken by nobody. Yields alone turn the line of the ready threads and
`CURRENT` around once, unless `CURRENT` is null because the thread that runs
has ended and came back from its last `schedule()`.
-/
namespace OsDesign.Pthread

open Virt

namespace Sched

variable {a a' : Sched} {r : Return} {c t : ThreadId}

/-- The thread that a call sets `CURRENT` to, from the head of the ready queue.
An empty queue is left alone, and a lock or a join goes to the scheduler only
for a used entry whose count is not 0. -/
def dispatched (a : Sched) : Event → Option ThreadId
  | .yield | .tick => a.ready.head?
  | .exit =>
      match a.current with
      | none => none
      -- the end of a thread wakes a joiner in front of its `schedule`
      | some current => (a.retired current).ready.head?
  | .join h | .lock h =>
      if (a.table h).used = false ∨ (a.table h).count = 0 then none else a.ready.head?
  | .create _ | .mutexInit | .unlock _ | .destroy _ => none

theorem schedule_serves (a : Sched) : Fifo.Serves a.ready a.ready.head? a.schedule.ready := by
  cases hready : a.ready with
  | nil => simpa [schedule, hready] using Fifo.Serves.kept ([] : List ThreadId)
  | cons next rest => simpa [schedule, hready] using Fifo.Serves.head next rest _

theorem swap_serves (a : Sched) (tmp : ThreadId) :
    Fifo.Serves a.ready a.ready.head? (a.swap tmp).ready := by
  cases hready : a.ready with
  | nil => simpa [swap, hready] using Fifo.Serves.kept ([] : List ThreadId)
  | cons next rest => simpa [swap, hready] using Fifo.Serves.head next rest []

theorem countAndWait_serves {h : Nat} (call : a.countAndWait h = .ok (a', r)) :
    Fifo.Serves a.ready (a.dispatched (.lock h)) a'.ready := by
  by_cases hh : maxMutexNum ≤ h
  · rw [countAndWait, if_pos hh] at call
    cases call
  by_cases hused : (a.table h).used = false
  · rw [countAndWait, if_neg hh, if_pos hused] at call
    cases call
    simpa [dispatched, hused] using Fifo.Serves.kept a.ready
  by_cases hcount : (a.table h).count = 0
  · rw [countAndWait, if_neg hh, if_neg hused, if_pos hcount] at call
    cases call
    simpa [dispatched, hcount] using Fifo.Serves.kept a.ready
  · rw [countAndWait, if_neg hh, if_neg hused, if_neg hcount] at call
    cases hcurrent : a.current with
    | none => simp [hcurrent] at call
    | some current =>
        simp only [hcurrent, Except.ok.injEq, Prod.mk.injEq] at call
        have served := (a.counted current h).swap_serves current
        rw [call.1] at served
        have waits : ¬ ((a.table h).used = false ∨ (a.table h).count = 0) := by tauto
        rw [dispatched, if_neg waits]
        exact served

theorem dispatched_of_handle {e : Event} {h : Nat} (handle : e.handle = some h)
    (quiet : e.waits = none) : a.dispatched e = none := by
  cases e <;> simp_all [Event.handle, Event.waits, dispatched]

/-- Every call serves the ready queue from its head. -/
theorem call_serves {e : Event} (h : a.call e = .ok (a', r)) :
    Fifo.Serves a.ready (a.dispatched e) a'.ready := by
  cases hwaits : e.waits with
  | some k =>
      cases e with
      | join thread | lock mutex => exact countAndWait_serves h
      | create _ | yield | tick | exit | mutexInit | unlock _ | destroy _ => cases hwaits
  | none =>
      cases call_effect h with
      | refused handle =>
          rw [dispatched_of_handle handle hwaits]
          exact Fifo.Serves.kept a.ready
      | created ti i => exact Fifo.Serves.added a.ready [ti]
      | switched he =>
          cases he with
          | inl yield => exact yield ▸ a.schedule_serves
          | inr tick => exact tick ▸ a.schedule_serves
      | exited t running =>
          simpa only [dispatched, running] using (a.retired t).schedule_serves.of_append
      | took waits | passed waits | parked waits => cases hwaits.symm.trans waits
      | handedOver k => exact Fifo.Serves.added a.ready _
      | initialised | unlocked | destroyed => exact Fifo.Serves.kept a.ready

theorem schedule_current (a : Sched) : a.schedule.current = a.ready.head?.or a.current := by
  cases hready : a.ready <;> simp [schedule, hready]

theorem swap_current (a : Sched) (tmp : ThreadId) :
    (a.swap tmp).current = a.ready.head?.or a.current := by
  cases hready : a.ready <;> simp [swap, hready]

theorem countAndWait_current {h : Nat} (call : a.countAndWait h = .ok (a', r)) :
    a'.current = (a.dispatched (.lock h)).or a.current := by
  by_cases hh : maxMutexNum ≤ h
  · simp [countAndWait, hh] at call
  by_cases hused : (a.table h).used = false
  · rw [countAndWait, if_neg hh, if_pos hused] at call
    cases call
    simp [dispatched, hused]
  by_cases hcount : (a.table h).count = 0
  · rw [countAndWait, if_neg hh, if_neg hused, if_pos hcount] at call
    cases call
    simp [dispatched, hcount]
  · rw [countAndWait, if_neg hh, if_neg hused, if_neg hcount] at call
    have waits : ¬ ((a.table h).used = false ∨ (a.table h).count = 0) := by tauto
    rw [dispatched, if_neg waits]
    split at call
    · cases call
    · simp only [Except.ok.injEq, Prod.mk.injEq] at call
      rw [← call.1, swap_current]
      rfl

/-- A call sets `CURRENT` to the thread it takes from the ready queue; if it
takes none, `CURRENT` stays, or the thread has ended and it is null. -/
theorem call_current {e : Event} (h : a.call e = .ok (a', r)) :
    a'.current = (a.dispatched e).or (if e = .exit then none else a.current) := by
  cases hwaits : e.waits with
  | some k =>
      cases e with
      | join thread | lock mutex => exact countAndWait_current h
      | create _ | yield | tick | exit | mutexInit | unlock _ | destroy _ => cases hwaits
  | none =>
      cases call_effect h with
      | refused handle =>
          have other : e ≠ .exit := by
            intro same
            simp [same, Event.handle] at handle
          rw [dispatched_of_handle handle hwaits, if_neg other]
          rfl
      | switched he =>
          cases he with
          | inl yield => exact yield ▸ a.schedule_current
          | inr tick => exact tick ▸ a.schedule_current
      | exited t running =>
          rw [schedule_current, dispatched, running]
          rfl
      | took waits | passed waits | parked waits => cases hwaits.symm.trans waits
      | created | initialised | unlocked | handedOver | destroyed => rfl

/-- The line at a yield: the ready threads, then `CURRENT`. -/
def line (a : Sched) : List ThreadId := a.ready ++ a.current.toList

theorem line_schedule (running : a.current ≠ none) : a.schedule.line = a.line.rotate 1 := by
  obtain ⟨c, hc⟩ := Option.ne_none_iff_exists'.mp running
  cases hready : a.ready with
  | nil => simp [line, schedule, hready, hc]
  | cons next rest => simp [line, schedule, hready, hc, List.rotate_cons_succ]

end Sched

namespace System

/-- The thread that a call dispatches. -/
def dispatched (s : System) (e : Event) : Option ThreadId := s.sched.dispatched e

/-- The calls from `s` on, with the threads they dispatch. -/
def Dispatches (s : System) (es : List Event) (l : Fifo.Logged System ThreadId) : Prop :=
  Runs.Steps (fun l e => l.state.Enabled e) (Fifo.Logged.Step Step dispatched) ⟨s, []⟩ es l

/-- Whatever is called, the thread at position `k` of the ready queue is
dispatched at turn `k`, behind exactly the threads that stood in front of it. -/
def FirstInFirstOut (s : System) : Prop :=
  ∀ es l, s.Dispatches es l → ∀ k t, s.queues.ready[k]? = some t →
    (∀ i, i < k → i < l.taken.length → l.taken[i]? = s.queues.ready[i]?) ∧
    (k < l.taken.length → l.taken[k]? = some t)

/-- What a call dispatches is what it sets `CURRENT` to. -/
def SetsCurrent (s : System) : Prop :=
  ∀ e s', s.Enabled e → s.Step e s' →
    s'.queues.current = (s.dispatched e).or (if e = .exit then none else s.queues.current)

/-- As many yields as there are threads in the line bring `CURRENT` and the
ready queue back, and every one of these threads had the processor once. -/
def YieldsRestore (s : System) : Prop :=
  ∃ l, s.Dispatches (List.replicate (s.queues.ready.length + 1) .yield) l ∧
    l.state.queues.current = s.queues.current ∧ l.state.queues.ready = s.queues.ready ∧
    (s.queues.ready ≠ [] → l.taken = s.queues.ready ++ s.queues.current.toList)

variable {s s' : System}

theorem WellFormed.firstInFirstOut (wf : s.WellFormed) : s.FirstInFirstOut := by
  intro es l run
  have line : s.queues.ready.IsPrefix (l.taken ++ l.state.queues.ready) := by
    refine Fifo.prefix_of_steps (fun s => s.queues.ready) WellFormed ?_ ?_ wf run
    · intro s e s' wf enabled step
      obtain ⟨r, call⟩ := step
      exact (wf.call_ok enabled call).2.1
    · intro s e s' wf enabled step
      obtain ⟨r, call⟩ := step
      exact Sched.call_serves (wf.call_ok enabled call).1
  intro k t position
  refine ⟨?_, fun turn => Fifo.taken_of_prefix line position turn⟩
  intro i hi turn
  have inLine : i < s.queues.ready.length := hi.trans (List.getElem?_eq_some_iff.mp position).1
  rw [List.getElem?_eq_getElem inLine]
  exact Fifo.taken_of_prefix line (List.getElem?_eq_getElem inLine) turn

theorem WellFormed.setsCurrent (wf : s.WellFormed) : s.SetsCurrent := by
  intro e s' enabled step
  obtain ⟨r, call⟩ := step
  exact Sched.call_current (wf.call_ok enabled call).1

theorem WellFormed.yield (wf : s.WellFormed) :
    ∃ s', s.Step .yield s' ∧ s'.sched = s.sched.schedule ∧ s'.WellFormed := by
  obtain ⟨s', hs', hsched, wf', -⟩ := wf.schedule
  refine ⟨s', ⟨⟨0, none⟩, ?_⟩, hsched, wf'⟩
  rw [call, myPthreadYield, hs']
  rfl

/-- The line after `n` yields, and the threads that were dispatched. -/
theorem WellFormed.yields (wf : s.WellFormed) (running : s.queues.current ≠ none)
    (log : List ThreadId) (n : Nat) :
    ∃ l, Runs.Steps (fun l e => l.state.Enabled e) (Fifo.Logged.Step Step dispatched) ⟨s, log⟩
        (List.replicate n .yield) l ∧
      l.state.queues.current ≠ none ∧ l.state.sched.line = s.sched.line.rotate n ∧
      (s.queues.ready ≠ [] → n ≤ s.sched.line.length → l.taken = log ++ s.sched.line.take n) := by
  induction n generalizing s log with
  | zero =>
      refine ⟨⟨s, log⟩, .nil _, running, ?_, ?_⟩
      · rw [List.rotate_zero]
      · simp
  | succ n ih =>
      obtain ⟨s', step, hsched, wf'⟩ := wf.yield
      have hready : s'.queues.ready = s.sched.schedule.ready := congrArg Sched.ready hsched
      have hcurrent : s'.queues.current = s.queues.ready.head?.or s.queues.current :=
        (congrArg Sched.current hsched).trans s.sched.schedule_current
      have running' : s'.queues.current ≠ none := by
        rw [hcurrent]
        simp [running]
      have hline : s'.sched.line = s.sched.line.rotate 1 := by
        rw [hsched]
        exact Sched.line_schedule running
      obtain ⟨l, run, hrunning, hrotated, htaken⟩ :=
        ih wf' running' (log ++ (s.dispatched .yield).toList)
      refine ⟨l, .cons trivial ⟨step, rfl⟩ run, hrunning, ?_, ?_⟩
      · rw [hrotated, hline, List.rotate_rotate, Nat.add_comm]
      · intro ready few
        cases hr : s.queues.ready with
        | nil => exact absurd hr ready
        | cons next rest =>
            have hlist : s.sched.line = next :: (rest ++ s.queues.current.toList) := by
              change s.queues.ready ++ _ = _
              rw [hr]
              rfl
            have ready' : s'.queues.ready ≠ [] := by
              obtain ⟨c, hc⟩ := Option.ne_none_iff_exists'.mp running
              have hcons : s.sched.ready = next :: rest := hr
              have hc' : s.sched.current = some c := hc
              rw [hready, Sched.schedule, hcons]
              simp [hc']
            have taken := htaken ready' (by
              rw [hline, List.length_rotate]
              exact Nat.le_of_succ_le few)
            have hdispatched : s.dispatched .yield = some next := by
              change s.queues.ready.head? = _
              rw [hr]
              rfl
            rw [hlist, List.length_cons] at few
            rw [taken, hdispatched, hline, hlist, List.rotate_cons_succ, List.rotate_zero,
              List.take_append_of_le_length (Nat.le_of_succ_le_succ few), List.take_succ_cons]
            simp

/-- Once a thread was dispatched, yields leave `CURRENT` a thread. -/
theorem WellFormed.current_of_yields (wf : s.WellFormed) {n : Nat} {log : List ThreadId}
    {l : Fifo.Logged System ThreadId}
    (turn : s.queues.current ≠ none ∨ (s.queues.ready ≠ [] ∧ 0 < n))
    (run : Runs.Steps (fun l e => l.state.Enabled e) (Fifo.Logged.Step Step dispatched) ⟨s, log⟩
      (List.replicate n .yield) l) : l.state.queues.current ≠ none := by
  induction n generalizing s log with
  | zero =>
      cases run with
      | nil =>
          cases turn with
          | inl running => exact running
          | inr waiting => exact absurd waiting.2 (Nat.lt_irrefl 0)
  | succ n ih =>
      cases run with
      | @cons _ l' _ _ _ permitted taken rest =>
          obtain ⟨⟨r, call⟩, -⟩ := taken
          obtain ⟨hcall, wf', -⟩ := wf.call_ok permitted call
          refine ih wf' (.inl ?_) rest
          have hcurrent := Sched.call_current hcall
          change l'.state.queues.current = s.queues.ready.head?.or s.queues.current at hcurrent
          rw [hcurrent]
          cases turn with
          | inl running => simp [running]
          | inr waiting => simp [waiting.1]

/-- Yields alone restore the line exactly if `CURRENT` is a thread, or there is
nothing to restore. -/
theorem WellFormed.yieldsRestore_iff (wf : s.WellFormed) :
    s.YieldsRestore ↔ s.queues.current ≠ none ∨ s.queues.ready = [] := by
  constructor
  · intro restored
    obtain ⟨l, run, hcurrent, -, -⟩ := restored
    by_cases hready : s.queues.ready = []
    · exact .inr hready
    · have running := wf.current_of_yields (.inr ⟨hready, Nat.succ_pos _⟩) run
      rw [hcurrent] at running
      exact .inl running
  · intro turn
    by_cases running : s.queues.current = none
    · have hready : s.queues.ready = [] := turn.resolve_left fun h => h running
      obtain ⟨s', step, hsched, -⟩ := wf.yield
      have hnil : s.sched.ready = [] := hready
      have hsame : s'.sched = s.sched := by rw [hsched, Sched.schedule, hnil]
      refine ⟨⟨s', (s.dispatched .yield).toList⟩, ?_, congrArg Sched.current hsame,
        congrArg Sched.ready hsame, fun h => absurd hready h⟩
      rw [hready]
      exact .single trivial ⟨step, rfl⟩
    · obtain ⟨c, hc⟩ := Option.ne_none_iff_exists'.mp running
      obtain ⟨l, run, hrunning, hline, htaken⟩ :=
        wf.yields running [] (s.queues.ready.length + 1)
      have hlength : s.sched.line.length = s.queues.ready.length + 1 := by
        change (s.queues.ready ++ s.queues.current.toList).length = _
        simp [hc]
      rw [← hlength, List.rotate_length] at hline
      obtain ⟨c', hc'⟩ := Option.ne_none_iff_exists'.mp hrunning
      change l.state.queues.ready ++ l.state.queues.current.toList =
        s.queues.ready ++ s.queues.current.toList at hline
      rw [hc, hc'] at hline
      obtain ⟨hready, hlast⟩ := List.append_inj' hline rfl
      refine ⟨l, run, ?_, hready, ?_⟩
      · rw [hc, hc']
        exact congrArg some (List.singleton_inj.mp hlast)
      · intro ready
        have taken := htaken ready (Nat.le_of_eq hlength.symm)
        rw [← hlength, List.take_length, List.nil_append] at taken
        exact taken

end System

/-- Behind the release of a joiner a thread is ready exactly if one was before,
or one waits for the thread that ends. -/
theorem Sched.ready_retired (a : Sched) (current : ThreadId) :
    (a.retired current).ready ≠ [] ↔
      a.ready ≠ [] ∨ ∃ t, t ∈ a.wait ∧ a.mu t = a.tid current := by
  have hready : (a.retired current).ready =
      a.ready ++ (a.wait.find? (a.waitsOn (a.tid current))).toList := rfl
  rw [hready, Ne, List.append_eq_nil_iff, Option.toList_eq_nil_iff, List.find?_eq_none, not_and_or]
  refine or_congr Iff.rfl ?_
  simp only [not_forall, exists_prop, not_not]
  refine exists_congr fun t => and_congr_right fun _ => ?_
  rw [waitsOn, beq_iff_eq]
  exact eq_comm

namespace System

variable {s s' : System}

/-- A thread ends only while another thread is ready or waits for it. -/
def Relieved (s : System) (e : Event) : Prop :=
  e = .exit → ∀ current, s.queues.current = some current →
    s.queues.ready ≠ [] ∨ ∃ t, t ∈ s.queues.wait ∧ s.queues.mu t = s.tid current

/-- As long as every thread that ends is relieved, `CURRENT` is a thread. -/
theorem current_of_relieved {main : ThreadId}
    (reach : Runs.Reachable (Init main) (fun s e => s.Enabled e ∧ s.Relieved e) Step s) :
    s.queues.current ≠ none := by
  have both : s.WellFormed ∧ s.queues.current ≠ none := by
    refine reach.invariant (fun s => s.WellFormed ∧ s.queues.current ≠ none) ?_ ?_
    · intro s init
      refine ⟨init.wellFormed, ?_⟩
      simp [init.current]
    · intro s e s' permitted step before
      obtain ⟨r, call⟩ := step
      obtain ⟨hcall, wf', -⟩ := before.1.call_ok permitted.1 call
      refine ⟨wf', ?_⟩
      have hcurrent := Sched.call_current hcall
      change s'.queues.current = _ at hcurrent
      rw [hcurrent]
      by_cases hexit : e = .exit
      · obtain ⟨current, running⟩ := Option.ne_none_iff_exists'.mp before.2
        have ready := (s.sched.ready_retired current).mpr (permitted.2 hexit current running)
        have running' : s.sched.current = some current := running
        subst hexit
        simpa [Sched.dispatched, running'] using ready
      · rw [if_neg hexit, Ne, Option.or_eq_none_iff, not_and]
        exact fun _ => before.2
  exact both.2

/-- Dispatch is first in, first out from every reachable state, and sets `CURRENT`;
yields restore the line where `CURRENT` is a thread, which holds as long as every
thread that ends is relieved. -/
theorem dispatch_in_order {main : ThreadId}
    (reach : Runs.Reachable (Init main) Enabled Step s) :
    s.FirstInFirstOut ∧ s.SetsCurrent ∧
    (s.YieldsRestore ↔ s.queues.current ≠ none ∨ s.queues.ready = []) ∧
    (Runs.Reachable (Init main) (fun s e => s.Enabled e ∧ s.Relieved e) Step s →
      s.YieldsRestore) := by
  have wf := WellFormed.reachable reach
  refine ⟨wf.firstInFirstOut, wf.setsCurrent, wf.yieldsRestore_iff, ?_⟩
  exact fun relieved => wf.yieldsRestore_iff.mpr (.inl (current_of_relieved relieved))

/-- Three threads are ready behind the main thread. -/
theorem dispatch_in_order_three :
    ∃ s, (start 0 0).execute [.create 1, .create 2, .create 3] = some s ∧
      s.queues.ready = [1, 2, 3] ∧ s.FirstInFirstOut ∧ s.YieldsRestore := by
  have hrun : ((start 0 0).execute [.create 1, .create 2, .create 3]).any
      (fun s => decide (s.queues.ready = [1, 2, 3] ∧ s.queues.current = some 0)) = true := by
    decide +kernel
  obtain ⟨s, hs, hlists⟩ := (Option.any_eq_true _ _).mp hrun
  obtain ⟨hready, hcurrent⟩ := of_decide_eq_true hlists
  obtain ⟨first, -, restore, -⟩ := dispatch_in_order (reachable_of_execute hs)
  exact ⟨s, hs, hready, first, restore.mpr (.inl (by simp [hcurrent]))⟩

/-- The main thread ends with nobody ready, comes back from `schedule()` with
`CURRENT` null and creates a thread: two yields give the processor to that
thread for good. -/
theorem yields_lose_ended :
    ∃ s, (start 0 0).execute [.create 1, .join 1, .exit, .exit, .create 2] = some s ∧
      s.queues.ready = [2] ∧ ¬ s.YieldsRestore := by
  have hrun : ((start 0 0).execute [.create 1, .join 1, .exit, .exit, .create 2]).any
      (fun s => decide (s.queues.ready = [2] ∧ s.queues.current = none)) = true := by
    decide +kernel
  obtain ⟨s, hs, hlists⟩ := (Option.any_eq_true _ _).mp hrun
  obtain ⟨hready, hcurrent⟩ := of_decide_eq_true hlists
  refine ⟨s, hs, hready, ?_⟩
  rw [(WellFormed.reachable (reachable_of_execute hs)).yieldsRestore_iff, hcurrent, hready]
  simp

end System

end OsDesign.Pthread
