import OsDesign.Pthread.Dispatch

/-!
Whose code runs. A call leaves the processor with `CURRENT`, except that
`schedule()` comes back to its caller when no thread is ready: after
`CURRENT = NULL` that is `my_pthread_exit`, which returns to the code of a thread
that has ended, or `thread_stub`, behind which the process exits. A block may be
given to a new thread later, so a thread is a block and the count of its creations.
-/
namespace OsDesign.Pthread

open Virt

/-- A thread: its block, and how often the block was given to a new thread. -/
structure Incarnation where
  block : ThreadId
  birth : Nat
  deriving DecidableEq

/-- The library, the number of threads created in each block, and the thread
whose code runs; none once the process has exited. -/
structure Control where
  system : System
  births : ThreadId → Nat
  executing : Option Incarnation

/-- A call or the timer, or the function of the thread returns to `thread_stub`. -/
inductive Move
  | call (e : Event)
  | returns

namespace Move

/-- The tail of `thread_stub` makes the calls of `my_pthread_exit`. -/
def event : Move → Event
  | .call e => e
  | .returns => .exit

/-- Who goes on where no thread has the processor: the caller, or, since `uc_link`
is 0 behind `thread_stub`, nobody. -/
def resumes : Move → Option Incarnation → Option Incarnation
  | .call _, caller => caller
  | .returns, _ => none

end Move

namespace Control

variable {c c' c'' : Control} {e : Event} {m : Move} {i : Incarnation} {t : ThreadId}

def born (births : ThreadId → Nat) : Event → ThreadId → Nat
  | .create ti => Function.update births ti (births ti + 1)
  | .yield | .tick | .exit | .join _ | .mutexInit | .lock _ | .unlock _ | .destroy _ => births

/-- `setcontext` and `swapcontext` go to the context of `CURRENT`. With `CURRENT`
null neither was called. -/
structure Step (c : Control) (m : Move) (c' : Control) : Prop where
  call : c.system.Step m.event c'.system
  births : c'.births = born c.births m.event
  executing : c'.executing = (match c'.system.queues.current with
    | some t => some ⟨t, c'.births t⟩
    | none => m.resumes c.executing)

structure Init (main : ThreadId) (c : Control) : Prop where
  system : c.system.Init main
  births : c.births = fun _ => 0
  executing : c.executing = some ⟨main, 0⟩

/-- The process has not exited, and only a thread that was created began in
`thread_stub`. -/
structure Enabled (c : Control) (m : Move) : Prop where
  alive : c.executing ≠ none
  system : c.system.Enabled m.event
  stub : m = .returns → ∀ i, c.executing = some i → i.birth ≠ 0

/-- `CURRENT`, where it is a thread, is the thread whose code runs. -/
structure Sound (c : Control) : Prop where
  wellFormed : c.system.WellFormed
  running : ∀ t, c.system.queues.current = some t → c.executing = some ⟨t, c.births t⟩

theorem Step.sound (step : c.Step m c') (enabled : c.Enabled m) (sound : c.Sound) : c'.Sound := by
  obtain ⟨r, call⟩ := step.call
  refine ⟨(sound.wellFormed.call_ok enabled.system call).2.1, ?_⟩
  intro t running
  rw [step.executing, running]

theorem Sound.reachable {main : ThreadId} (reach : Runs.Reachable (Init main) Enabled Step c) :
    c.Sound := by
  refine reach.invariant Sound ?_ fun c m c' enabled step sound => step.sound enabled sound
  intro c init
  refine ⟨init.system.wellFormed, ?_⟩
  intro t running
  obtain rfl : main = t := Option.some.inj (init.system.current.symm.trans running)
  rw [init.executing, init.births]

theorem births_le (births : ThreadId → Nat) (e : Event) (t : ThreadId) :
    births t ≤ born births e t := by
  cases e with
  | create ti =>
      by_cases same : t = ti
      · simp [born, same]
      · simp [born, same]
  | yield | tick | exit | join _ | mutexInit | lock _ | unlock _ | destroy _ => exact Nat.le_refl _

/-- A thread that has ended: it does not run, and its block is free or belongs
to a thread created later. -/
structure Ended (i : Incarnation) (c : Control) : Prop where
  elsewhere : c.executing ≠ some i
  before : i.birth ≤ c.births i.block
  replaced : c.system.live i.block = true → i.birth < c.births i.block

/-- A thread is live after a call only if it was before, or is created by it. -/
theorem live_of_call {a a' : Sched} {r : Return} (call : a.call e = .ok (a', r))
    (live : a'.live t = true) : a.live t = true ∨ e = .create t := by
  cases Sched.call_effect call with
  | created ti _ =>
      change Function.update a.live ti true t = true at live
      by_cases same : t = ti
      · exact .inr (same ▸ rfl)
      · rw [Function.update_of_ne same] at live
        exact .inl live
  | switched =>
      rw [Sched.schedule_live] at live
      exact .inl live
  | exited u =>
      rw [Sched.schedule_live] at live
      change Function.update a.live u false t = true at live
      by_cases same : t = u
      · simp [same] at live
      · rw [Function.update_of_ne same] at live
        exact .inl live
  | refused | took | passed | parked | initialised | unlocked | handedOver | destroyed =>
      exact .inl live

theorem dead_of_exit {a a' : Sched} {r : Return} (call : a.call .exit = .ok (a', r))
    (running : a.current = some t) : a'.live t = false := by
  cases Sched.call_effect call with
  | exited u hu =>
      obtain rfl : u = t := Option.some.inj (hu.symm.trans running)
      rw [Sched.schedule_live]
      exact Function.update_self u false a.live
  | switched he => simp at he
  | refused handle => simp [Event.handle] at handle
  | took waits | passed waits | parked waits => simp [Event.waits] at waits

theorem Ended.step (ended : Ended i c) (step : c.Step m c') (enabled : c.Enabled m)
    (sound : c.Sound) : Ended i c' := by
  obtain ⟨r, call⟩ := step.call
  obtain ⟨hcall, wf', -⟩ := sound.wellFormed.call_ok enabled.system call
  have later : c.births i.block ≤ c'.births i.block := by
    rw [step.births]
    exact births_le c.births m.event i.block
  have replaced : c'.system.live i.block = true → i.birth < c'.births i.block := by
    intro live
    cases live_of_call hcall live with
    | inl live => exact Nat.lt_of_lt_of_le (ended.replaced live) later
    | inr created =>
        rw [step.births, created, born, Function.update_self]
        exact Nat.lt_succ_of_le ended.before
  refine ⟨?_, ended.before.trans later, replaced⟩
  rw [step.executing]
  cases hcurrent : c'.system.queues.current with
  | none =>
      cases m with
      | call e => exact ended.elsewhere
      | returns => exact fun same => by cases same
  | some t =>
      intro same
      obtain rfl := Option.some.inj same
      have live : c'.system.live t = true :=
        (wf'.live t).mp (by simp [Sched.threads, System.sched, hcurrent])
      exact Nat.lt_irrefl _ (replaced live)

/-- Nothing that happens later brings a thread that has ended back. -/
theorem Ended.steps {ms : List Move} (ended : Ended i c) (sound : c.Sound)
    (run : Runs.Steps Enabled Step c ms c') : Ended i c' := by
  have both : c'.Sound ∧ Ended i c' := by
    refine run.preserves (fun c => c.Sound ∧ Ended i c) ?_ ⟨sound, ended⟩
    exact fun c m c' enabled step before =>
      ⟨step.sound enabled before.1, before.2.step step enabled before.1⟩
  exact both.2

/-- The `schedule()` at the end of a thread dispatches another one exactly if
one is ready or waits for the thread. -/
theorem Sound.current_of_exit (sound : c.Sound) (running : c.system.queues.current = some t)
    {s' : System} (call : c.system.Step .exit s') :
    s'.queues.current ≠ none ↔
      c.system.queues.ready ≠ [] ∨
        ∃ u, u ∈ c.system.queues.wait ∧ c.system.queues.mu u = c.system.tid t := by
  obtain ⟨r, call⟩ := call
  have permitted : c.system.Enabled .exit := trivial
  obtain ⟨hcall, -, -⟩ := sound.wellFormed.call_ok permitted call
  have hcurrent : s'.queues.current = (c.system.sched.retired t).ready.head? := by
    have hrunning : c.system.sched.current = some t := running
    have after := Sched.call_current hcall
    rw [Sched.dispatched, hrunning] at after
    exact after.trans (Option.or_none)
  refine Iff.trans ?_ (c.system.sched.ready_retired t)
  rw [hcurrent, Ne, List.head?_eq_none_iff]

/-- The thread has ended once its end leaves the processor to another one, or to nobody. -/
theorem Sound.ended (sound : c.Sound) (running : c.system.queues.current = some t)
    (ends : m.event = .exit) (step : c.Step m c')
    (elsewhere : m = .returns ∨ c'.system.queues.current ≠ none) :
    Ended ⟨t, c.births t⟩ c' := by
  obtain ⟨r, call⟩ := step.call
  rw [ends] at call
  have permitted : c.system.Enabled .exit := trivial
  obtain ⟨hcall, wf', -⟩ := sound.wellFormed.call_ok permitted call
  have dead : c'.system.live t = false := dead_of_exit hcall running
  have births : c'.births = c.births := by rw [step.births, ends, born]
  refine ⟨?_, ?_, ?_⟩
  · rw [step.executing]
    cases hcurrent : c'.system.queues.current with
    | none =>
        obtain rfl : m = .returns := elsewhere.resolve_right fun other => other hcurrent
        exact fun same => by cases same
    | some u =>
        intro same
        obtain rfl : u = t := congrArg Incarnation.block (Option.some.inj same)
        have live : c'.system.live u = true :=
          (wf'.live u).mp (by simp [Sched.threads, System.sched, hcurrent])
        simp [live] at dead
  · rw [births]
  · intro live
    simp [dead] at live

theorem Sound.never_runs (sound : c.Sound) (running : c.system.queues.current = some t)
    (ends : m.event = .exit) (step : c.Step m c')
    (elsewhere : m = .returns ∨ c'.system.queues.current ≠ none) {ms : List Move}
    (run : Runs.Steps Enabled Step c' ms c'') : c''.executing ≠ some ⟨t, c.births t⟩ := by
  have gone := sound.ended running ends step elsewhere
  obtain ⟨r, call⟩ := step.call
  rw [ends] at call
  have permitted : c.system.Enabled .exit := trivial
  have sound' : c'.Sound := by
    refine ⟨(sound.wellFormed.call_ok permitted call).2.1, ?_⟩
    intro u hu
    rw [step.executing, hu]
  exact (gone.steps sound' run).elsewhere

/-- A thread that ends never runs again exactly if its function returns, or another
thread is ready when it ends, or one waits for it; otherwise the `schedule()` at the end
of `my_pthread_exit` returns to it. -/
theorem ended_never_runs_iff {main : ThreadId}
    (reach : Runs.Reachable (Init main) Enabled Step c)
    (running : c.system.queues.current = some t) (ends : m.event = .exit)
    (ended : c.Step m c') :
    ∃ i, c.executing = some i ∧ i.block = t ∧
      ((∀ ms c'', Runs.Steps Enabled Step c' ms c'' → c''.executing ≠ some i) ↔
        m = .returns ∨ c.system.queues.ready ≠ [] ∨
          ∃ u, u ∈ c.system.queues.wait ∧ c.system.queues.mu u = c.system.tid t) := by
  have sound := Sound.reachable reach
  have hexecuting := sound.running t running
  refine ⟨⟨t, c.births t⟩, hexecuting, rfl, ?_⟩
  rw [← sound.current_of_exit running (ends ▸ ended.call)]
  constructor
  · intro never
    by_contra back
    obtain ⟨notStub, hnone⟩ := not_or.mp back
    have same : c'.executing = some ⟨t, c.births t⟩ := by
      rw [ended.executing, not_not.mp hnone]
      cases m with
      | call e => exact hexecuting
      | returns => exact absurd rfl notStub
    exact never [] c' (.nil c') same
  · intro elsewhere ms c'' run
    exact sound.never_runs running ends ended elsewhere run

/-- Every call of the library is a step here. -/
theorem exists_step {s' : System} (m : Move) (taken : c.system.Step m.event s') :
    ∃ c', c.Step m c' ∧ c'.system = s' :=
  ⟨{ system := s'
     births := born c.births m.event
     executing := match s'.queues.current with
       | some t => some ⟨t, born c.births m.event t⟩
       | none => m.resumes c.executing }, ⟨taken, rfl, rfl⟩, rfl⟩

theorem Step.alive (step : c.Step (.call e) c') (alive : c.executing ≠ none) :
    c'.executing ≠ none := by
  rw [step.executing]
  cases c'.system.queues.current with
  | none => exact alive
  | some t => exact Option.some_ne_none _

/-- Every reachable state of the library is reached here. -/
theorem exists_reachable {main : ThreadId} {s : System}
    (reach : Runs.Reachable (System.Init main) System.Enabled System.Step s) :
    ∃ c, Runs.Reachable (Init main) Enabled Step c ∧ c.executing ≠ none ∧ c.system = s := by
  refine reach.invariant (fun s => ∃ c, Runs.Reachable (Init main) Enabled Step c ∧
    c.executing ≠ none ∧ c.system = s) ?_ ?_
  · intro s init
    exact ⟨⟨s, fun _ => 0, some ⟨main, 0⟩⟩, .start ⟨init, rfl, rfl⟩, Option.some_ne_none _, rfl⟩
  · intro s e s' enabled taken before
    obtain ⟨c, reach, alive, rfl⟩ := before
    obtain ⟨c', step, hc'⟩ := exists_step (.call e) taken
    have permitted : c.Enabled (.call e) := ⟨alive, enabled, Move.noConfusion⟩
    exact ⟨c', reach.extend (.single permitted step), step.alive alive, hc'⟩

/-- A state that the calls lead to, found by evaluation. -/
theorem exists_state (es : List Event) (P : System → Bool)
    (hrun : ((System.start 0 0).execute es).any P = true) :
    ∃ c, Runs.Reachable (Init 0) Enabled Step c ∧ P c.system = true := by
  obtain ⟨s, hs, holds⟩ := (Option.any_eq_true _ _).mp hrun
  obtain ⟨c, reach, -, rfl⟩ := exists_reachable (System.reachable_of_execute hs)
  exact ⟨c, reach, holds⟩

/-- The created thread calls `my_pthread_exit` while the main thread waits for it. -/
theorem ended_never_runs_joined :
    ∃ (c c' : Control) (i : Incarnation), i.block = 1 ∧ c.executing = some i ∧
      c.Step (.call .exit) c' ∧
      ∀ ms c'', Runs.Steps Enabled Step c' ms c'' → c''.executing ≠ some i := by
  obtain ⟨c, reach, joined⟩ := exists_state [.create 1, .join 1]
    (fun s => decide (s.queues.current = some 1 ∧ 0 ∈ s.queues.wait ∧
      s.queues.mu 0 = s.tid 1) && (s.next .exit).isSome) (by decide +kernel)
  simp only [Bool.and_eq_true, decide_eq_true_eq] at joined
  obtain ⟨⟨running, waiting, joining⟩, hnext⟩ := joined
  obtain ⟨s', hs'⟩ := Option.isSome_iff_exists.mp hnext
  obtain ⟨c', ended, -⟩ := exists_step (.call .exit) (System.step_of_next hs')
  obtain ⟨i, executing, block, never⟩ := ended_never_runs_iff reach running rfl ended
  exact ⟨c, c', i, block, executing, ended, never.mpr (.inr (.inr ⟨0, waiting, joining⟩))⟩

/-- The main thread has ended, and the function of the created thread returns: nobody is
ready, and the process exits. -/
theorem returns_alone :
    ∃ (c c' : Control) (i : Incarnation), i.block = 1 ∧ c.executing = some i ∧
      c.Step .returns c' ∧ c'.executing = none ∧
      ∀ ms c'', Runs.Steps Enabled Step c' ms c'' → c''.executing ≠ some i := by
  obtain ⟨c, reach, alone⟩ := exists_state [.create 1, .exit]
    (fun s : System => decide (s.queues.current = some 1) && (s.next .exit).any
      fun s' : System => decide (s'.queues.current = none)) (by decide +kernel)
  simp only [Bool.and_eq_true, decide_eq_true_eq] at alone
  obtain ⟨running, hnext⟩ := alone
  obtain ⟨s', hs', hend⟩ := (Option.any_eq_true _ _).mp hnext
  obtain ⟨c', ended, rfl⟩ := exists_step .returns (System.step_of_next hs')
  have sound := Sound.reachable reach
  have exits : c'.executing = none := by
    rw [ended.executing, of_decide_eq_true hend]
    rfl
  exact ⟨c, c', _, rfl, sound.running 1 running, ended, exits,
    fun ms c'' run => sound.never_runs running rfl ended (.inl rfl) run⟩

/-- The main thread joins the only other thread and calls `my_pthread_exit`: nobody is
ready, its `schedule()` returns, and its code goes on. -/
theorem ended_runs_on :
    ∃ (c c' : Control) (i : Incarnation), Runs.Reachable (Init 0) Enabled Step c ∧
      c.system.queues.current = some 0 ∧ c.executing = some i ∧ c.Step (.call .exit) c' ∧
      c'.system.live 0 = false ∧
      ¬ ∀ ms c'', Runs.Steps Enabled Step c' ms c'' → c''.executing ≠ some i := by
  obtain ⟨c, reach, last⟩ := exists_state [.create 1, .join 1, .exit]
    (fun s => decide (s.queues.current = some 0) && (s.next .exit).any
      fun s' : System => decide (s'.queues.current = none ∧ s'.live 0 = false)) (by decide +kernel)
  simp only [Bool.and_eq_true, decide_eq_true_eq] at last
  obtain ⟨running, hnext⟩ := last
  obtain ⟨s', hs', hend⟩ := (Option.any_eq_true _ _).mp hnext
  obtain ⟨hnone, hdead⟩ := of_decide_eq_true hend
  obtain ⟨c', ended, rfl⟩ := exists_step (.call .exit) (System.step_of_next hs')
  have executing := (Sound.reachable reach).running 0 running
  refine ⟨c, c', _, reach, running, executing, ended, hdead, ?_⟩
  intro never
  have same : c'.executing = some ⟨0, c.births 0⟩ := by
    rw [ended.executing, hnone]
    exact executing
  exact never [] c' (.nil c') same

end Control

end OsDesign.Pthread
