import OsDesign.Timer.Spinlock

/-!
When the handler waits for the code it interrupted. A tick inside a section is
harmless only where `schedule` returns at once, and every other tick there leads
into the loop of `acquire_queue_spinlock` for good.
-/
namespace OsDesign.Timer

open Pthread Virt TailQueue

namespace Machine

variable {s s' : Machine} {e : Turn}

/-- The timer comes while the lock is set only where `schedule` finds no ready thread. -/
def Patient (s : Machine) (e : Turn) : Prop :=
  e = .tick → s.queues.gQueueSpinlock = true → s.queues.gQueueReady.first = none

instance (s : Machine) : DecidablePred s.Patient := fun e => inferInstanceAs (Decidable
  (e = .tick → s.queues.gQueueSpinlock = true → s.queues.gQueueReady.first = none))

/-- A handler on code that holds the lock is about to find the ready queue empty. -/
def Clear (s : Machine) : Prop :=
  s.running.onHolder = true →
    s.running.pc = .scheduleEmpty ∧ s.queues.gQueueReady.first = none

theorem Clear.turn (clear : s.Clear) (g : s.Guarded) (enabled : s.Enabled e)
    (patient : s.Patient e) (h : s.turn e = .ok s') : s'.Clear := by
  intro hon
  cases e with
  | statement =>
      obtain ⟨hpc, hempty⟩ := clear (g.onHolder_of_effect (statement_done h).effect hon)
      simp only [Machine.turn, Machine.statement, hpc, hempty, if_true, Except.ok.injEq] at h
      have hoff : s'.running.onHolder = false := by
        rw [← h]
        change s.running.leave.interrupted.any Pc.holding = false
        rw [Flow.interrupted_leave]
        rfl
      rw [hoff] at hon
      cases hon
  | tick =>
      cases h
      have hholding : s.running.pc.holding = true := hon
      have hlock : s.queues.gQueueSpinlock = true := by
        rw [g.lock, hholding]
        rfl
      exact ⟨rfl, patient rfl hlock⟩
  | yield | wait _ | wake _ =>
      cases h
      have := clear hon
      rw [enabled] at this
      cases this.1
  | exit =>
      obtain ⟨t, -, ht⟩ := withCurrent_ok.mp h
      cases ht
      have := clear hon
      rw [enabled] at this
      cases this.1
  | create ti tid =>
      cases h
      have := clear hon
      rw [enabled.1] at this
      cases this.1

theorem Init.clear (init : s.Init) : s.Clear := by
  intro hon
  rw [Flow.onHolder, init.running] at hon
  cases hon

/-- As long as no tick finds the lock set and a ready thread, the handler never
waits for the code it interrupted. -/
theorem handler_never_deadlocks (reach : s.Reachable Patient) : ¬ s.Deadlocked := by
  have both : s.Guarded ∧ s.Clear := by
    refine reach.invariant (fun s => s.Guarded ∧ s.Clear)
      (fun _ init => ⟨init.guarded, init.clear⟩) ?_
    intro s e s' permitted taken before
    have hturn := step_iff.mp taken
    exact ⟨before.1.turn permitted.1 hturn,
      before.2.turn before.1 permitted.1 permitted.2 hturn⟩
  rintro ⟨sec, hpc, hon, -⟩
  have := both.2 hon
  rw [hpc] at this
  cases this.1

/-- A run with a tick outside the sections. -/
theorem no_deadlock_after_tick :
    ∃ s : Machine, s.running.interrupted = some .scheduleNull ∧ ¬ s.Deadlocked := by
  obtain ⟨s, reach, hinterrupted⟩ := exists_reachable Patient
    (fun s => s.running.interrupted = some .scheduleNull)
    ([.create 1 1] ++ Turn.statements 6 ++ [.yield, .statement, .tick]) (by decide +kernel)
  exact ⟨s, hinterrupted, handler_never_deadlocks reach⟩

/-- The timer expires in front of `release_queue_spinlock` of the first `my_pthread_create`. -/
theorem handler_waits_for_create :
    ¬ ∀ s : Machine, s.Reachable (fun _ _ => True) → ¬ s.Deadlocked := by
  intro never
  obtain ⟨s, reach, h⟩ := exists_reachable (fun _ _ => True)
    (fun s => s.running.pc = .spin (.switch (.yield 0)) ∧ s.running.onHolder = true ∧
      s.queues.gQueueSpinlock = true)
    ([.create 1 1] ++ Turn.statements 5 ++ [.tick] ++ Turn.statements 5) (by decide +kernel)
  exact never s reach ⟨_, h⟩

/-- Every other tick ends in the loop: the condition leaves out no harmless one. -/
theorem Guarded.deadlocks (g : s.Guarded) (enabled : s.Enabled e) (impatient : ¬ s.Patient e) :
    ∃ es s', Runs.Steps Enabled Step s (e :: es) s' ∧ s'.Deadlocked := by
  simp only [Patient, Classical.not_imp] at impatient
  obtain ⟨rfl, hlock, hready⟩ := impatient
  have hholding : s.running.pc.holding = true := by
    rw [g.lock, Flow.onHolder, enabled.2] at hlock
    simpa using hlock
  have tick : s.Step .tick { s with running := s.running.interrupt } := step_iff.mpr rfl
  have empty : ({ s with running := s.running.interrupt } : Machine).Step .statement
      ({ s with running := s.running.interrupt }.goto .scheduleNull) :=
    step_iff.mpr (congrArg Except.ok (if_neg hready))
  have spins : ∀ w : Switch, ({ s with running := s.running.interrupt, armed := false }.goto
      (.spin (.switch w))).Deadlocked := fun w => ⟨_, rfl, hholding, hlock⟩
  cases hcurrent : s.queues.current with
  | none =>
      have null : ({ s with running := s.running.interrupt }.goto .scheduleNull).Step .statement
          ({ s with running := s.running.interrupt }.goto (.stopTimer (.switch .dispatch))) :=
        step_iff.mpr (congrArg (fun pc => Except.ok (Machine.goto _ pc)) (if_pos hcurrent))
      exact ⟨[.statement, .statement, .statement], _,
        .cons enabled tick (.cons trivial empty (.cons trivial null
          (.single trivial (step_iff.mpr rfl)))), spins .dispatch⟩
  | some t =>
      have null : ({ s with running := s.running.interrupt }.goto .scheduleNull).Step .statement
          ({ s with running := s.running.interrupt }.goto .scheduleTmp) := by
        refine step_iff.mpr (congrArg (fun pc => Except.ok (Machine.goto _ pc)) (if_neg ?_))
        intro hnone
        cases hnone.symm.trans hcurrent
      have tmp : ({ s with running := s.running.interrupt }.goto .scheduleTmp).Step .statement
          ({ s with running := s.running.interrupt }.goto (.scheduleStore t)) :=
        step_iff.mpr (withCurrent_ok.mpr ⟨t, hcurrent, rfl⟩)
      have store : ({ s with running := s.running.interrupt }.goto (.scheduleStore t)).Step
          .statement
          ({ s with running := s.running.interrupt }.goto (.stopTimer (.switch (.yield t)))) :=
        step_iff.mpr (withCurrent_ok.mpr ⟨t, hcurrent, rfl⟩)
      exact ⟨[.statement, .statement, .statement, .statement, .statement], _,
        .cons enabled tick (.cons trivial empty (.cons trivial null (.cons trivial tmp
          (.cons trivial store (.single trivial (step_iff.mpr rfl)))))), spins (.yield t)⟩

end Machine

end OsDesign.Timer
