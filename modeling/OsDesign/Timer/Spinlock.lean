import OsDesign.Timer.Machine

/-!
The spinlock of the queues and the timer. `acquire_queue_spinlock` stops the
timer, spins, sets the lock and starts the timer again, so the whole section runs
with the lock set and the timer armed.
-/
namespace OsDesign.Timer

open Pthread Virt TailQueue

/-- Where a statement stands around the spinlock. -/
inductive Stage
  | outside
  | spinning
  | locking
  | arming
  | inside
  | behind
  deriving DecidableEq

def Pc.stage : Pc → Stage
  | .spin _ => .spinning
  | .setLock _ => .locking
  | .startTimer _ => .arming
  | .first _ | .removeHead _ | .insertReady _ _ | .insertWait _ | .scan _ _ _ | .remove _ _ _
  | .unlock _ => .inside
  | .swapcontext _ | .setcontext | .switchPages => .behind
  | _ => .outside

/-- Between `stop_timer` and `start_timer`. -/
def Stage.masked : Stage → Bool
  | .spinning | .locking | .arming => true
  | _ => false

/-- Between `g_queue_spinlock = 1` and `g_queue_spinlock = 0`. -/
def Stage.holding : Stage → Bool
  | .arming | .inside => true
  | _ => false

/-- Past the loop of `acquire_queue_spinlock`. -/
def Stage.entered : Stage → Bool
  | .outside | .spinning => false
  | _ => true

def Pc.masked (pc : Pc) : Bool := pc.stage.masked

def Pc.holding (pc : Pc) : Bool := pc.stage.holding

theorem Pc.masked_eq {pc : Pc} {stage : Stage} (h : pc.stage = stage) :
    pc.masked = stage.masked := by
  rw [Pc.masked, h]

theorem Pc.holding_eq {pc : Pc} {stage : Stage} (h : pc.stage = stage) :
    pc.holding = stage.holding := by
  rw [Pc.holding, h]

namespace Flow

/-- The handler stands on code that holds the spinlock. -/
def onHolder (f : Flow) : Bool := f.interrupted.any Pc.holding

/-- A flow that waits for the processor is outside the spinlock. -/
structure Parked (f : Flow) : Prop where
  pc : (f.pc = .user ∧ f.interrupted = none) ∨ f.pc = .switchPages
  offHolder : f.onHolder = false
  unmasked : f.interrupted.any Pc.masked = false

theorem Parked.start (t : ThreadId) : (start t).Parked := ⟨.inl ⟨rfl, rfl⟩, rfl, rfl⟩

end Flow

namespace Machine

variable {s s' : Machine} {e : Turn}

/-- What a statement does to the lock, the timer and the stack of the running flow. -/
inductive Effect (s : Machine) : Machine → Prop
  | same {s' : Machine} (armed : s'.armed = s.armed)
      (lock : s'.queues.gQueueSpinlock = s.queues.gQueueSpinlock)
      (stage : s'.running.pc.stage = s.running.pc.stage)
      (interrupted : s'.running.interrupted = s.running.interrupted)
      (context : ∀ t f, s'.context t = some f → s.context t = some f) : Effect s s'
  | left (masked : s.running.pc.masked = false) (holding : s.running.pc.holding = false) :
      Effect s s.leave
  | stopTimer {sec : Section} (pc : s.running.pc = .stopTimer sec) :
      Effect s ({ s with armed := false }.goto (.spin sec))
  | spin {sec : Section} (pc : s.running.pc = .spin sec) (free : s.queues.gQueueSpinlock = false) :
      Effect s (s.goto (.setLock sec))
  | setLock {sec : Section} (pc : s.running.pc = .setLock sec) :
      Effect s ({ s with queues := { s.queues with gQueueSpinlock := true } }.goto
        (.startTimer sec))
  | startTimer {sec : Section} (pc : s.running.pc = .startTimer sec) :
      Effect s ({ s with armed := true }.goto (sec.entry s.queues))
  | unlock {sec : Section} (pc : s.running.pc = .unlock sec) :
      Effect s ({ s with queues := s.queues.releaseQueueSpinlock }.released sec)
  | swapcontext {tmp t : ThreadId} {f : Flow} (pc : s.running.pc = .swapcontext tmp)
      (context : (s.save tmp).context t = some f) : Effect s { s.save tmp with running := f }
  | setcontext {t : ThreadId} {f : Flow} (pc : s.running.pc = .setcontext)
      (context : s.context t = some f) : Effect s { s with running := f }

theorem Done.effect (done : s.Done s') : s.Effect s' := by
  have same : ∀ pc q, q.gQueueSpinlock = s.queues.gQueueSpinlock →
      pc.stage = s.running.pc.stage → s.Effect ({ s with queues := q }.goto pc) :=
    fun pc q lock stage => .same rfl lock stage rfl fun _ _ hf => hf
  have still : s.Effect s := .same rfl rfl rfl rfl fun _ _ hf => hf
  have left : s.running.pc.masked = false → s.running.pc.holding = false → s.Effect s.leave :=
    fun masked holding => .left masked holding
  cases done with
  | user _ | spinOn _ _ => exact still
  | scheduleEmpty pc _ | swapEmpty pc _ | switchPages pc =>
      rw [pc] at left
      exact left rfl rfl
  | scheduleReady pc _ | scheduleNull pc _ | scheduleElse pc _ | scheduleTmp pc _
  | scheduleStore pc | swapReady pc _ | swapTmp pc _ | swapStore pc | scanEnd pc
  | scanMatch pc _ | scanNext pc _ | exitMutex pc | exitPages pc =>
      rw [pc] at same
      exact same _ s.queues rfl rfl
  | setMu pc _ | first pc | insertWait pc | remove pc _ =>
      rw [pc] at same
      exact same _ _ rfl rfl
  | stopTimer pc => exact .stopTimer pc
  | spin pc free => exact .spin pc free
  | setLock pc => exact .setLock pc
  | startTimer pc => exact .startTimer pc
  | @removeHead w _ pc _ =>
      rw [pc] at same
      refine same _ _ rfl ?_
      cases w with
      | dispatch | yield _ | wait _ => rfl
  | @insertReady sec t pc =>
      rw [pc] at same
      refine same _ _ rfl ?_
      cases sec with
      | switch _ | create _ => rfl
      | release every _ => cases every <;> rfl
  | unlock pc => exact .unlock pc
  | swapcontext pc _ context => exact .swapcontext pc context
  | setcontext pc _ context => exact .setcontext pc context
  | @exitFree t pc _ =>
      refine .same rfl rfl (by rw [pc]; rfl) rfl ?_
      intro u f hf
      by_cases hu : u = t
      · rw [hu] at hf
        simp [Machine.goto] at hf
      · simpa [Machine.goto, Function.update_of_ne hu] using hf
  | exitNull pc => exact .same rfl rfl (by rw [pc]; rfl) rfl fun _ _ hf => hf

/-- The handler waits for a spinlock that the code under it has set. -/
def Deadlocked (s : Machine) : Prop :=
  ∃ sec, s.running.pc = .spin sec ∧ s.running.onHolder = true ∧
    s.queues.gQueueSpinlock = true

/-- The relation between the lock, the timer and the statements of the running flow. -/
structure Guarded (s : Machine) : Prop where
  armed : s.armed = !s.running.pc.masked
  lock : s.queues.gQueueSpinlock = (s.running.pc.holding || s.running.onHolder)
  entered : s.running.pc.stage.entered = true → s.running.onHolder = false
  unmasked : s.running.interrupted.any Pc.masked = false
  parked : ∀ t f, s.context t = some f → f.Parked

/-- A statement that stays in its stage touches neither the lock nor the timer. -/
theorem Guarded.same (g : s.Guarded) (armed : s'.armed = s.armed)
    (lock : s'.queues.gQueueSpinlock = s.queues.gQueueSpinlock)
    (stage : s'.running.pc.stage = s.running.pc.stage)
    (interrupted : s'.running.interrupted = s.running.interrupted)
    (parked : ∀ t f, s'.context t = some f → f.Parked) : s'.Guarded := by
  have hmasked : s'.running.pc.masked = s.running.pc.masked := Pc.masked_eq stage
  have hholding : s'.running.pc.holding = s.running.pc.holding := Pc.holding_eq stage
  have honHolder : s'.running.onHolder = s.running.onHolder := by
    rw [Flow.onHolder, interrupted, Flow.onHolder]
  refine ⟨?_, ?_, ?_, ?_, parked⟩
  · rw [armed, hmasked, g.armed]
  · rw [lock, hholding, honHolder, g.lock]
  · rw [stage, honHolder]
    exact g.entered
  · rw [interrupted]
    exact g.unmasked

theorem Guarded.leave (armed : s.armed = true)
    (lock : s.queues.gQueueSpinlock = s.running.onHolder)
    (unmasked : s.running.interrupted.any Pc.masked = false)
    (parked : ∀ t f, s.context t = some f → f.Parked) : s.leave.Guarded := by
  rw [Flow.onHolder] at lock
  cases hbelow : s.running.interrupted with
  | none =>
      rw [hbelow] at lock
      rw [Machine.leave, Flow.leave_of_none hbelow]
      refine ⟨armed, ?_, ?_, ?_, parked⟩
      · change s.queues.gQueueSpinlock = (false || s.running.onHolder)
        rw [lock, Flow.onHolder, hbelow]
        rfl
      · exact fun h => absurd h Bool.false_ne_true
      · exact unmasked
  | some pc =>
      rw [hbelow, Option.any_some] at lock unmasked
      rw [Machine.leave, Flow.leave_of_some hbelow]
      refine ⟨?_, ?_, fun _ => rfl, rfl, parked⟩
      · rw [unmasked]
        exact armed
      · rw [lock]
        simp [Flow.onHolder]

/-- The statements outside the spinlock and behind it find the timer armed. -/
theorem Guarded.armed_of (g : s.Guarded) (h : s.running.pc.masked = false) : s.armed = true := by
  rw [g.armed, h]
  rfl

theorem Guarded.lock_of (g : s.Guarded) (h : s.running.pc.holding = false) :
    s.queues.gQueueSpinlock = s.running.onHolder := by
  rw [g.lock, h, Bool.false_or]

/-- The function that the flow stands in returns. -/
theorem Guarded.left (g : s.Guarded) (masked : s.running.pc.masked = false)
    (holding : s.running.pc.holding = false) : s.leave.Guarded :=
  Guarded.leave (g.armed_of masked) (g.lock_of holding) g.unmasked g.parked

theorem Guarded.resume (g : s.Guarded) (stage : s.running.pc.stage = .behind) {t : ThreadId}
    {f : Flow} (context : s.context t = some f) : ({ s with running := f } : Machine).Guarded := by
  have hparked := g.parked t f context
  have harmed : s.armed = true := g.armed_of (Pc.masked_eq stage)
  have hlock : s.queues.gQueueSpinlock = false := by
    rw [g.lock_of (Pc.holding_eq stage)]
    exact g.entered (by rw [stage]; rfl)
  refine ⟨?_, ?_, fun _ => hparked.offHolder, hparked.unmasked, g.parked⟩
  · change s.armed = !f.pc.masked
    cases hparked.pc with
    | inl hpc => rw [harmed, hpc.1]; rfl
    | inr hpc => rw [harmed, hpc]; rfl
  · change s.queues.gQueueSpinlock = (f.pc.holding || f.onHolder)
    rw [hlock, hparked.offHolder]
    cases hparked.pc with
    | inl hpc => rw [hpc.1]; rfl
    | inr hpc => rw [hpc]; rfl

theorem Guarded.save (g : s.Guarded) {tmp : ThreadId} (h : s.running.pc = .swapcontext tmp) :
    (s.save tmp).Guarded := by
  refine g.same rfl rfl rfl rfl ?_
  intro t f hf
  by_cases ht : t = tmp
  · rw [ht] at hf
    have hsaved : f = s.running.goto .switchPages := by
      simpa [Machine.save] using hf.symm
    have hentered : s.running.pc.stage.entered = true := by
      rw [h]
      rfl
    rw [hsaved]
    exact ⟨.inr rfl, g.entered hentered, g.unmasked⟩
  · have hold : s.context t = some f := by
      simpa [Machine.save, Function.update_of_ne ht] using hf
    exact g.parked t f hold

theorem Guarded.stopTimer (g : s.Guarded) {sec : Section} (h : s.running.pc = .stopTimer sec) :
    ({ s with armed := false }.goto (.spin sec)).Guarded := by
  have hstage : s.running.pc.stage = .outside := by rw [h]; rfl
  have hlock := g.lock_of (Pc.holding_eq hstage)
  exact ⟨rfl, hlock, fun h => absurd h Bool.false_ne_true, g.unmasked, g.parked⟩

/-- The loop ends only when the code under the handler does not hold the lock. -/
theorem Guarded.spin (g : s.Guarded) {sec : Section} (h : s.running.pc = .spin sec)
    (free : s.queues.gQueueSpinlock = false) : (s.goto (.setLock sec)).Guarded := by
  have hstage : s.running.pc.stage = .spinning := by rw [h]; rfl
  have hlock := g.lock_of (Pc.holding_eq hstage)
  have harmed : s.armed = false := by
    rw [g.armed, Pc.masked_eq hstage]
    rfl
  exact ⟨harmed, hlock, fun _ => hlock.symm.trans free, g.unmasked, g.parked⟩

theorem Guarded.setLock (g : s.Guarded) {sec : Section} (h : s.running.pc = .setLock sec) :
    ({ s with queues := { s.queues with gQueueSpinlock := true } }.goto
      (.startTimer sec)).Guarded := by
  have hstage : s.running.pc.stage = .locking := by rw [h]; rfl
  have harmed : s.armed = false := by
    rw [g.armed, Pc.masked_eq hstage]
    rfl
  have hoff : s.running.onHolder = false := g.entered (by rw [hstage]; rfl)
  exact ⟨harmed, rfl, fun _ => hoff, g.unmasked, g.parked⟩

theorem Guarded.startTimer (g : s.Guarded) {sec : Section} (h : s.running.pc = .startTimer sec) :
    ({ s with armed := true }.goto (sec.entry s.queues)).Guarded := by
  have hstage : s.running.pc.stage = .arming := by rw [h]; rfl
  have hoff : s.running.onHolder = false := g.entered (by rw [hstage]; rfl)
  have hlock : s.queues.gQueueSpinlock = true := by
    rw [g.lock, Pc.holding_eq hstage]
    rfl
  have hentry : (sec.entry s.queues).stage = .inside := by
    cases sec with
    | switch _ | create _ | release _ _ => rfl
  refine ⟨?_, ?_, fun _ => hoff, g.unmasked, g.parked⟩
  · exact (congrArg Bool.not (Pc.masked_eq hentry)).symm
  · change s.queues.gQueueSpinlock = ((sec.entry s.queues).holding || s.running.onHolder)
    rw [hlock, Pc.holding_eq hentry]
    rfl

/-- Behind `release_queue_spinlock` the lock is free. -/
theorem Guarded.unlock (g : s.Guarded) {sec : Section} (h : s.running.pc = .unlock sec) :
    ({ s with queues := s.queues.releaseQueueSpinlock }.released sec).Guarded := by
  have hstage : s.running.pc.stage = .inside := by rw [h]; rfl
  have hoff : s.running.onHolder = false := g.entered (by rw [hstage]; rfl)
  have harmed : s.armed = true := g.armed_of (Pc.masked_eq hstage)
  have hgoto : ∀ pc : Pc, pc.masked = false → pc.holding = false →
      ({ s with queues := s.queues.releaseQueueSpinlock }.goto pc).Guarded := by
    intro pc hmasked hholding
    refine ⟨?_, ?_, fun _ => hoff, g.unmasked, g.parked⟩
    · change s.armed = !pc.masked
      rw [hmasked, harmed]
      rfl
    · change false = (pc.holding || s.running.onHolder)
      rw [hholding, hoff]
      rfl
  have hleave : ({ s with queues := s.queues.releaseQueueSpinlock }.leave).Guarded :=
    Guarded.leave harmed hoff.symm g.unmasked g.parked
  cases sec with
  | switch w =>
      cases w with
      | dispatch | yield _ | wait _ => exact hgoto _ rfl rfl
  | create _ => exact hleave
  | release every _ =>
      cases every with
      | false => exact hleave
      | true => exact hgoto _ rfl rfl

theorem Guarded.effect (g : s.Guarded) (effect : s.Effect s') : s'.Guarded := by
  cases effect with
  | same armed lock stage interrupted context =>
      exact g.same armed lock stage interrupted fun t f hf => g.parked t f (context t f hf)
  | left masked holding => exact g.left masked holding
  | stopTimer pc => exact g.stopTimer pc
  | spin pc free => exact g.spin pc free
  | setLock pc => exact g.setLock pc
  | startTimer pc => exact g.startTimer pc
  | unlock pc => exact g.unlock pc
  | swapcontext pc context =>
      refine (g.save pc).resume ?_ context
      change s.running.pc.stage = .behind
      rw [pc]
      rfl
  | setcontext pc context => exact g.resume (by rw [pc]; rfl) context

/-- Only the timer puts the handler on code that holds the lock. -/
theorem Guarded.onHolder_of_effect (g : s.Guarded) (effect : s.Effect s')
    (h : s'.running.onHolder = true) : s.running.onHolder = true := by
  have left : ∀ m : Machine, m.leave.running.onHolder = false := by
    intro m
    change m.running.leave.interrupted.any Pc.holding = false
    rw [Flow.interrupted_leave]
    rfl
  cases effect with
  | same _ _ _ interrupted _ =>
      rw [Flow.onHolder, interrupted] at h
      exact h
  | left _ _ => simp [left s] at h
  | stopTimer _ | spin _ _ | setLock _ | startTimer _ => exact h
  | @unlock sec _ =>
      cases sec with
      | switch w =>
          cases w with
          | dispatch | yield _ | wait _ => exact h
      | create _ => simp [Machine.released, left] at h
      | release every _ =>
          cases every with
          | false => simp [Machine.released, left] at h
          | true => exact h
  | swapcontext pc context => exact absurd h (by simp [((g.save pc).parked _ _ context).offHolder])
  | setcontext _ context => exact absurd h (by simp [(g.parked _ _ context).offHolder])

theorem Guarded.turn (g : s.Guarded) (enabled : s.Enabled e) (h : s.turn e = .ok s') :
    s'.Guarded := by
  have call : ∀ pc : Pc, s.running.pc = .user → pc.stage = .outside → (s.goto pc).Guarded :=
    fun pc user stage => g.same rfl rfl (by rw [user]; exact stage) rfl g.parked
  cases e with
  | statement => exact g.effect (statement_done h).effect
  | tick =>
      cases h
      have hmasked : s.running.pc.masked = false := by
        simpa [g.armed] using enabled.1
      have honHolder : s.running.onHolder = false := by
        rw [Flow.onHolder, enabled.2]
        rfl
      refine ⟨enabled.1, ?_, fun h => absurd h Bool.false_ne_true, hmasked, g.parked⟩
      change s.queues.gQueueSpinlock = (false || s.running.pc.holding)
      rw [g.lock, honHolder, Bool.or_false, Bool.false_or]
  | yield | wait _ | wake _ =>
      cases h
      exact call _ enabled rfl
  | exit =>
      obtain ⟨t, -, ht⟩ := withCurrent_ok.mp h
      cases ht
      exact call _ enabled rfl
  | create ti tid =>
      cases h
      refine g.same rfl rfl (by rw [enabled.1]; rfl) rfl ?_
      intro t f hf
      by_cases ht : t = ti
      · subst ht
        have hstart : f = Flow.start t := by
          simpa [Machine.goto, Machine.newThread] using hf.symm
        exact hstart ▸ Flow.Parked.start t
      · refine g.parked t f ?_
        simpa [Machine.goto, Machine.newThread, Function.update_of_ne ht] using hf

theorem Init.guarded (init : s.Init) : s.Guarded := by
  have hpc : s.running.pc = .user := by rw [init.running]; rfl
  have hbelow : s.running.interrupted = none := by rw [init.running]; rfl
  refine ⟨?_, ?_, ?_, ?_, ?_⟩
  · rw [init.armed, hpc]
    rfl
  · rw [init.unlocked, hpc, Flow.onHolder, hbelow]
    rfl
  · rw [Flow.onHolder, hbelow]
    exact fun _ => rfl
  · rw [hbelow]
    rfl
  · intro t f hf
    rw [init.context] at hf
    cases hf

/-- Every run, with whatever ticks, keeps the lock and the timer together. -/
theorem Reachable.guarded {allowed : Machine → Turn → Prop} (reach : s.Reachable allowed) :
    s.Guarded :=
  reach.invariant Guarded (fun _ init => init.guarded)
    fun _ _ _ permitted taken g => g.turn permitted.1 (step_iff.mp taken)

/-- Nothing else runs any more once the handler waits for the code under it. -/
theorem Guarded.stuck (g : s.Guarded) (deadlocked : s.Deadlocked) (enabled : s.Enabled e)
    (step : s.Step e s') : s' = s := by
  obtain ⟨sec, hpc, -, hlock⟩ := deadlocked
  have hstep := step_iff.mp step
  cases e with
  | statement =>
      simp only [Machine.turn, Machine.statement, hpc, hlock, if_true, Except.ok.injEq] at hstep
      exact hstep.symm
  | tick =>
      have harmed := enabled.1
      rw [g.armed, hpc] at harmed
      cases harmed
  | yield | wait _ | wake _ | exit =>
      rw [Enabled, hpc] at enabled
      cases enabled
  | create ti tid =>
      have huser := enabled.1
      rw [hpc] at huser
      cases huser

end Machine

end OsDesign.Timer
