import OsDesign.Timer.Spinlock

/-!
The test for a ready thread and the removal of one. Between the two other flows
may run, and they can take every thread that the test saw.
-/
namespace OsDesign.Timer

open Pthread Virt TailQueue

/-- The flow has found a ready thread and has not taken it yet. -/
def Pc.due : Pc → Bool
  | .scheduleNull | .scheduleTmp | .scheduleStore _ | .swapTmp | .swapStore _ => true
  | .stopTimer (.switch _) | .spin (.switch _) | .setLock (.switch _)
  | .startTimer (.switch _) => true
  | .first _ | .removeHead _ => true
  | _ => false

/-- The flow has taken a thread and has not left the processor to it yet. -/
def Pc.taken : Pc → Bool
  | .insertReady (.switch _) _ | .insertWait _ | .unlock (.switch _) => true
  | .swapcontext _ | .setcontext => true
  | _ => false

namespace Flow

/-- The handler stands on code that has found a ready thread. -/
def onDue (f : Flow) : Bool := f.interrupted.any Pc.due

end Flow

namespace Machine

variable {s s' : Machine} {e : Turn}

/-- `STAILQ_FIRST` is assigned to `CURRENT`, or `STAILQ_REMOVE_HEAD` is applied,
with an empty ready queue. -/
def DequeuesEmpty (s : Machine) : Prop :=
  ∃ w, (s.running.pc = .first w ∨ s.running.pc = .removeHead w) ∧
    s.queues.gQueueReady.first = none

/-- The flow that gets the processor with this statement. -/
def resumed (s : Machine) : Option Flow :=
  match s.running.pc with
  | .swapcontext tmp => s.queues.current.bind (s.save tmp).context
  | .setcontext => s.queues.current.bind s.context
  | _ => none

/-- A flow that was interrupted between the test and the removal gets the
processor back while a thread is ready. -/
def FindsReady (s : Machine) (e : Turn) : Prop :=
  e = .statement → s.resumed.any Flow.onDue = true → s.queues.gQueueReady.first ≠ none

instance (s : Machine) : DecidablePred s.FindsReady := fun e => inferInstanceAs (Decidable
  (e = .statement → s.resumed.any Flow.onDue = true → s.queues.gQueueReady.first ≠ none))

/-- What the running flow has found is still there. -/
structure Supplied (s : Machine) : Prop where
  tight : s.queues.gQueueReady.Tight
  due : s.running.pc.due = true → s.queues.gQueueReady.first ≠ none
  below : s.running.pc.taken = false → s.running.onDue = true →
    s.queues.gQueueReady.first ≠ none
  parked : ∀ t f, s.context t = some f → f.pc = .user ∨ f.pc = .switchPages

theorem Supplied.keep (i : s.Supplied)
    (tight : s'.queues.gQueueReady.Tight)
    (grows : s.queues.gQueueReady.first ≠ none → s'.queues.gQueueReady.first ≠ none)
    (due : s'.running.pc.due = true →
      s.running.pc.due = true ∨ s.queues.gQueueReady.first ≠ none)
    (taken : s'.running.pc.taken = false → s.running.pc.taken = false)
    (interrupted : s'.running.interrupted = s.running.interrupted)
    (context : ∀ t f, s'.context t = some f → s.context t = some f) : s'.Supplied := by
  refine ⟨tight, ?_, ?_, fun t f hf => i.parked t f (context t f hf)⟩
  · intro hdue
    cases due hdue with
    | inl before => exact grows (i.due before)
    | inr ready => exact grows ready
  · intro htaken hbelow
    rw [Flow.onDue, interrupted] at hbelow
    exact grows (i.below (taken htaken) hbelow)

theorem Supplied.leave (i : s.Supplied) (taken : s.running.pc.taken = false) :
    s.leave.Supplied := by
  refine ⟨i.tight, ?_, ?_, i.parked⟩
  · intro hdue
    cases hbelow : s.running.interrupted with
    | none =>
        rw [Machine.leave, Flow.leave_of_none hbelow] at hdue
        cases hdue
    | some pc =>
        rw [Machine.leave, Flow.leave_of_some hbelow] at hdue
        refine i.below taken ?_
        rw [Flow.onDue, hbelow]
        exact hdue
  · intro _ hbelow
    change s.running.leave.interrupted.any Pc.due = true at hbelow
    rw [Flow.interrupted_leave] at hbelow
    cases hbelow

theorem Supplied.save (i : s.Supplied) (tmp : ThreadId) : (s.save tmp).Supplied := by
  refine ⟨i.tight, i.due, i.below, ?_⟩
  intro t f hf
  by_cases ht : t = tmp
  · rw [ht] at hf
    have hsaved : f = s.running.goto .switchPages := by
      simpa [Machine.save] using hf.symm
    exact .inr (hsaved ▸ rfl)
  · refine i.parked t f ?_
    simpa [Machine.save, Function.update_of_ne ht] using hf

/-- A saved flow gets the processor, with a ready thread if it counts on one. -/
theorem Supplied.resume (i : s.Supplied) {t : ThreadId} {f : Flow}
    (context : s.context t = some f)
    (ready : f.onDue = true → s.queues.gQueueReady.first ≠ none) :
    ({ s with running := f } : Machine).Supplied := by
  refine ⟨i.tight, ?_, fun _ => ready, i.parked⟩
  intro hdue
  change f.pc.due = true at hdue
  cases i.parked t f context with
  | inl hpc | inr hpc =>
      rw [hpc] at hdue
      cases hdue

theorem Supplied.done (i : s.Supplied) (finds : s.FindsReady .statement) (done : s.Done s') :
    s'.Supplied := by
  have keep : ∀ pc q, q.gQueueReady = s.queues.gQueueReady →
      (pc.due = true → s.running.pc.due = true ∨ s.queues.gQueueReady.first ≠ none) →
      (pc.taken = false → s.running.pc.taken = false) →
      ({ s with queues := q }.goto pc).Supplied := by
    intro pc q hready due taken
    refine i.keep ?_ ?_ due taken rfl fun _ _ hf => hf
    · exact (congrArg Head.Tight hready).mpr i.tight
    · exact fun h => (congrArg (fun head => head.first ≠ none) hready).mpr h
  have leave : s.running.pc.taken = false → s.leave.Supplied := i.leave
  have never : ∀ {P : Prop}, false = true → P := fun h => absurd h Bool.false_ne_true
  cases done with
  | user _ | spinOn _ _ => exact i
  | scheduleEmpty pc _ | swapEmpty pc _ | switchPages pc => exact leave (by rw [pc]; rfl)
  | scheduleReady pc ready | swapReady pc ready =>
      exact keep _ s.queues rfl (fun _ => .inr ready) (fun _ => by rw [pc]; rfl)
  | scheduleNull pc _ | scheduleElse pc _ | scheduleTmp pc _ | scheduleStore pc
  | swapTmp pc _ | swapStore pc =>
      exact keep _ s.queues rfl (fun _ => .inl (by rw [pc]; rfl)) (fun _ => by rw [pc]; rfl)
  | scanEnd pc | scanMatch pc _ | scanNext pc _ | exitMutex pc | exitPages pc =>
      exact keep _ s.queues rfl (never) (fun _ => by rw [pc]; rfl)
  | setMu pc _ =>
      exact keep _ _ rfl (never) (fun _ => by rw [pc]; rfl)
  | insertWait pc =>
      exact keep _ _ rfl (never) (fun h => never h.symm)
  | remove pc _ =>
      exact keep _ _ rfl (never) (fun _ => by rw [pc]; rfl)
  | @stopTimer sec pc =>
      refine i.keep i.tight (fun ready => ready) (fun h => .inl ?_) (fun _ => by rw [pc]; rfl)
        rfl fun _ _ hf => hf
      rw [pc]
      cases sec with
      | switch _ => rfl
      | create _ | release _ _ => exact never h
  | @spin sec pc _ =>
      refine keep _ s.queues rfl (fun h => .inl ?_) (fun _ => by rw [pc]; rfl)
      rw [pc]
      cases sec with
      | switch _ => rfl
      | create _ | release _ _ => exact never h
  | @setLock sec pc =>
      refine keep _ _ rfl (fun h => .inl ?_) (fun _ => by rw [pc]; rfl)
      rw [pc]
      cases sec with
      | switch _ => rfl
      | create _ | release _ _ => exact never h
  | @startTimer sec pc =>
      refine i.keep i.tight (fun ready => ready) (fun h => .inl ?_) (fun _ => by rw [pc]; rfl)
        rfl fun _ _ hf => hf
      rw [pc]
      cases sec with
      | switch _ => rfl
      | create _ | release _ _ => exact never h
  | first pc =>
      exact keep _ _ rfl (fun _ => .inl (by rw [pc]; rfl)) (fun _ => by rw [pc]; rfl)
  | @removeHead w head pc removed =>
      have hinsert : w.insert.due = false ∧ w.insert.taken = true := by
        cases w with
        | dispatch | yield _ | wait _ => exact ⟨rfl, rfl⟩
      refine ⟨Head.Tight.of_removeHead removed, ?_, ?_, i.parked⟩
      · intro hdue
        exact never (hinsert.1.symm.trans hdue)
      · intro htaken
        exact never (htaken.symm.trans hinsert.2)
  | @insertReady sec t pc =>
      have hfirst : (insertTail s.queues.list s.queues.gQueueReady t).2.first ≠ none :=
        i.tight.insertTail_first
      refine ⟨fun hnone => absurd hnone hfirst, fun _ => hfirst, fun _ _ => hfirst, i.parked⟩
  | @unlock sec pc =>
      have released : ({ s with queues := s.queues.releaseQueueSpinlock } : Machine).Supplied :=
        ⟨i.tight, i.due, i.below, i.parked⟩
      cases sec with
      | switch w =>
          cases w with
          | dispatch | yield _ | wait _ => exact keep _ _ rfl never fun h => never h.symm
      | create _ => exact released.leave (by rw [pc]; rfl)
      | release every _ =>
          cases every with
          | false => exact released.leave (by rw [pc]; rfl)
          | true => exact keep _ _ rfl never fun _ => by rw [pc]; rfl
  | @swapcontext tmp t f pc current context =>
      refine (i.save tmp).resume context fun hdue => finds rfl ?_
      simp only [resumed, pc, current, Option.bind_some, context, Option.any_some, hdue]
  | @setcontext t f pc current context =>
      refine i.resume context fun hdue => finds rfl ?_
      simp only [resumed, pc, current, Option.bind_some, context, Option.any_some, hdue]
  | @exitFree t pc _ =>
      refine i.keep i.tight (fun ready => ready) never (fun _ => by rw [pc]; rfl) rfl ?_
      intro u f hf
      by_cases hu : u = t
      · rw [hu] at hf
        simp [Machine.goto] at hf
      · simpa [Machine.goto, Function.update_of_ne hu] using hf
  | exitNull pc =>
      exact i.keep i.tight (fun ready => ready) never (fun _ => by rw [pc]; rfl) rfl
        fun _ _ hf => hf

theorem Supplied.turn (i : s.Supplied) (enabled : s.Enabled e) (finds : s.FindsReady e)
    (h : s.turn e = .ok s') : s'.Supplied := by
  have call : ∀ pc : Pc, s.running.pc = .user → pc.due = false → (s.goto pc).Supplied := by
    intro pc user due
    exact i.keep i.tight (fun ready => ready) (fun h => absurd (due.symm.trans h) (by decide))
      (fun _ => by rw [user]; rfl) rfl fun _ _ hf => hf
  cases e with
  | statement => exact i.done finds (statement_done h)
  | tick =>
      cases h
      exact ⟨i.tight, fun h => absurd h Bool.false_ne_true, fun _ => i.due, i.parked⟩
  | yield | wait _ | wake _ =>
      cases h
      exact call _ enabled rfl
  | exit =>
      obtain ⟨t, -, ht⟩ := withCurrent_ok.mp h
      cases ht
      exact call _ enabled rfl
  | create ti tid =>
      cases h
      refine ⟨i.tight, fun h => absurd h Bool.false_ne_true, ?_, ?_⟩
      · exact fun _ hbelow => i.below (by rw [enabled.1]; rfl) hbelow
      · intro t f hf
        by_cases ht : t = ti
        · subst ht
          have hstart : f = Flow.start t := by
            simpa [Machine.goto, Machine.newThread] using hf.symm
          exact .inl (hstart ▸ rfl)
        · refine i.parked t f ?_
          simpa [Machine.goto, Machine.newThread, Function.update_of_ne ht] using hf

theorem Init.supplied (init : s.Init) : s.Supplied := by
  refine ⟨?_, ?_, ?_, ?_⟩
  · rw [init.ready]
    exact fun _ => rfl
  · rw [init.running]
    exact fun h => absurd h Bool.false_ne_true
  · rw [init.running]
    exact fun _ h => absurd h Bool.false_ne_true
  · intro t f hf
    rw [init.context] at hf
    cases hf

/-- As long as a thread is ready whenever a flow that has found one goes on, the
scheduler never takes from an empty queue. -/
theorem never_dequeues_empty (reach : s.Reachable FindsReady) : ¬ s.DequeuesEmpty := by
  have supplied : s.Supplied := reach.invariant Supplied (fun _ init => init.supplied)
    fun _ _ _ permitted taken i => i.turn permitted.1 permitted.2 (step_iff.mp taken)
  rintro ⟨w, hpc, hempty⟩
  refine supplied.due ?_ hempty
  cases hpc with
  | inl hpc | inr hpc => rw [hpc]; rfl

/-- Thread 0 is interrupted behind its test, thread 1 yields, and thread 0 takes
the thread that it found. -/
theorem takes_what_it_found :
    ∃ s : Machine, (s.running.owner = 0 ∧ s.running.pc = .first (.yield 0)) ∧
      ¬ s.DequeuesEmpty := by
  obtain ⟨s, reach, hfirst⟩ := exists_reachable FindsReady
    (fun s => s.running.owner = 0 ∧ s.running.pc = .first (.yield 0))
    ([.create 1 1] ++ Turn.statements 6 ++ [.yield, .statement, .tick] ++ Turn.statements 13 ++
      [.yield] ++ Turn.statements 21) (by decide +kernel)
  exact ⟨s, hfirst, never_dequeues_empty reach⟩

/-- Thread 0 yields and finds thread 1 ready. The timer gives the processor to
thread 1, which ends, and thread 0 goes on with an empty queue. -/
theorem dequeues_empty : ¬ ∀ s : Machine, s.Reachable Outside → ¬ s.DequeuesEmpty := by
  intro never
  obtain ⟨s, reach, hfirst, hempty⟩ := exists_reachable Outside
    (fun s => s.running.pc = .first (.yield 0) ∧ s.queues.gQueueReady.first = none)
    ([.create 1 1] ++ Turn.statements 6 ++ [.yield, .statement, .tick] ++ Turn.statements 13 ++
      [.exit] ++ Turn.statements 28) (by decide +kernel)
  exact never s reach ⟨_, .inl hfirst, hempty⟩

/-- Some statements further on the flow takes from an empty queue. -/
def Starves (s : Machine) : Prop :=
  ∃ es s', Runs.Steps Enabled Step s es s' ∧ s'.DequeuesEmpty

theorem Starves.statement (h : s.statement = .ok s') (starves : s'.Starves) : s.Starves := by
  obtain ⟨es, s'', run, hempty⟩ := starves
  exact ⟨.statement :: es, s'', .cons trivial (step_iff.mpr h) run, hempty⟩

theorem starves_stopTimer (free : s.queues.gQueueSpinlock = false)
    (empty : s.queues.gQueueReady.first = none) (w : Switch) :
    (s.goto (.stopTimer (.switch w))).Starves := by
  have hspin : ({ s with armed := false }.goto (.spin (.switch w))).statement =
      .ok ({ s with armed := false }.goto (.setLock (.switch w))) := by
    refine congrArg Except.ok (if_neg ?_)
    change ¬ s.queues.gQueueSpinlock = true
    simp [free]
  have hfirst : ({ s with
      queues := { s.queues with gQueueSpinlock := true }, armed := true }.goto
      (.first w)).Starves :=
    ⟨[], _, .nil _, w, .inl rfl, empty⟩
  have hstop : (s.goto (.stopTimer (.switch w))).statement =
      .ok ({ s with armed := false }.goto (.spin (.switch w))) := rfl
  exact Starves.statement hstop
    (Starves.statement hspin (Starves.statement rfl (Starves.statement rfl hfirst)))

/-- Wherever the flow stands between the test and the section, it goes on into the section. -/
theorem starves_of_due {t : ThreadId} (current : s.queues.current = some t)
    (free : s.queues.gQueueSpinlock = false) (empty : s.queues.gQueueReady.first = none)
    {pc : Pc} (due : pc.due = true) (stage : pc.stage = .outside) : (s.goto pc).Starves := by
  have stop := starves_stopTimer free empty
  have step : ∀ {pc pc' : Pc}, (s.goto pc).statement = .ok (s.goto pc') →
      (s.goto pc').Starves → (s.goto pc).Starves := fun h => Starves.statement h
  have store : ∀ tmp, (s.goto (.scheduleStore tmp)).Starves := fun tmp =>
    step (withCurrent_ok.mpr ⟨t, current, rfl⟩) (stop (.yield tmp))
  have swap : ∀ tmp, (s.goto (.swapStore tmp)).Starves := fun tmp =>
    step (withCurrent_ok.mpr ⟨t, current, rfl⟩) (stop (.wait tmp))
  have tmp : (s.goto .scheduleTmp).Starves :=
    step (withCurrent_ok.mpr ⟨t, current, rfl⟩) (store t)
  have null : (s.goto .scheduleNull).statement = .ok (s.goto .scheduleTmp) := by
    refine congrArg (fun pc => Except.ok (s.goto pc)) (if_neg ?_)
    intro hnone
    cases hnone.symm.trans current
  cases pc with
  | scheduleNull => exact step null tmp
  | scheduleTmp => exact tmp
  | scheduleStore t' => exact store t'
  | swapTmp => exact step (withCurrent_ok.mpr ⟨t, current, rfl⟩) (swap t)
  | swapStore t' => exact swap t'
  | stopTimer sec =>
      cases sec with
      | switch w => exact stop w
      | create _ | release _ _ => cases due
  | spin _ | setLock _ | startTimer _ | first _ | removeHead _ => cases stage
  | _ => cases due

theorem outside_of_due {pc : Pc} (due : pc.due = true) (masked : pc.masked = false)
    (holding : pc.holding = false) : pc.stage = .outside := by
  cases pc with
  | spin _ | setLock _ | startTimer _ => cases masked
  | first _ | removeHead _ => cases holding
  | stopTimer _ | scheduleNull | scheduleTmp | scheduleStore _ | swapTmp | swapStore _ => rfl
  | _ => cases due

theorem Done.resumed (done : s.Done s') {f : Flow} (h : s.resumed = some f) :
    s'.running = f ∧ s'.queues = s.queues ∧ s.queues.current ≠ none ∧
      ∃ t, s'.context t = some f := by
  cases done with
  | @swapcontext tmp t g pc current context =>
      have hfg : g = f := by
        simpa only [Machine.resumed, pc, current, Option.bind_some, context,
          Option.some.injEq] using h
      subst hfg
      exact ⟨rfl, rfl, by simp [current], t, context⟩
  | @setcontext t g pc current context =>
      have hfg : g = f := by
        simpa only [Machine.resumed, pc, current, Option.bind_some, context,
          Option.some.injEq] using h
      subst hfg
      exact ⟨rfl, rfl, by simp [current], t, context⟩
  | _ => simp [Machine.resumed, *] at h

/-- Every other switch to an interrupted flow ends there: the condition leaves out
no harmless one. -/
theorem Guarded.starves (g : s.Guarded) (finds : ¬ s.FindsReady e) (step : s.Step e s') :
    s'.Starves := by
  simp only [FindsReady, Classical.not_imp, Decidable.not_not] at finds
  obtain ⟨rfl, hdue, hempty⟩ := finds
  obtain ⟨f, hf, hon⟩ := (Option.any_eq_true _ _).mp hdue
  obtain ⟨d, hbelow, hd⟩ := (Option.any_eq_true _ _).mp hon
  have done := statement_done (step_iff.mp step)
  obtain ⟨hrunning, hqueues, hcurrent, t, hcontext⟩ := done.resumed hf
  have g' := g.effect done.effect
  have hparked := g'.parked t f hcontext
  have hpc : f.pc = .switchPages := by
    cases hparked.pc with
    | inl huser => cases huser.2.symm.trans hbelow
    | inr hpc => exact hpc
  have hunmasked := hparked.unmasked
  have hoff := hparked.offHolder
  rw [Flow.onHolder] at hoff
  rw [hbelow, Option.any_some] at hunmasked hoff
  obtain ⟨c, hc⟩ := Option.ne_none_iff_exists'.mp (hqueues ▸ hcurrent)
  have hlock : s'.queues.gQueueSpinlock = false := by
    rw [g'.lock, hrunning, hpc, hparked.offHolder]
    rfl
  have hleave : s'.leave = ({ s' with running := { f with interrupted := none } }.goto d) := by
    rw [Machine.leave, hrunning, Flow.leave_of_some hbelow]
    rfl
  have hreturn : s'.statement = .ok s'.leave := by
    rw [Machine.statement, hrunning, hpc]
    exact withCurrent_ok.mpr ⟨c, hc, rfl⟩
  refine Starves.statement hreturn (hleave ▸ ?_)
  exact starves_of_due (s := { s' with running := { f with interrupted := none } }) hc hlock
    (hqueues ▸ hempty) hd (outside_of_due hd hunmasked hoff)

end Machine

end OsDesign.Timer
