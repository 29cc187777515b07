import OsDesign.Timer.Deadlock
import OsDesign.Timer.Places

/-!
`CURRENT` where the timer may come. It is the running thread except in two
windows, which every switch and every end of a thread goes through.
-/
namespace OsDesign.Timer

open Pthread Virt TailQueue

namespace Machine

variable {s s' : Machine} {rs ws waiting : List ThreadId} {t : ThreadId} {e : Turn}

/-- The timer comes outside the sections and outside the two windows. -/
def OutsideWindows (s : Machine) (e : Turn) : Prop :=
  e = .tick → s.queues.gQueueSpinlock = false ∧ s.running.pc.inWindow = false

/-- The statements of `acquire_queue_spinlock` lead one section. -/
theorem calls_acquire (sec : Section) :
    Calls (.stopTimer sec) (.spin sec) ∧ Calls (.spin sec) (.setLock sec) ∧
      Calls (.setLock sec) (.startTimer sec) := by
  cases sec with
  | switch _ | create _ | release _ _ =>
      exact ⟨⟨rfl, rfl, nofun, nofun, rfl, id⟩, ⟨rfl, rfl, nofun, nofun, rfl, id⟩,
        ⟨rfl, rfl, nofun, nofun, rfl, id⟩⟩

theorem calls_entry (sec : Section) (q : Queues) :
    Calls (.startTimer sec) (sec.entry q) := by
  cases sec with
  | switch _ | create _ | release _ _ => exact ⟨rfl, rfl, nofun, nofun, rfl, id⟩

theorem fits_acquire (f : Flow) (sec : Section) :
    ((Pc.stopTimer sec).Fits f → (Pc.spin sec).Fits f) ∧
      ((Pc.spin sec).Fits f → (Pc.setLock sec).Fits f) ∧
      ((Pc.setLock sec).Fits f → (Pc.startTimer sec).Fits f) := by
  cases sec with
  | switch _ | create _ | release _ _ => exact ⟨id, id, id⟩

theorem fits_entry {f : Flow} {sec : Section} (q : Queues) (fits : (Pc.startTimer sec).Fits f) :
    (sec.entry q).Fits f := by
  cases sec with
  | switch w => exact fits
  | create _ => rfl
  | release _ _ => trivial

theorem Placed.done (threads : s.Threads waiting) (line : s.Line rs ws waiting)
    (done : s.Done s') : s'.Placed := by
  have move : ∀ pc, Calls s.running.pc pc → pc.Fits s.running →
      (∀ t, pc.cursor = some t → t ∈ ws) → (s.goto pc).Placed :=
    fun pc calls fits cursor =>
      Placed.move threads line calls rfl rfl rfl line.links rfl fits cursor
  have leave := Placed.leave threads line
  have fits := threads.fits
  have current : s.running.pc.place = .seated → s.queues.current = s.running.own.head? :=
    fun seated => (Stands.of_place line _ seated).1
  cases done with
  | user _ | spinOn _ _ => exact ⟨rs, ws, waiting, threads, line⟩
  | scheduleEmpty pc _ | swapEmpty pc _ | switchPages pc =>
      exact leave (by rw [pc]; rfl) (by rw [pc]; rfl) (by rw [pc]; exact nofun)
  | scheduleReady pc _ | scheduleElse pc _ | swapReady pc _ | exitMutex pc | exitPages pc =>
      rw [pc] at move
      exact move _ ⟨rfl, rfl, nofun, nofun, rfl, id⟩ trivial nofun
  | scheduleNull pc null =>
      have hexited := Flow.exited_of_own ((current (by rw [pc]; rfl)).symm.trans null)
      rw [pc] at move
      exact move _ ⟨rfl, rfl, nofun, nofun, rfl, id⟩ hexited nofun
  | scheduleTmp pc hcurrent | swapTmp pc hcurrent =>
      have hnames := Flow.names_of_own ((current (by rw [pc]; rfl)).symm.trans hcurrent)
      rw [pc] at move
      exact move _ ⟨rfl, rfl, nofun, nofun, rfl, id⟩ hnames nofun
  | scheduleStore pc | swapStore pc =>
      rw [pc] at move fits
      exact move _ ⟨rfl, rfl, nofun, nofun, rfl, fun _ => rfl⟩ fits nofun
  | setMu pc _ =>
      exact Placed.move threads line (by rw [pc]; exact ⟨rfl, rfl, nofun, nofun, rfl, id⟩) rfl rfl
        rfl ⟨line.links.ready, line.links.wait, line.links.apart⟩ rfl trivial nofun
  | @stopTimer sec pc =>
      rw [pc] at fits
      exact Placed.move threads line (pc ▸ (calls_acquire sec).1) rfl rfl rfl line.links rfl
        ((fits_acquire _ sec).1 fits) nofun
  | @spin sec pc _ =>
      rw [pc] at fits
      exact move _ (pc ▸ (calls_acquire sec).2.1) ((fits_acquire _ sec).2.1 fits) nofun
  | @setLock sec pc =>
      rw [pc] at fits
      exact Placed.move threads line (pc ▸ (calls_acquire sec).2.2) rfl rfl rfl
        ⟨line.links.ready, line.links.wait, line.links.apart⟩ rfl ((fits_acquire _ sec).2.2 fits)
        nofun
  | @startTimer sec pc =>
      rw [pc] at fits
      refine Placed.move threads line (pc ▸ calls_entry sec s.queues) rfl rfl rfl line.links rfl
        (fits_entry s.queues fits) ?_
      intro t ht
      cases sec with
      | switch _ | create _ => cases ht
      | release every mu =>
          have hhead : ws.head? = some t := line.links.wait.first_eq.symm.trans ht
          exact List.mem_of_head? hhead
  | first pc => exact Placed.first threads line pc
  | removeHead pc removed => exact Placed.removeHead threads line pc removed
  | @insertReady sec t pc =>
      cases sec with
      | switch w => exact Placed.queueReady threads line pc
      | create ti =>
          have hti : t = ti := by
            rw [pc] at fits
            exact fits
          subst hti
          exact Placed.queueNew threads line pc
      | release every mu => exact Placed.queueReleased threads line pc
  | insertWait pc => exact Placed.queueWait threads line pc
  | scanEnd pc =>
      rw [pc] at move
      exact move _ ⟨rfl, rfl, nofun, nofun, rfl, id⟩ trivial nofun
  | @scanMatch every mu ti pc _ =>
      have hcursor := line.cursor ti (by rw [pc]; rfl)
      rw [pc] at move
      refine move _ ⟨rfl, rfl, nofun, nofun, rfl, id⟩ trivial ?_
      intro t ht
      cases ht
      exact hcursor
  | @scanNext every mu ti pc _ =>
      have hcursor := line.cursor ti (by rw [pc]; rfl)
      rw [pc] at move
      exact move _ ⟨rfl, rfl, nofun, nofun, rfl, id⟩ trivial
        fun t ht => line.links.wait.segment.link_mem hcursor ht
  | remove pc removed => exact Placed.remove threads line pc removed
  | @unlock sec pc =>
      have hlinks : s.queues.releaseQueueSpinlock.Links rs ws :=
        ⟨line.links.ready, line.links.wait, line.links.apart⟩
      have hleave : (s.running.pc.place = .seated) → s.running.pc.making = none →
          s.running.pc ≠ .exitNull →
          ({ s with queues := s.queues.releaseQueueSpinlock }.leave).Placed :=
        Placed.leave (threads.withQueues _) ⟨hlinks, line.place, line.cursor⟩
      cases sec with
      | switch w => exact Placed.unlockSwitch threads line pc
      | create _ => exact hleave (by rw [pc]; rfl) (by rw [pc]; rfl) (by rw [pc]; exact nofun)
      | release every _ =>
          cases every with
          | false => exact hleave (by rw [pc]; rfl) (by rw [pc]; rfl) (by rw [pc]; exact nofun)
          | true =>
              exact Placed.move threads line (by rw [pc]; exact ⟨rfl, rfl, nofun, nofun, rfl, id⟩)
                rfl rfl rfl hlinks rfl trivial nofun
  | swapcontext pc hcurrent context => exact Placed.swapcontext threads line pc hcurrent context
  | setcontext pc hcurrent context => exact Placed.setcontext threads line pc hcurrent context
  | @exitFree t pc hcurrent =>
      have hstands := Stands.of_place line .seated (by rw [pc]; rfl)
      have hnames := Flow.names_of_own (hstands.1.symm.trans hcurrent)
      exact ⟨rs, ws, waiting, threads.free pc hnames, line.links, hstands, nofun⟩
  | exitNull pc =>
      have hstands := Stands.of_place line .seated (by rw [pc]; rfl)
      exact ⟨rs, ws, waiting, threads.exit pc rfl rfl rfl,
        ⟨line.links.ready, line.links.wait, line.links.apart⟩, ⟨rfl, hstands.2⟩, nofun⟩

/-- Where the timer runs and the lock is free, only the windows are not calm. -/
theorem Guarded.calm (g : s.Guarded) (armed : s.armed = true)
    (free : s.queues.gQueueSpinlock = false) (window : s.running.pc.inWindow = false) :
    s.running.pc.calm = true := by
  have hholding : s.running.pc.holding = false := by
    have hlock := g.lock
    rw [free] at hlock
    exact (Bool.or_eq_false_iff.mp hlock.symm).1
  have hmasked : s.running.pc.masked = false := by
    have harmed := g.armed
    rw [armed] at harmed
    simpa using harmed.symm
  rw [Pc.calm, hmasked, hholding, window]
  rfl

theorem Placed.turn (placed : s.Placed) (g : s.Guarded) (enabled : s.Enabled e)
    (outside : s.OutsideWindows e) (h : s.turn e = .ok s') : s'.Placed := by
  obtain ⟨rs, ws, waiting, threads, line⟩ := placed
  have call : ∀ pc : Pc, s.running.pc = .user → Calls .user pc → pc.Fits s.running →
      (∀ t, pc.cursor = some t → t ∈ ws) → (s.goto pc).Placed := by
    intro pc user calls fits cursor
    exact Placed.move threads line (user ▸ calls) rfl rfl rfl line.links rfl fits cursor
  cases e with
  | statement => exact Placed.done threads line (statement_done h)
  | tick =>
      cases h
      obtain ⟨hfree, hwindow⟩ := outside rfl
      have hcalm := g.calm enabled.1 hfree hwindow
      exact ⟨rs, ws, waiting, threads.interrupt hcalm enabled.2, line.links,
        Stands.of_place line _ (Pc.place_of_calm hcalm).1, nofun⟩
  | yield =>
      exact Except.ok.inj h ▸ call _ enabled ⟨rfl, rfl, nofun, nofun, rfl, nofun⟩ trivial nofun
  | wait mu =>
      exact Except.ok.inj h ▸ call _ enabled ⟨rfl, rfl, nofun, nofun, rfl, nofun⟩ trivial nofun
  | wake mu =>
      exact Except.ok.inj h ▸ call _ enabled ⟨rfl, rfl, nofun, nofun, rfl, nofun⟩ trivial nofun
  | exit =>
      obtain ⟨t, -, ht⟩ := withCurrent_ok.mp h
      exact Except.ok.inj ht ▸ call _ enabled ⟨rfl, rfl, nofun, nofun, rfl, nofun⟩ trivial nofun
  | create ti tid =>
      cases h
      have hstands := Stands.of_place line .seated (by rw [enabled.1]; rfl)
      have hnot : ∀ u, u ∈ rs ++ ws → u ≠ ti := by
        intro u hu same
        have hlive := threads.suspended.live u (hstands.2.mem_iff.mp hu)
        rw [same, enabled.2] at hlive
        cases hlive
      refine ⟨rs, ws, waiting, threads.newThread enabled.1 enabled.2 tid, ⟨?_, ?_, ?_⟩, hstands,
        nofun⟩
      · refine line.links.ready.congr fun u hu => ?_
        exact Function.update_of_ne (hnot u (List.mem_append_left ws hu)) _ _
      · refine line.links.wait.congr fun u hu => ?_
        exact Function.update_of_ne (hnot u (List.mem_append_right rs hu)) _ _
      · exact line.links.apart

theorem Init.placed (init : s.Init) : s.Placed := by
  have hrunning := init.running
  have hpc : s.running.pc = .user := by rw [hrunning]; rfl
  have hidle : s.running.interrupted = none := by rw [hrunning]; rfl
  have hexited : s.running.exited = false := by rw [hrunning]; rfl
  refine ⟨[], [], [], ⟨⟨List.nodup_nil, nofun, nofun, nofun, nofun⟩, nofun, ?_, ?_, ?_, ?_, ?_, ?_,
    nofun⟩, ⟨?_, ?_, nofun⟩, ?_, ?_⟩
  · exact fun _ _ => (init.live _).mpr rfl
  · rw [hpc]
    exact nofun
  · rw [hpc]
    trivial
  · rw [hidle]
    exact nofun
  · exact fun h => absurd hidle h
  · intro x hx
    rw [Flow.making, hidle, hpc] at hx
    cases hx
  · rw [init.ready]
    exact IsQueue.empty _
  · rw [init.wait]
    exact IsQueue.empty _
  · rw [hpc]
    refine ⟨?_, List.Perm.refl []⟩
    rw [init.current, Flow.own_of_running hexited]
    rfl
  · rw [hpc]
    intro t h
    cases h

instance (s : Machine) : DecidablePred s.OutsideWindows := fun e => inferInstanceAs (Decidable
  (e = .tick → s.queues.gQueueSpinlock = false ∧ s.running.pc.inWindow = false))

end Machine

end OsDesign.Timer
