import OsDesign.Preempt.Machine

/-!
Where the flows of the threads are. While `swapcontext` follows the locked
section of `schedule_swap_current_to_wait` without a switch in between, every
thread finds its own flow in its context, and the threads in the wait queue are
those that stand behind that `swapcontext`.
-/
namespace OsDesign.Preempt

open Pthread Virt

namespace Pc

/-- The handle of the call that a flow is in. -/
def handle : Pc → Option Nat
  | .user => none
  | .lockUsed h | .lockRange h | .lockTest h | .takeRead h | .takeWrite h _ | .waitRead h
  | .waitWrite h _ | .setMu h | .swapEmpty h | .swapTmp h | .swapStore h _ | .swapSection h _
  | .swapContext h _ | .swapPages h | .lockReturn h _ | .unlockUsed h | .unlockRange h
  | .unlockZero h | .unlockOne h | .lastRead h | .lastWrite h _ | .moreRead h | .moreWrite h _
  | .release h | .unlockReturn h _ => some h

/-- The flow is between the locked section of `schedule_swap_current_to_wait`
and its `swapcontext`. -/
def switching : Pc → Bool
  | .swapContext _ _ => true
  | _ => false

/-- What a statement expects of the thread `t` and of its fields. -/
def Fits (t : ThreadId) (mu : Nat) (waiting : Prop) : Pc → Prop
  | .swapEmpty h | .swapTmp h => ¬ waiting ∧ mu = h
  | .swapStore h tmp | .swapSection h tmp => ¬ waiting ∧ mu = h ∧ tmp = t
  | .swapContext h tmp => waiting ∧ mu = h ∧ tmp = t
  | .swapPages h => mu = h
  | .lockReturn _ value => ¬ waiting ∧ value = 0
  | _ => ¬ waiting

theorem Fits.of_waiting {t : ThreadId} {mu : Nat} {waiting : Prop} {pc : Pc}
    (fits : pc.Fits t mu waiting) (h : waiting) :
    pc = .swapContext mu t ∨ pc = .swapPages mu := by
  cases pc with
  | swapContext h' tmp =>
      obtain ⟨-, hmu, htmp⟩ := fits
      exact .inl (by rw [hmu, htmp])
  | swapPages h' => exact .inr (by rw [fits])
  | swapEmpty _ | swapTmp _ | swapStore _ _ | swapSection _ _ | lockReturn _ _ =>
      exact absurd h fits.1
  | user | lockUsed _ | lockRange _ | lockTest _ | takeRead _ | takeWrite _ _ | waitRead _
  | waitWrite _ _ | setMu _ | unlockUsed _ | unlockRange _ | unlockZero _
  | unlockOne _ | lastRead _ | lastWrite _ _ | moreRead _ | moreWrite _ _ | release _
  | unlockReturn _ _ => exact absurd h fits

end Pc

/-- The threads of the machine, each with its flow. -/
structure Seated (threads : Finset ThreadId) (mutexes : Nat → Bool) (s : Watched) : Prop where
  holds : s.machine.queues.Holds s.machine.queues.ready s.machine.queues.wait
  members : ∀ t, t ∈ s.machine.queues.members s.machine.queues.ready s.machine.queues.wait ↔
    t ∈ threads
  owner : ∀ t, t ∈ threads → (s.machine.flow t).owner = t
  fits : ∀ t, t ∈ threads →
    (s.machine.flow t).pc.Fits t (s.machine.queues.mu t) (t ∈ s.machine.queues.wait)
  saved : ∀ t, t ∈ threads → t ≠ s.machine.running.owner →
    (s.machine.flow t).pc.switching = false
  runs : s.machine.running.owner ∈ threads
  current : ∃ t, s.machine.queues.current = some t ∧
    (s.machine.running.pc.switching = false → t = s.machine.running.owner)
  handles : ∀ t, t ∈ threads → ∀ h, (s.machine.flow t).pc.handle = some h → mutexes h = true
  table : ∀ h, mutexes h = true → h < maxMutexNum ∧ (s.machine.gMutexTable h).used = true
  holding : ∀ h t, 0 < s.holding h t → t ∈ threads ∧ mutexes h = true

variable {threads : Finset ThreadId} {mutexes : Nat → Bool} {s s' : Watched} {t u : ThreadId}
  {h m : Nat} {pc : Pc}

theorem Machine.flow_owner (s : Machine) : s.flow s.running.owner = s.running := by
  simp [flow]

theorem Machine.flow_of_ne {s : Machine} (hne : t ≠ s.running.owner) :
    s.flow t = s.context t := by
  simp [flow, hne]

namespace Seated

/-- Outside the window the running thread is `CURRENT`, and no waiting thread. -/
theorem current_eq (seated : Seated threads mutexes s)
    (whole : s.machine.running.pc.switching = false) :
    s.machine.queues.current = some s.machine.running.owner ∧
      s.machine.running.owner ∉ s.machine.queues.wait := by
  obtain ⟨t, hcurrent, hsame⟩ := seated.current
  rw [hsame whole] at hcurrent
  exact ⟨hcurrent, (seated.holds.notMem_ready hcurrent).2⟩

theorem fits_running (seated : Seated threads mutexes s) :
    s.machine.running.pc.Fits s.machine.running.owner
      (s.machine.queues.mu s.machine.running.owner)
      (s.machine.running.owner ∈ s.machine.queues.wait) := by
  have := seated.fits _ seated.runs
  rw [Machine.flow_owner] at this
  exact this

end Seated

/-- The running thread goes on by itself: besides its statement, only a count,
its `mu` and what it holds may change. -/
structure Local (s s' : Watched) (pc : Pc) : Prop where
  running : s'.machine.running = ⟨s.machine.running.owner, pc⟩
  context : s'.machine.context = s.machine.context
  queues : s'.machine.queues = { s.machine.queues with mu := s'.machine.queues.mu }
  mu : ∀ u, u ≠ s.machine.running.owner → s'.machine.queues.mu u = s.machine.queues.mu u
  used : ∀ h, (s'.machine.gMutexTable h).used = (s.machine.gMutexTable h).used

namespace Local

theorem owner (loc : Local s s' pc) : s'.machine.running.owner = s.machine.running.owner := by
  rw [loc.running]

theorem flow_self (loc : Local s s' pc) :
    s'.machine.flow s.machine.running.owner = ⟨s.machine.running.owner, pc⟩ := by
  rw [← loc.running, ← loc.owner, Machine.flow_owner]

theorem flow_other (loc : Local s s' pc) (hne : u ≠ s.machine.running.owner) :
    s'.machine.flow u = s.machine.flow u := by
  rw [Machine.flow_of_ne hne, Machine.flow_of_ne (loc.owner ▸ hne), loc.context]

/-- The next statement finds what it expects. -/
theorem seated (loc : Local s s' pc) (seated : Seated threads mutexes s)
    (whole : s.machine.running.pc.switching = false)
    (fits : s.machine.running.owner ∉ s.machine.queues.wait →
      pc.Fits s.machine.running.owner (s'.machine.queues.mu s.machine.running.owner)
        (s.machine.running.owner ∈ s.machine.queues.wait))
    (handles : ∀ h, pc.handle = some h → mutexes h = true)
    (holding : ∀ h t, 0 < s'.holding h t → t ∈ threads ∧ mutexes h = true) :
    Seated threads mutexes s' := by
  obtain ⟨hcurrent, hnot⟩ := seated.current_eq whole
  have hready : s'.machine.queues.ready = s.machine.queues.ready := by
    rw [loc.queues]
    rfl
  have hwait : s'.machine.queues.wait = s.machine.queues.wait := by
    rw [loc.queues]
    rfl
  have hcurrent' : s'.machine.queues.current = s.machine.queues.current := by
    rw [loc.queues]
  refine ⟨?_, ?_, ?_, ?_, ?_, ?_, ?_, ?_, ?_, holding⟩
  · rw [hready, hwait, loc.queues]
    exact seated.holds.setMu _
  · intro t
    rw [hready, hwait, Queues.members, hcurrent']
    exact seated.members t
  · intro t ht
    by_cases same : t = s.machine.running.owner
    · rw [same, loc.flow_self]
    · rw [loc.flow_other same]
      exact seated.owner t ht
  · intro t ht
    rw [hwait]
    by_cases same : t = s.machine.running.owner
    · rw [same, loc.flow_self]
      exact fits hnot
    · rw [loc.flow_other same, loc.mu t same]
      exact seated.fits t ht
  · intro t ht hne
    rw [loc.owner] at hne
    rw [loc.flow_other hne]
    exact seated.saved t ht hne
  · rw [loc.owner]
    exact seated.runs
  · exact ⟨_, hcurrent'.trans hcurrent, fun _ => loc.owner.symm⟩
  · intro t ht h hh
    by_cases same : t = s.machine.running.owner
    · rw [same, loc.flow_self] at hh
      exact handles h hh
    · rw [loc.flow_other same] at hh
      exact seated.handles t ht h hh
  · intro h hh
    rw [loc.used]
    exact seated.table h hh

end Local

/-- A switch between two flows leaves every thread where it is. -/
theorem Machine.flow_swapcontext {s : Machine} (current : s.queues.current = some t)
    (hne : t ≠ s.running.owner) (own : (s.context t).owner = t) :
    ∃ r, s.swapcontext s.running.owner = .ok r ∧ r.running = s.context t ∧
      r.queues = s.queues ∧ r.gMutexTable = s.gMutexTable ∧ ∀ u, r.flow u = s.flow u := by
  refine ⟨{ s with
    context := Function.update s.context s.running.owner s.running
    running := s.context t }, ?_, rfl, rfl, rfl, ?_⟩
  · simp [swapcontext, setcontext, current, hne]
  · intro u
    by_cases hnext : u = t
    · rw [hnext, flow_of_ne hne]
      simp [flow, own]
    · by_cases howner : u = s.running.owner
      · rw [howner, flow_owner]
        have hother : s.running.owner ≠ t := Ne.symm hne
        simp [flow, own, hother]
      · simp [flow, own, hnext, howner]

/-- The queues hold other lists of the same threads, and the thread that ran is
at `pc`. Every other thread is where it was. -/
structure Moved (s s' : Watched) (pc : Pc) (rs ws : List ThreadId) : Prop where
  holds : s'.machine.queues.Holds rs ws
  members : ∀ t, t ∈ s'.machine.queues.members rs ws ↔
    t ∈ s.machine.queues.members s.machine.queues.ready s.machine.queues.wait
  self : s'.machine.flow s.machine.running.owner = ⟨s.machine.running.owner, pc⟩
  other : ∀ u, u ≠ s.machine.running.owner → s'.machine.flow u = s.machine.flow u
  mu : s'.machine.queues.mu = s.machine.queues.mu
  table : s'.machine.gMutexTable = s.machine.gMutexTable
  holding : s'.holding = s.holding

/-- A thread that is not switching may leave the wait queue. -/
theorem Pc.Fits.leave {waiting waiting' : Prop} {mu : Nat} (fits : pc.Fits t mu waiting)
    (saved : pc.switching = false) (h : waiting' → waiting) : pc.Fits t mu waiting' := by
  cases pc with
  | swapContext h' tmp => cases saved
  | swapPages h' => exact fits
  | swapEmpty _ | swapTmp _ | swapStore _ _ | swapSection _ _ | lockReturn _ _ =>
      exact ⟨fun hw => fits.1 (h hw), fits.2⟩
  | user | lockUsed _ | lockRange _ | lockTest _ | takeRead _ | takeWrite _ _ | waitRead _
  | waitWrite _ _ | setMu _ | unlockUsed _ | unlockRange _ | unlockZero _
  | unlockOne _ | lastRead _ | lastWrite _ _ | moreRead _ | moreWrite _ _ | release _
  | unlockReturn _ _ => exact fun hw => fits (h hw)

/-- Threads leave the wait queue, or the one that ran enters it. -/
theorem Moved.seated {rs ws : List ThreadId} (moved : Moved s s' pc rs ws)
    (seated : Seated threads mutexes s)
    (less : ∀ u, u ≠ s.machine.running.owner → u ∈ ws → u ∈ s.machine.queues.wait)
    (fits : pc.Fits s.machine.running.owner (s.machine.queues.mu s.machine.running.owner)
      (s.machine.running.owner ∈ ws))
    (stays : pc.handle = s.machine.running.pc.handle)
    (saved : s.machine.running.owner ≠ s'.machine.running.owner → pc.switching = false)
    (runs : s'.machine.running.owner ∈ threads)
    (current : ∃ t, s'.machine.queues.current = some t ∧
      (s'.machine.running.pc.switching = false → t = s'.machine.running.owner)) :
    Seated threads mutexes s' := by
  have hself := moved.self
  have hother := moved.other
  refine ⟨?_, ?_, ?_, ?_, ?_, runs, current, ?_, ?_, ?_⟩
  · rw [moved.holds.ready_eq, moved.holds.wait_eq]
    exact moved.holds
  · intro t
    rw [moved.holds.ready_eq, moved.holds.wait_eq, moved.members t]
    exact seated.members t
  · intro t ht
    by_cases same : t = s.machine.running.owner
    · rw [same, hself]
    · rw [hother t same]
      exact seated.owner t ht
  · intro t ht
    rw [moved.mu, moved.holds.wait_eq]
    by_cases same : t = s.machine.running.owner
    · rw [same, hself]
      exact fits
    · rw [hother t same]
      exact (seated.fits t ht).leave (seated.saved t ht same) (less t same)
  · intro t ht hne
    by_cases same : t = s.machine.running.owner
    · rw [same, hself]
      exact saved (same ▸ hne)
    · rw [hother t same]
      exact seated.saved t ht same
  · intro t ht h hh
    by_cases same : t = s.machine.running.owner
    · rw [same, hself] at hh
      refine seated.handles _ seated.runs h ?_
      rw [Machine.flow_owner, ← stays]
      exact hh
    · rw [hother t same] at hh
      exact seated.handles t ht h hh
  · rw [moved.table]
    exact seated.table
  · rw [moved.holding]
    exact seated.holding

namespace Seated

/-- What is known of a thread that is not the running one. -/
theorem other (seated : Seated threads mutexes s) (ht : t ∈ threads)
    (hne : t ≠ s.machine.running.owner) :
    (s.machine.context t).owner = t ∧ (s.machine.context t).pc.switching = false := by
  have howner := seated.owner t ht
  have hsaved := seated.saved t ht hne
  rw [Machine.flow_of_ne hne] at howner hsaved
  exact ⟨howner, hsaved⟩

/-- The locked section of `schedule_swap_current_to_wait` has a ready thread to go on with. -/
theorem swapSection (seated : Seated threads mutexes s) {q : Queues}
    (whole : s.machine.running.pc.switching = false)
    (h : s.machine.queues.swapSection s.machine.running.owner = .ok q) :
    ∃ next rest, s.machine.queues.ready = next :: rest ∧ q.current = some next ∧
      q.Holds rest (s.machine.queues.wait ++ [s.machine.running.owner]) ∧
      s.machine.queues.Frame q := by
  obtain ⟨hcurrent, -⟩ := seated.current_eq whole
  have holds := seated.holds
  cases hready : s.machine.queues.ready with
  | nil =>
      rw [hready] at holds
      have hnone : ({ s.machine.queues with gQueueSpinlock := true } :
          Queues).takeFirstReady = .error .nullDereference := by
        simp only [Queues.takeFirstReady, holds.ready.first_of_nil]
      rw [Queues.swapSection, Queues.acquire_ok holds.unlocked] at h
      change Queues.takeFirstReady _ >>= _ = _ at h
      rw [hnone] at h
      cases h
  | cons next rest =>
      rw [hready] at holds
      obtain ⟨q', hq, hnext, hholds, hframe⟩ := holds.swapSection hcurrent
      rw [hq, Except.ok.injEq] at h
      rw [← h]
      exact ⟨next, rest, rfl, hnext, hholds, hframe⟩

end Seated

end OsDesign.Preempt
