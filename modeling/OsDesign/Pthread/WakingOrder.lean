import OsDesign.Lib.Arrivals
import OsDesign.Pthread.Handles

/-!
The order in which threads leave the wait queue. The threads that wait on
mutexes and on other threads stand in one queue, and a release takes the first
one with the released handle out of the middle. So those that wait on one
handle leave in the order in which they came, in every run of calls and ticks.
-/
namespace OsDesign.Pthread

open Virt Arrivals

namespace Sched

/-- An unlock that finds another count than 0 and 1. -/
theorem unlock_of_several (a : Sched) (range : h < maxMutexNum)
    (used : (a.table h).used = true) (count : 2 ≤ (a.table h).count.toNat) :
    a.call (.unlock h) = .ok ({ a.release h with
      table := a.table.setCount h ((a.table h).count - 1) }, ⟨0, none⟩) := by
  have hsome : (a.table h).count ≠ 0 := by
    intro hzero
    have hcount : (a.table h).count.toNat = 0 := by rw [hzero]; rfl
    omega
  have hseveral : (a.table h).count ≠ 1 := by
    intro hone
    have hcount : (a.table h).count.toNat = 1 := by rw [hone]; rfl
    omega
  have hused : ¬ (a.table h).used = false := by simp [used]
  simp only [call, unlock, if_neg (Nat.not_le.mpr range), if_neg hused, if_neg hsome,
    if_neg hseveral]

theorem release_moves (a : Sched) (h : Nat) : Moves a.wait (a.release h).wait :=
  .left List.eraseP_sublist

end Sched

namespace Effect

variable {a a' : Sched} {e : Event} {r : Return} {t u : ThreadId} {h : Nat}

/-- A call takes waiting threads out, or puts `CURRENT` at the end. -/
theorem wait_moves (effect : Effect a e a' r) (part : a.Partition) :
    Moves a.wait a'.wait := by
  cases effect with
  | refused | created | took | passed | initialised | unlocked | destroyed =>
      exact .left (List.Sublist.refl a.wait)
  | switched =>
      rw [a.schedule_wait]
      exact .left (List.Sublist.refl a.wait)
  | exited t =>
      rw [Sched.schedule_wait]
      exact a.release_moves (a.tid t)
  | parked _ _ _ _ t running => exact .joined t (part.running_not_waiting running)
  | handedOver h => exact a.release_moves h

/-- A waiting thread waits on what it waited on. -/
theorem mu_of_mem_wait (effect : Effect a e a' r) (part : a.Partition)
    (new : ∀ ti ∈ e.creates, a.live ti = false) (waiting : t ∈ a.wait) : a'.mu t = a.mu t := by
  cases effect with
  | refused | took | initialised | unlocked | handedOver | destroyed => rfl
  | created ti =>
      have hne : t ≠ ti := by
        intro same
        have hlive := part.wait_live waiting
        rw [same, new ti rfl] at hlive
        cases hlive
      exact Function.update_of_ne hne 0 a.mu
  | switched => rw [a.schedule_mu]
  | exited => rw [Sched.schedule_mu]; rfl
  | passed _ _ _ _ c running | parked _ _ _ _ c running =>
      have hne : t ≠ c := fun same => part.running_not_waiting running (same ▸ waiting)
      exact Function.update_of_ne hne _ a.mu

/-- A thread leaves the wait queue as the first one that waits on its handle. -/
theorem find?_of_left (effect : Effect a e a' r) (part : a.Partition) (waiting : t ∈ a.wait)
    (left : t ∉ a'.wait) : a.wait.find? (a.waitsOn (a.mu t)) = some t := by
  have released : ∀ h, t ∉ a.wait.eraseP (a.waitsOn h) →
      a.wait.find? (a.waitsOn (a.mu t)) = some t := by
    intro h hnot
    cases hfind : a.wait.find? (a.waitsOn h) with
    | none =>
        rw [List.eraseP_of_forall_not (List.find?_eq_none.mp hfind)] at hnot
        exact absurd waiting hnot
    | some w =>
        have hw : t = w := by
          by_contra hne
          exact hnot ((Queues.mem_eraseP_of_find? part.wait_nodup hfind).mpr ⟨waiting, hne⟩)
        have hmu : h = a.mu w := by simpa [Sched.waitsOn] using List.find?_some hfind
        rw [hw, ← hmu, hfind]
  cases effect with
  | refused | created | took | passed | initialised | unlocked | destroyed =>
      exact absurd waiting left
  | switched =>
      rw [a.schedule_wait] at left
      exact absurd waiting left
  | exited c =>
      rw [Sched.schedule_wait] at left
      exact released (a.tid c) left
  | parked => exact absurd (List.mem_append_left _ waiting) left
  | handedOver h => exact released h left

/-- A waiting thread stays alive. -/
theorem live_of_mem_wait (effect : Effect a e a' r) (part : a.Partition)
    (waiting : t ∈ a.wait) : a'.live t = true := by
  have hlive := part.wait_live waiting
  cases effect with
  | refused | took | passed | parked | initialised | unlocked | handedOver | destroyed =>
      exact hlive
  | created ti =>
      by_cases hsame : t = ti
      · simp [hsame]
      · simpa [hsame] using hlive
  | switched => rwa [a.schedule_live]
  | exited c running =>
      have hne : t ≠ c := fun same => part.running_not_waiting running (same ▸ waiting)
      rw [Sched.schedule_live]
      exact (Function.update_of_ne hne false a.live).trans hlive

end Effect

namespace System

/-- The library with a clock, and the time at which each thread began to wait. -/
abbrev Timed := Stamped System ThreadId

/-- A thread that was put into the wait queue for the handle `h`. -/
def WaitsFor (s : System) (t : ThreadId) (h : Nat) : Prop :=
  t ∈ s.queues.wait ∧ s.queues.mu t = h

namespace Timed

def Init (main : ThreadId) (o : Timed) : Prop := o.state.Init main

def Enabled (o : Timed) (e : Event) : Prop := o.state.Enabled e

def Step : Timed → Event → Timed → Prop :=
  Stamped.Step System.Step fun s => s.queues.wait

/-- Nobody waits longer on the handle. -/
structure LongestWaiting (o : Timed) (t : ThreadId) (h : Nat) : Prop where
  waits : o.state.WaitsFor t h
  longest : ∀ u, o.state.WaitsFor u h → u ≠ t → o.arrived t < o.arrived u

/-- One thread, the one that waits longest on the handle, goes behind the ready
threads; if nobody waits on it, nobody moves. -/
inductive Wakes (o : Timed) (h : Nat) (s : System) : Prop
  | nobody (none : ∀ t, ¬ o.state.WaitsFor t h) (ready : s.queues.ready = o.state.queues.ready)
      (wait : s.queues.wait = o.state.queues.wait)
  | longest (t : ThreadId) (waited : o.LongestWaiting t h)
      (ready : s.queues.ready = o.state.queues.ready ++ [t])
      (wait : s.queues.wait = o.state.queues.wait.erase t)

/-- What every run keeps. -/
structure Sound (o : Timed) : Prop where
  wellFormed : o.state.WellFormed
  order : o.InOrder fun s => s.queues.wait

variable {o o' : Timed} {e : Event} {es : List Event} {t u : ThreadId} {h : Nat}
  {main : ThreadId}

theorem Sound.init (init : o.Init main) : o.Sound := by
  have hwait : o.state.queues.wait = [] := System.Init.holds init |>.wait_eq
  exact ⟨System.Init.wellFormed init, .of_empty hwait⟩

theorem Sound.effect (sound : o.Sound) (enabled : o.Enabled e) (taken : o.Step e o') :
    o'.state.WellFormed ∧ ∃ r, Effect o.state.sched e o'.state.sched r := by
  obtain ⟨r, hcall⟩ := taken.1
  have hlists := sound.wellFormed.call_ok enabled hcall
  exact ⟨hlists.2.1, r, Sched.call_effect hlists.1⟩

theorem Sound.step (sound : o.Sound) (enabled : o.Enabled e) (taken : o.Step e o') :
    o'.Sound := by
  obtain ⟨wf, r, effect⟩ := sound.effect enabled taken
  exact ⟨wf, sound.order.preserved taken (effect.wait_moves sound.wellFormed.partition)⟩

theorem Sound.reachable (reach : Runs.Reachable (Init main) Enabled Step o) : o.Sound :=
  reach.invariant Sound (fun _ init => .init init) fun _ _ _ enabled taken sound =>
    sound.step enabled taken

/-- Two threads wait on one handle, `t` for longer. -/
structure Ahead (o : Timed) (t u : ThreadId) (h : Nat) : Prop where
  first : o.state.WaitsFor t h
  second : o.state.WaitsFor u h
  earlier : o.arrived t < o.arrived u

theorem new_of_enabled (enabled : o.Enabled e) :
    ∀ ti ∈ e.creates, o.state.sched.live ti = false := by
  intro ti hti
  cases e with
  | create ti' =>
      cases hti
      exact enabled
  | yield | tick | exit | join | mutexInit | lock | unlock | destroy => cases hti

/-- The one that came later does not leave in a step. -/
theorem Ahead.second_stays (ahead : o.Ahead t u h) (sound : o.Sound) (enabled : o.Enabled e)
    (taken : o.Step e o') : o'.state.WaitsFor u h := by
  obtain ⟨-, r, effect⟩ := sound.effect enabled taken
  have part := sound.wellFormed.partition
  have hmu := effect.mu_of_mem_wait part (new_of_enabled enabled) ahead.second.1
  refine ⟨?_, hmu.trans ahead.second.2⟩
  by_contra hleft
  have hfind := effect.find?_of_left part ahead.second.1 hleft
  have htest : o.state.sched.waitsOn (o.state.sched.mu u) t = true := by
    have hsame : o.state.sched.mu u = o.state.sched.mu t :=
      ahead.second.2.trans ahead.first.2.symm
    simpa [Sched.waitsOn] using hsame
  have hne : t ≠ u := by
    intro same
    have hearlier := ahead.earlier
    rw [same] at hearlier
    exact Nat.lt_irrefl _ hearlier
  have hbefore := sound.order.find?_first hfind ahead.first.1 htest hne
  exact Nat.lt_asymm hbefore ahead.earlier

theorem Ahead.kept (ahead : o.Ahead t u h) (sound : o.Sound) (enabled : o.Enabled e)
    (taken : o.Step e o') (waiting : t ∈ o'.state.queues.wait) : o'.Ahead t u h := by
  obtain ⟨-, r, effect⟩ := sound.effect enabled taken
  have part := sound.wellFormed.partition
  have hmu := effect.mu_of_mem_wait part (new_of_enabled enabled) ahead.first.1
  refine ⟨⟨waiting, hmu.trans ahead.first.2⟩, ahead.second_stays sound enabled taken, ?_⟩
  rw [taken.arrived_of_mem ahead.first.1, taken.arrived_of_mem ahead.second.1]
  exact ahead.earlier

/-- As long as the first of the two waits, so does the second, and in the step in
which the first leaves it gets ready. -/
theorem Ahead.stays (ahead : o.Ahead t u h) (sound : o.Sound)
    (run : Runs.Steps (fun o e => o.Enabled e ∧ t ∈ o.state.queues.wait) Step o es o') :
    u ∈ o'.state.queues.wait ∧ (t ∈ o'.state.queues.wait ∨ t ∈ o'.state.queues.ready ∨
      o'.state.queues.current = some t) := by
  have invariant : o'.Sound ∧ o'.state.live t = true ∧ o'.state.WaitsFor u h ∧
      (t ∈ o'.state.queues.wait → o'.Ahead t u h) := by
    refine run.preserves (fun o => o.Sound ∧ o.state.live t = true ∧ o.state.WaitsFor u h ∧
      (t ∈ o.state.queues.wait → o.Ahead t u h)) ?_ ?_
    · intro o e o' permitted taken before
      have hahead := before.2.2.2 permitted.2
      obtain ⟨-, r, effect⟩ := before.1.effect permitted.1 taken
      have hlive := effect.live_of_mem_wait before.1.wellFormed.partition permitted.2
      exact ⟨before.1.step permitted.1 taken, hlive,
        hahead.second_stays before.1 permitted.1 taken,
        hahead.kept before.1 permitted.1 taken⟩
    · exact ⟨sound, sound.wellFormed.partition.wait_live ahead.first.1, ahead.second,
        fun _ => ahead⟩
  obtain ⟨sound', hlive, hsecond, -⟩ := invariant
  have hmem := (sound'.wellFormed.live t).mpr hlive
  simp only [Sched.threads, sched, List.mem_append, Option.mem_toList] at hmem
  refine ⟨hsecond.1, ?_⟩
  tauto

/-- Such an unlock wakes the thread that waits longest. -/
theorem Sound.unlock (sound : o.Sound) (range : h < maxMutexNum)
    (used : (o.state.gMutexTable h).used = true)
    (count : 2 ≤ (o.state.gMutexTable h).count.toNat) :
    ∃ s, o.state.call (.unlock h) = .ok (s, ⟨0, none⟩) ∧
      s.queues.current = o.state.queues.current ∧ o.Wakes h s := by
  obtain ⟨s, hs, hsched⟩ := sound.wellFormed.call_of_sched (e := .unlock h) trivial
    (o.state.sched.unlock_of_several range used count)
  have hcurrent : s.queues.current = o.state.queues.current := congrArg Sched.current hsched
  have hready : s.queues.ready = o.state.queues.ready ++
      (o.state.queues.wait.find? (o.state.sched.waitsOn h)).toList :=
    congrArg Sched.ready hsched
  have hwait : s.queues.wait = o.state.queues.wait.eraseP (o.state.sched.waitsOn h) :=
    congrArg Sched.wait hsched
  have htest : ∀ t, o.state.sched.waitsOn h t = true ↔ o.state.queues.mu t = h := by
    intro t
    rw [Sched.waitsOn, beq_iff_eq]
    exact eq_comm
  refine ⟨s, hs, hcurrent, ?_⟩
  cases hfind : o.state.queues.wait.find? (o.state.sched.waitsOn h) with
  | none =>
      have hnone := List.find?_eq_none.mp hfind
      rw [hfind, Option.toList_none, List.append_nil] at hready
      rw [List.eraseP_of_forall_not hnone] at hwait
      exact .nobody (fun t ht => hnone t ht.1 ((htest t).mpr ht.2)) hready hwait
  | some t =>
      have hpass : o.state.sched.waitsOn h t = true := List.find?_some hfind
      rw [hfind, Option.toList_some] at hready
      refine .longest t ⟨⟨List.mem_of_find?_eq_some hfind, (htest t).mp hpass⟩, ?_⟩ hready
        (hwait.trans (TailQueue.eraseP_eq_erase hfind))
      intro u hu hne
      exact sound.order.find?_first hfind hu.1 ((htest u).mpr hu.2) hne

/-- In every state of every run, a thread that was put into the wait queue for a
handle stays there as long as one that was put there for it earlier, and an
unlock that has to wake a thread wakes the one that waits longest. -/
theorem leave_in_order_of_arrival (reach : Runs.Reachable (Init main) Enabled Step o) (h : Nat) :
    (∀ t u, o.Ahead t u h → ∀ es o',
      Runs.Steps (fun o e => o.Enabled e ∧ t ∈ o.state.queues.wait) Step o es o' →
        u ∈ o'.state.queues.wait ∧ (t ∈ o'.state.queues.wait ∨ t ∈ o'.state.queues.ready ∨
          o'.state.queues.current = some t)) ∧
      (h < maxMutexNum → (o.state.gMutexTable h).used = true →
        2 ≤ (o.state.gMutexTable h).count.toNat →
        ∃ s, o.state.call (.unlock h) = .ok (s, ⟨0, none⟩) ∧
          s.queues.current = o.state.queues.current ∧ o.Wakes h s) := by
  have sound := Sound.reachable reach
  refine ⟨?_, ?_⟩
  · intro t u ahead es o' run
    exact ahead.stays sound run
  · intro range used count
    exact sound.unlock range used count

/-- Every run of the library can be timed. -/
theorem exists_reachable {s : System} {tid : Nat}
    (executed : (System.start main tid).execute es = some s) :
    ∃ o : Timed, o.state = s ∧ Runs.Reachable (Init main) Enabled Step o := by
  have run := Runs.steps_of_run _ _ executed
  have run' : Runs.Steps System.Enabled System.Step (System.start main tid) es s :=
    run.mapStep fun _ _ _ permitted taken =>
      ⟨of_decide_eq_true permitted, step_of_next taken⟩
  have timed : ∃ o : Timed, o.state = s ∧
      Runs.Steps Enabled Step ⟨System.start main tid, 0, fun _ => 0⟩ es o :=
    Stamped.exists_steps run' 0 fun _ => 0
  obtain ⟨o, hstate, stamped⟩ := timed
  have init : Init main ⟨System.start main tid, 0, fun _ => 0⟩ := init_start main tid
  exact ⟨o, hstate, _, es, init, stamped⟩

/-- Two threads wait for the mutex of the main thread, which unlocks it. -/
theorem leave_in_order_of_two :
    ∃ o : Timed, o.state.queues.wait = [1, 2] ∧ o.arrived 1 < o.arrived 2 ∧
      ∃ s, o.state.call (.unlock 1) = .ok (s, ⟨0, none⟩) ∧ o.Wakes 1 s ∧
        s.queues.wait = [2] := by
  have hruns : ((start 0 0).execute [.mutexInit, .create 1, .create 2, .lock 1, .yield, .lock 1,
      .lock 1]).any (fun s => decide (s.queues.wait = [1, 2] ∧ s.queues.mu 1 = 1 ∧
        s.queues.mu 2 = 1 ∧ (s.gMutexTable 1).used = true ∧
        2 ≤ (s.gMutexTable 1).count.toNat)) = true := by decide +kernel
  obtain ⟨s, hs, hfacts⟩ := (Option.any_eq_true _ _).mp hruns
  obtain ⟨hwait, hmu₁, hmu₂, hused, hcount⟩ := of_decide_eq_true hfacts
  obtain ⟨o, rfl, reach⟩ := exists_reachable hs
  have order := (Sound.reachable reach).order.sorted
  rw [hwait] at order
  have hearlier : o.arrived 1 < o.arrived 2 := by simpa using order
  obtain ⟨stays, wakes⟩ := leave_in_order_of_arrival reach 1
  have ahead : o.Ahead 1 2 1 := ⟨⟨by simp [hwait], hmu₁⟩, ⟨by simp [hwait], hmu₂⟩, hearlier⟩
  obtain ⟨s, hcall, -, hwakes⟩ := wakes (by decide) hused hcount
  refine ⟨o, hwait, hearlier, s, hcall, hwakes, ?_⟩
  cases hwakes with
  | nobody none => exact absurd ahead.first (none 1)
  | longest t waited _ hleft =>
      have ht : t = 1 := by
        by_contra hne
        have hlonger := waited.longest 1 ahead.first (Ne.symm hne)
        have hmem := waited.waits.1
        rw [hwait] at hmem
        have h₂ : t = 2 := by simpa [hne] using hmem
        rw [h₂] at hlonger
        exact Nat.lt_asymm hearlier hlonger
      rw [hleft, hwait, ht]
      rfl

end Timed

end System

end OsDesign.Pthread
