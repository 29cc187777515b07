import OsDesign.Pthread.Alone

/-!
A join that waits returns after the joined thread has ended. A joiner that finds
no other thread ready is let go at once, and so is one that finds the count of
the thread wrapped to zero.
-/
namespace OsDesign.Pthread

open Virt

/-- `J` waits for the live thread `T`, whose handle is `h`. -/
structure WaitsFor (a : Sched) (J T : ThreadId) (h : Nat) : Prop where
  waiting : J ∈ a.wait
  mu : a.mu J = h
  live : a.live T = true
  tid : a.tid T = h
  numbered : a.Numbered T

variable {main t J T : ThreadId} {a a' : Sched} {l : Ledger} {e : Event} {r : Return} {h : Nat}

namespace Ledger

/-- Only the end of a thread is noted as such. -/
theorem acted_ended (he : e ≠ .exit) : (l.acted a e r a').ended = l.ended := by
  rw [acted]
  cases a.current with
  | none => rfl
  | some t =>
      cases e with
      | exit => exact absurd rfl he
      | mutexInit => simp only [called]; split <;> rfl
      | destroy h => simp only [called]; split <;> rfl
      | unlock h => simp only [called]; split <;> rfl
      | join h => simp only [called]; split <;> rfl
      | lock h =>
          simp only [called]
          split
          · rfl
          · split <;> rfl
      | create | yield | tick => rfl

theorem acted_exit (running : a.current = some t) :
    (l.acted a .exit r a').ended = t :: l.ended := by
  simp [acted, called, running]

end Ledger

theorem MutexCalls.join (current : a.current = some t) : MutexCalls a l (.join h) := by
  refine ⟨?_, .inr (by rw [current]; rfl), ?_⟩
  · intro ti hti
    cases hti
  · intro k hk
    cases hk

namespace WaitsFor

/-- The joiner's place, its `mu` and the joined thread are left alone. -/
theorem congr (waits : WaitsFor a J T h) (wait : J ∈ a'.wait) (mu : a'.mu J = a.mu J)
    (live : a'.live T = a.live T) (tid : a'.tid T = a.tid T) : WaitsFor a' J T h := by
  refine ⟨wait, mu.trans waits.mu, live.trans waits.live, tid.trans waits.tid, ?_⟩
  rw [Sched.Numbered, tid]
  exact waits.numbered

/-- No call of another thread takes the joiner out of the wait queue. -/
theorem effect (waits : WaitsFor a J T h) (part : a.Partition)
    (handles : Handles main a l.mutexes) (permitted : MutexCalls a l e)
    (effect : Effect a e a' r) :
    WaitsFor a' J T h ∨ (l.record a e r a').ended.count T = l.ended.count T + 1 := by
  have hjoiner : ∀ t, a.current = some t → J ≠ t := fun t running same =>
    part.running_not_waiting running (same ▸ waits.waiting)
  -- a release of another entry passes the joiner by
  have hstays : ∀ k, k ≠ h → J ∈ a.wait.eraseP (a.waitsOn k) := by
    intro k hk
    have htest : ¬ a.waitsOn k J = true := by simp [Sched.waitsOn, waits.mu, hk]
    exact (List.mem_eraseP_of_neg htest).mpr waits.waiting
  cases effect with
  | refused handle => exact .inl waits
  | created ti i range free =>
      have hnew := permitted.new ti rfl
      have hJ : J ≠ ti := fun same => by
        simp [same ▸ part.wait_live waits.waiting] at hnew
      have hT : T ≠ ti := fun same => by simp [same ▸ waits.live] at hnew
      exact .inl (waits.congr waits.waiting (Function.update_of_ne hJ _ _)
        (Function.update_of_ne hT _ _) (Function.update_of_ne hT _ _))
  | switched he =>
      refine .inl (waits.congr ?_ ?_ ?_ ?_)
      · rw [a.schedule_wait]
        exact waits.waiting
      · rw [a.schedule_mu]
      · rw [a.schedule_live]
      · rw [a.schedule_tid]
  | exited t running range =>
      by_cases hsame : t = T
      · right
        rw [Ledger.record_ended, Ledger.acted_exit running, hsame, List.count_cons_self]
      · left
        have hother : a.tid t ≠ h := by
          intro htid
          exact hsame (handles.distinct T t waits.live (part.running_live running)
            waits.numbered (htid.trans waits.tid.symm))
        refine waits.congr ?_ ?_ ?_ ?_
        · rw [Sched.schedule_wait]
          exact hstays _ hother
        · rw [Sched.schedule_mu]
          rfl
        · rw [Sched.schedule_live]
          exact Function.update_of_ne (Ne.symm hsame) _ _
        · rw [Sched.schedule_tid]
          rfl
  | took => exact .inl (waits.congr waits.waiting rfl rfl rfl)
  | passed _ _ _ _ t running =>
      exact .inl (waits.congr waits.waiting
        (Function.update_of_ne (hjoiner t running) _ _) rfl rfl)
  | parked _ _ _ _ t running =>
      exact .inl (waits.congr (List.mem_append_left _ waits.waiting)
        (Function.update_of_ne (hjoiner t running) _ _) rfl rfl)
  | initialised => exact .inl (waits.congr waits.waiting rfl rfl rfl)
  | unlocked => exact .inl (waits.congr waits.waiting rfl rfl rfl)
  | handedOver m =>
      have hm := permitted.initialised m rfl
      have hother : m ≠ h := fun same =>
        handles.apart m T hm waits.live (waits.tid.trans same.symm)
      exact .inl (waits.congr (hstays m hother) rfl rfl rfl)
  | destroyed => exact .inl (waits.congr waits.waiting rfl rfl rfl)

end WaitsFor

namespace Audit

variable {o o' o₁ o₂ : Audit}

theorem ended_mono (call : o.Call e r o') : o.ledger.ended.count T ≤ o'.ledger.ended.count T := by
  rw [call.ledger, Ledger.record_ended]
  by_cases he : e = .exit
  · subst he
    cases hcurrent : o.system.sched.current with
    | none => simp [Ledger.acted, hcurrent]
    | some t =>
        rw [Ledger.acted_exit hcurrent]
        exact List.count_le_count_cons
  · rw [Ledger.acted_ended he]

/-- A join of a live thread waits, if another thread is ready and the count of
the joined thread has not wrapped to zero. -/
theorem Sound.join_waits (sound : o.Sound main) (current : o.system.sched.current = some J)
    (live : o.system.sched.live T = true) (ready : o.system.sched.ready ≠ [])
    (count : (o.system.sched.table (o.system.sched.tid T)).count ≠ 0)
    (call : o.Call (.join (o.system.sched.tid T)) r o') (value : r.value = 0) :
    WaitsFor o'.system.sched J T (o.system.sched.tid T) := by
  have permitted := MutexCalls.join (l := o.ledger) (h := o.system.sched.tid T) current
  have heffect := sound.effect permitted.made call
  generalize o'.system.sched = a' at heffect
  generalize he : Event.join (o.system.sched.tid T) = e at heffect
  cases heffect with
  | parked waits range used count t running next rest ready =>
      subst he
      cases waits
      obtain rfl : J = t := Option.some.inj (current.symm.trans running)
      exact ⟨List.mem_append_right _ (List.mem_singleton_self J), Function.update_self _ _ _, live,
        rfl, sound.handles.range _ used⟩
  | took waits range used hzero =>
      subst he
      cases waits
      exact absurd hzero count
  | passed waits range used _ t running alone => exact absurd alone ready
  | refused => simp at value
  | switched either => cases either <;> simp_all
  | created | exited | initialised | unlocked | handedOver | destroyed => cases he

/-- Such a join returns after the joined thread has ended. -/
theorem join_returns_after_exit
    (reach : Runs.Reachable (InitUnnumbered main)
      (fun o e => MutexCalls o.system.sched o.ledger e) Step o)
    (current : o.system.sched.current = some J) (live : o.system.sched.live T = true)
    (ready : o.system.sched.ready ≠ [])
    (count : (o.system.sched.table (o.system.sched.tid T)).count ≠ 0)
    (call : o.Call (.join (o.system.sched.tid T)) r o₁) (value : r.value = 0) {es : List Event}
    (rest : Runs.Steps (fun o e => MutexCalls o.system.sched o.ledger e) Step o₁ es o₂)
    (returned : o₂.system.sched.current = some J) :
    o₁.ledger.ended.count T < o₂.ledger.ended.count T := by
  have sound : o.Sound main := reach.invariant _ (fun o init => init.sound)
    (fun o e o' permitted step sound => by
      obtain ⟨r, call⟩ := step
      exact sound.call permitted.destroysMutexes call)
  have permitted := MutexCalls.join (l := o.ledger) (h := o.system.sched.tid T) current
  have inv : o₂.Sound main ∧ o₁.ledger.ended.count T ≤ o₂.ledger.ended.count T ∧
      (WaitsFor o₂.system.sched J T (o.system.sched.tid T) ∨
        o₁.ledger.ended.count T < o₂.ledger.ended.count T) := by
    refine rest.preserves (fun o₂ => o₂.Sound main ∧
      o₁.ledger.ended.count T ≤ o₂.ledger.ended.count T ∧
      (WaitsFor o₂.system.sched J T (o.system.sched.tid T) ∨
        o₁.ledger.ended.count T < o₂.ledger.ended.count T)) ?_
      ⟨sound.call permitted.destroysMutexes call, le_refl _,
        .inl (sound.join_waits current live ready count call value)⟩
    intro o e o' permitted step before
    obtain ⟨sound, hle, hcases⟩ := before
    obtain ⟨r, call⟩ := step
    refine ⟨sound.call permitted.destroysMutexes call, hle.trans (ended_mono call), ?_⟩
    cases hcases with
    | inr ended => exact .inr (ended.trans_le (ended_mono call))
    | inl waits =>
        cases waits.effect sound.wellFormed.partition sound.handles permitted
            (sound.effect permitted.made call) with
        | inl still => exact .inl still
        | inr ended =>
            right
            rw [call.ledger, ended]
            exact Nat.lt_succ_of_le hle
  refine inv.2.2.resolve_left ?_
  intro waits
  exact inv.1.wellFormed.partition.running_not_waiting returned waits.waiting

/-- The joined thread ends while the main thread waits for it. -/
theorem join_returned :
    ∃ o r o₁ o₂, (start 0 0).execute MutexCalls [.create 1] = some o ∧
      o.Call (.join (o.system.sched.tid 1)) r o₁ ∧ o₁.execute MutexCalls [.exit] = some o₂ ∧
      o₁.ledger.ended.count 1 < o₂.ledger.ended.count 1 := by
  have hrun : ((start 0 0).execute MutexCalls [.create 1]).any (fun o =>
      (o.outcome (.join (o.system.sched.tid 1))).any fun p =>
        (p.1.execute MutexCalls [.exit]).any fun o₂ =>
          decide (o.system.sched.current = some 0 ∧ o.system.sched.live 1 = true ∧
            o.system.sched.ready ≠ [] ∧
            (o.system.sched.table (o.system.sched.tid 1)).count ≠ 0 ∧ p.2.value = 0 ∧
            o₂.system.sched.current = some 0)) = true := by decide +kernel
  obtain ⟨o, ho, hrun⟩ := (Option.any_eq_true _ _).mp hrun
  obtain ⟨p, hp, hrun⟩ := (Option.any_eq_true _ _).mp hrun
  obtain ⟨o₂, ho₂, hfacts⟩ := (Option.any_eq_true _ _).mp hrun
  obtain ⟨current, live, ready, count, value, returned⟩ := of_decide_eq_true hfacts
  exact ⟨o, p.2, p.1, o₂, ho, call_of_outcome hp, ho₂,
    join_returns_after_exit (reachable_of_execute (initUnnumbered_start 0) ho) current live ready
      count (call_of_outcome hp) value (steps_of_execute ho₂) returned⟩

/-- A join of `T` by `J` returns at once, and `T` lives on. -/
def JoinsLiving (o : Audit) (J T : ThreadId) : Prop :=
  ∃ r o', o.system.sched.current = some J ∧ o.system.sched.live T = true ∧
    o.Call (.join (o.system.sched.tid T)) r o' ∧ r.value = 0 ∧
    o'.system.sched.current = some J ∧ o'.system.sched.live T = true

/-- Thread 1 waits for a mutex of the main thread, which joins it: nobody else
is ready. -/
theorem joinsLiving_alone : ∃ o, Runs.Reachable (InitUnnumbered 0)
    (fun o e => MutexCalls o.system.sched o.ledger e) Step o ∧ o.JoinsLiving 0 1 ∧
    (o.system.sched.table (o.system.sched.tid 1)).count ≠ 0 := by
  have hrun : ((start 0 0).execute MutexCalls
      [.mutexInit, .lock 1, .create 1, .yield, .lock 1]).any (fun o =>
        (o.outcome (.join (o.system.sched.tid 1))).any fun p =>
          decide (o.system.sched.current = some 0 ∧ o.system.sched.live 1 = true ∧
            p.2.value = 0 ∧ p.1.system.sched.current = some 0 ∧
            p.1.system.sched.live 1 = true ∧
            (o.system.sched.table (o.system.sched.tid 1)).count ≠ 0)) = true := by
    decide +kernel
  obtain ⟨o, ho, hrun⟩ := (Option.any_eq_true _ _).mp hrun
  obtain ⟨p, hp, hfacts⟩ := (Option.any_eq_true _ _).mp hrun
  obtain ⟨current, live, value, returned, lives, count⟩ := of_decide_eq_true hfacts
  exact ⟨o, reachable_of_execute (initUnnumbered_start 0) ho,
    ⟨p.2, p.1, current, live, call_of_outcome hp, value, returned, lives⟩, count⟩

/-- After 2^32 - 1 such joins the count of thread 1 is zero, and a join of it
returns though a new thread is ready. -/
theorem joinsLiving_wrapped : ∃ o, Runs.Reachable (InitUnnumbered 0)
    (fun o e => MutexCalls o.system.sched o.ledger e) Step o ∧ o.JoinsLiving 0 1 ∧
    o.system.sched.ready ≠ [] := by
  have hrun : ((start 0 0).execute MutexCalls
      [.mutexInit, .lock 1, .create 1, .yield, .lock 1]).any (fun o =>
        decide (o.system.sched.current = some 0 ∧ o.system.sched.live 1 = true ∧
          o.system.sched.ready = [] ∧ o.system.sched.tid 1 = 2 ∧
          o.system.sched.table 2 = ⟨true, 1⟩ ∧ (o.system.sched.table 3).used = false ∧
          o.system.sched.live 2 = false)) = true := by
    decide +kernel
  obtain ⟨o, ho, hfacts⟩ := (Option.any_eq_true _ _).mp hrun
  obtain ⟨current, live, ready, tid, table, free, new⟩ := of_decide_eq_true hfacts
  have reach := reachable_of_execute (initUnnumbered_start 0) ho
  have wf := wellFormed_of_reachable (fun _ init => init.toInit)
    (fun _ _ allowed => allowed.made) reach
  have hcount : (o.system.sched.table 2).count = 1 := by rw [table]
  have hcounts := count_ne_zero_of_one hcount
  obtain ⟨o₁, run, after⟩ := LetGo.steps (fun o e => MutexCalls o.system.sched o.ledger e)
    wf current ready (e := .join 2) rfl (by decide) (by rw [table])
    (fun _ _ during => MutexCalls.join during.current) hcounts
  have hzero : (o₁.system.sched.table 2).count = 0 := by
    rw [after.count, hcount]
    decide
  have hused : (o₁.system.sched.table 2).used = true := by rw [after.used, table]
  obtain ⟨i, r₂, free₁, hcreate⟩ := Sched.create_ok (a := o₁.system.sched) (h := 3) 2
    (by decide) (by rw [after.used, free])
  have new₁ : o₁.system.sched.live 2 = false := by rw [after.live, new]
  obtain ⟨o₂, call₂, wf₂, hsched, -⟩ := call_of_sched (e := .create 2) after.wellFormed new₁ hcreate
  have permitted₂ : MutexCalls o₁.system.sched o₁.ledger (.create 2) := by
    refine ⟨?_, .inr (by rw [after.current]; rfl), fun k hk => (by cases hk)⟩
    intro ti hti
    cases hti
    exact new₁
  have hi : 2 ≠ i := by
    intro same
    rw [← same, hused] at free₁
    cases free₁
  have hother : (1 : ThreadId) ≠ 2 := by decide
  have hentry : o₂.system.sched.table 2 = o₁.system.sched.table 2 := by
    rw [hsched]
    exact (MutexTable.setCount_of_ne _ _ hi).trans (Function.update_of_ne hi _ _)
  have htid : o₂.system.sched.tid 1 = 2 := by
    rw [hsched]
    change Function.update o₁.system.sched.tid 2 i 1 = 2
    rw [Function.update_of_ne hother, after.tid, tid]
  have hlive : o₂.system.sched.live 1 = true := by
    rw [hsched]
    change Function.update o₁.system.sched.live 2 true 1 = true
    rw [Function.update_of_ne hother, after.live, live]
  have hcurrent : o₂.system.sched.current = some 0 := by
    rw [hsched]
    exact after.current
  obtain ⟨o₃, call₃, -, hsched₃, -⟩ := call_of_sched (e := .join 2) wf₂ trivial
    (Sched.countAndWait_taken (by decide) (by rw [hentry, hused]) (by rw [hentry, hzero]))
  refine ⟨o₂, (reach.extend run).extend (.single permitted₂ ⟨_, call₂⟩), ?_, ?_⟩
  · refine ⟨⟨0, none⟩, o₃, hcurrent, hlive, ?_, rfl, ?_, ?_⟩
    · rw [htid]
      exact call₃
    · rw [hsched₃]
      exact hcurrent
    · rw [hsched₃]
      exact hlive
  · rw [hsched]
    simp

/-- Thread 2 waits for thread 1, whose handle is the `tid` of the main thread: the end of
the main thread brings it back, and thread 1 lives on. -/
theorem joinReturns_numbered : ∃ o r o₁ o₂ es, Runs.Reachable (Init 0)
    (fun o e => MutexCalls o.system.sched o.ledger e) Step o ∧
    o.system.sched.current = some 2 ∧ o.system.sched.live 1 = true ∧
    o.system.sched.ready ≠ [] ∧ (o.system.sched.table (o.system.sched.tid 1)).count ≠ 0 ∧
    o.Call (.join (o.system.sched.tid 1)) r o₁ ∧ r.value = 0 ∧
    Runs.Steps (fun o e => MutexCalls o.system.sched o.ledger e) Step o₁ es o₂ ∧
    o₂.system.sched.current = some 2 ∧
    ¬ o₁.ledger.ended.count 1 < o₂.ledger.ended.count 1 := by
  have hrun : ((start 0 1).execute MutexCalls [.create 1, .create 2, .yield, .yield]).any
      (fun o => (o.outcome (.join (o.system.sched.tid 1))).any fun p =>
        (p.1.execute MutexCalls [.exit, .yield]).any fun o₂ =>
          decide (o.system.sched.current = some 2 ∧ o.system.sched.live 1 = true ∧
            o.system.sched.ready ≠ [] ∧
            (o.system.sched.table (o.system.sched.tid 1)).count ≠ 0 ∧ p.2.value = 0 ∧
            o₂.system.sched.current = some 2 ∧
            ¬ p.1.ledger.ended.count 1 < o₂.ledger.ended.count 1)) = true := by
    decide +kernel
  obtain ⟨o, ho, hrun⟩ := (Option.any_eq_true _ _).mp hrun
  obtain ⟨p, hp, hrun⟩ := (Option.any_eq_true _ _).mp hrun
  obtain ⟨o₂, ho₂, hfacts⟩ := (Option.any_eq_true _ _).mp hrun
  obtain ⟨current, live, ready, count, value, returned, lives⟩ := of_decide_eq_true hfacts
  exact ⟨o, p.2, p.1, o₂, _, reachable_of_execute (init_start 0 1) ho, current, live, ready,
    count, call_of_outcome hp, value, steps_of_execute ho₂, returned, lives⟩

/-- Both conditions on the join are needed, and the one on the `tid` of the main thread. -/
theorem join_returns_early :
    (∃ o, Runs.Reachable (InitUnnumbered 0)
      (fun o e => MutexCalls o.system.sched o.ledger e) Step o ∧ o.JoinsLiving 0 1 ∧
      (o.system.sched.table (o.system.sched.tid 1)).count ≠ 0) ∧
    (∃ o, Runs.Reachable (InitUnnumbered 0)
      (fun o e => MutexCalls o.system.sched o.ledger e) Step o ∧ o.JoinsLiving 0 1 ∧
      o.system.sched.ready ≠ []) ∧
    ∃ o r o₁ o₂ es, Runs.Reachable (Init 0)
      (fun o e => MutexCalls o.system.sched o.ledger e) Step o ∧
      o.system.sched.current = some 2 ∧ o.system.sched.live 1 = true ∧
      o.system.sched.ready ≠ [] ∧ (o.system.sched.table (o.system.sched.tid 1)).count ≠ 0 ∧
      o.Call (.join (o.system.sched.tid 1)) r o₁ ∧ r.value = 0 ∧
      Runs.Steps (fun o e => MutexCalls o.system.sched o.ledger e) Step o₁ es o₂ ∧
      o₂.system.sched.current = some 2 ∧
      ¬ o₁.ledger.ended.count 1 < o₂.ledger.ended.count 1 :=
  ⟨joinsLiving_alone, joinsLiving_wrapped, joinReturns_numbered⟩

end Audit

end OsDesign.Pthread
