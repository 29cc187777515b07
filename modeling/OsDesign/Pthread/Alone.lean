import OsDesign.Pthread.Handles

/-!
A thread with no other thread ready is never made to wait: each of its locks and
joins adds one to the count and returns. The count has 32 bits and wraps.
-/
namespace OsDesign.Pthread

open Virt

variable {a a' : Sched} {l : Ledger} {e : Event} {r : Return} {t u : ThreadId} {h m n : Nat}

theorem Sched.countAndWait_alone (range : h < maxMutexNum) (used : (a.table h).used = true)
    (count : (a.table h).count ≠ 0) (running : a.current = some t) (alone : a.ready = []) :
    a.countAndWait h = .ok (a.counted t h, ⟨0, none⟩) := by
  have hswap : (a.counted t h).swap t = a.counted t h := by simp [swap, counted, alone]
  rw [countAndWait, if_neg (Nat.not_le.mpr range), if_neg (by simp [used]), if_neg count]
  simp only [running, hswap]

theorem Sched.countAndWait_taken (range : h < maxMutexNum) (used : (a.table h).used = true)
    (count : (a.table h).count = 0) :
    a.countAndWait h =
      .ok ({ a with table := a.table.setCount h ((a.table h).count + 1) }, ⟨0, none⟩) := by
  rw [countAndWait, if_neg (Nat.not_le.mpr range), if_neg (by simp [used]), if_pos count]

/-- A free entry lets a thread be created. -/
theorem Sched.create_ok (ti : ThreadId) (range : 1 ≤ h ∧ h < maxMutexNum)
    (free : (a.table h).used = false) :
    ∃ i r, (a.table i).used = false ∧ a.create ti = .ok ({ a with
      ready := a.ready ++ [ti]
      mu := Function.update a.mu ti 0
      tid := Function.update a.tid ti i
      table := MutexTable.setCount (Function.update a.table i ⟨true, 0⟩) i 1
      live := Function.update a.live ti true }, r) := by
  have htest : (!(a.table (h - 1 + 1)).used) = true := by
    simp [Nat.sub_add_cancel range.1, free]
  have hlt : h - 1 < maxMutexNum - 1 := Nat.sub_lt_sub_right range.1 range.2
  obtain ⟨i, hi⟩ := Loops.firstIndex_isSome (fun i => !(a.table (i + 1)).used) hlt htest
  have hfree := (Loops.firstIndex_eq_some.mp hi).1
  refine ⟨i + 1, ⟨0, some (i + 1)⟩, by simpa using hfree, ?_⟩
  rw [create, MutexTable.allocMutex, hi]

/-- A returned hold stays one while the call leaves it alone. -/
theorem Ledger.Holding.record (hold : l.Holding u m)
    (kept : ∀ k, k ∈ l.holds → k ∈ (l.acted a e r a').holds) :
    (l.record a e r a').Holding u m := by
  obtain ⟨k, hk, hthread, hmutex, hreturned⟩ := hold
  refine ⟨k.resumed a'.current, ?_, ?_, ?_, ?_⟩
  · exact List.mem_map_of_mem (List.mem_append_left _ (kept k hk))
  · rw [Hold.resumed_thread, hthread]
  · rw [Hold.resumed_mutex, hmutex]
  · rw [Hold.resumed]
    split
    · rfl
    · exact hreturned

/-- A lock that returns at once is held. -/
theorem Ledger.holding_locked (running : a.current = some t) (same : a'.current = some t) :
    (l.record a (.lock h) ⟨0, none⟩ a').Holding t h := by
  refine ⟨⟨t, h, true⟩, ?_, rfl, rfl, rfl⟩
  have hmem : (⟨t, h, true⟩ : Hold) ∈
      (l.acted a (.lock h) ⟨0, none⟩ a').holds ++ l.granted a a' := by
    rw [acted_lock running same]
    exact List.mem_cons_self
  have hresumed : (⟨t, h, true⟩ : Hold).resumed a'.current = ⟨t, h, true⟩ := by
    simp [Hold.resumed]
  exact hresumed ▸ List.mem_map_of_mem hmem

/-- How many of the calls are locks. -/
def lockCalls (e : Event) (n : Nat) : Nat :=
  match e with
  | .lock _ => n
  | _ => 0

/-- What a lock or a join that returns at once leaves behind. -/
theorem Ledger.record_returned (waits : e.waits = some h) (running : a.current = some t)
    (same : a'.current = some t) (wait : a'.wait = a.wait) :
    (l.acted a e ⟨0, none⟩ a').mutexes = l.mutexes ∧
      (∀ k, k ∈ l.holds → k ∈ (l.acted a e ⟨0, none⟩ a').holds) ∧
      (l.record a e ⟨0, none⟩ a').outstanding h = l.outstanding h + lockCalls e 1 := by
  cases e <;> cases waits
  · have hkept : (l.record a (.join h) ⟨0, none⟩ a').outstanding h = l.outstanding h :=
      outstanding_kept (acted_holds (by simp) (by simp)) (fun t ht => wait ▸ ht)
    rw [hkept, acted_join running same]
    exact ⟨rfl, fun _ hk => hk, rfl⟩
  · rw [outstanding_locked running same wait, acted_lock running same, if_pos rfl]
    exact ⟨rfl, fun _ hk => List.mem_cons_of_mem _ hk, rfl⟩

/-- A count that starts above zero wraps at 2^32 and not before. -/
theorem count_ne_zero {c : BitVec 32} (pos : 0 < c.toNat) (few : c.toNat + n < 2 ^ 32) :
    c + BitVec.ofNat 32 n ≠ 0 := by
  intro hzero
  have hnat := congrArg BitVec.toNat hzero
  rw [BitVec.toNat_add, BitVec.toNat_ofNat, Nat.mod_eq_of_lt (a := n) (by omega),
    Nat.mod_eq_of_lt few] at hnat
  change c.toNat + n = 0 at hnat
  omega

/-- From one on, the count stays above zero for 2^32 - 1 more calls. -/
theorem count_ne_zero_of_one {c : BitVec 32} (one : c = 1) :
    ∀ n, n < 2 ^ 32 - 1 → c + BitVec.ofNat 32 n ≠ 0 := by
  intro n hn
  refine count_ne_zero ?_ ?_
  · rw [one]
    decide
  · rw [one]
    change 1 + n < _
    omega

namespace Audit

variable {o o' : Audit}

/-- `n` times the call `e` on entry `h` by a thread `t` that is alone. -/
structure LetGo (t : ThreadId) (h : Nat) (e : Event) (n : Nat) (o o' : Audit) : Prop where
  current : o'.system.sched.current = some t
  ready : o'.system.sched.ready = []
  wait : o'.system.sched.wait = o.system.sched.wait
  tid : o'.system.sched.tid = o.system.sched.tid
  live : o'.system.sched.live = o.system.sched.live
  count : (o'.system.sched.table h).count =
    (o.system.sched.table h).count + BitVec.ofNat 32 n
  used : ∀ k, (o'.system.sched.table k).used = (o.system.sched.table k).used
  mutexes : o'.ledger.mutexes = o.ledger.mutexes
  holding : ∀ u m, o.ledger.Holding u m → o'.ledger.Holding u m
  outstanding : o'.ledger.outstanding h = o.ledger.outstanding h + lockCalls e n
  wellFormed : o'.system.WellFormed

theorem LetGo.refl (wf : o.system.WellFormed) (current : o.system.sched.current = some t)
    (ready : o.system.sched.ready = []) : LetGo t h e 0 o o := by
  refine ⟨current, ready, rfl, rfl, rfl, ?_, fun _ => rfl, rfl, fun _ _ hold => hold, ?_, wf⟩
  · simp
  · cases e <;> rfl

/-- One call more. -/
theorem LetGo.again (before : LetGo t h e n o o') (waits : e.waits = some h)
    (range : h < maxMutexNum) (used : (o.system.sched.table h).used = true)
    (count : (o.system.sched.table h).count + BitVec.ofNat 32 n ≠ 0) :
    ∃ o'', o'.Step e o'' ∧ LetGo t h e (n + 1) o o'' := by
  have hused : (o'.system.sched.table h).used = true := (before.used h).trans used
  have hcount : (o'.system.sched.table h).count ≠ 0 := before.count ▸ count
  have hlists := Sched.countAndWait_alone range hused hcount before.current before.ready
  have hcall : o'.system.sched.call e = .ok (o'.system.sched.counted t h, ⟨0, none⟩) := by
    cases e <;> cases waits <;> exact hlists
  have enabled : o'.system.Enabled e := by
    cases e <;> cases waits <;> trivial
  obtain ⟨o'', step, wf, hsched, hledger⟩ := call_of_sched before.wellFormed enabled hcall
  have same : (o'.system.sched.counted t h).current = some t := before.current
  obtain ⟨hmutexes, hholds, houtstanding⟩ :=
    Ledger.record_returned (l := o'.ledger) waits before.current same rfl
  refine ⟨o'', ⟨_, step⟩, ?_⟩
  refine ⟨?_, ?_, ?_, ?_, ?_, ?_, ?_, ?_, ?_, ?_, wf⟩
  · rw [hsched]
    exact before.current
  · rw [hsched]
    exact before.ready
  · rw [hsched]
    exact before.wait
  · rw [hsched]
    exact before.tid
  · rw [hsched]
    exact before.live
  · rw [hsched, Sched.counted, MutexTable.setCount_count_self, before.count, BitVec.add_assoc,
      BitVec.ofNat_add]
    rfl
  · intro k
    rw [hsched, Sched.counted, MutexTable.setCount_used, before.used]
  · rw [hledger, Ledger.record_mutexes, hmutexes, before.mutexes]
  · intro u m hold
    rw [hledger]
    exact (before.holding u m hold).record hholds
  · rw [hledger, houtstanding, before.outstanding]
    cases e <;> cases waits <;> rfl

/-- A lock at count zero, whoever holds the mutex. -/
theorem lock_taken (wf : o.system.WellFormed) (current : o.system.sched.current = some t)
    (range : h < maxMutexNum) (used : (o.system.sched.table h).used = true)
    (count : (o.system.sched.table h).count = 0) :
    ∃ o', o.Step (.lock h) o' ∧ o'.ledger.Holding t h ∧
      ∀ u m, o.ledger.Holding u m → o'.ledger.Holding u m := by
  have hcall : o.system.sched.call (.lock h) = _ := Sched.countAndWait_taken range used count
  obtain ⟨o', step, -, -, hledger⟩ := call_of_sched (e := .lock h) wf trivial hcall
  have same : ({ o.system.sched with
      table := o.system.sched.table.setCount h ((o.system.sched.table h).count + 1) } :
      Sched).current = some t := current
  obtain ⟨-, hholds, -⟩ :=
    Ledger.record_returned (l := o.ledger) (e := .lock h) rfl current same rfl
  refine ⟨o', ⟨_, step⟩, ?_, ?_⟩
  · rw [hledger]
    exact Ledger.holding_locked current current
  · intro u m hold
    rw [hledger]
    exact hold.record hholds

/-- As long as the count does not reach zero, the calls go on. -/
theorem LetGo.steps (permitted : Audit → Event → Prop) (wf : o.system.WellFormed)
    (current : o.system.sched.current = some t) (ready : o.system.sched.ready = [])
    (waits : e.waits = some h) (range : h < maxMutexNum)
    (used : (o.system.sched.table h).used = true)
    (allowed : ∀ o' k, LetGo t h e k o o' → permitted o' e)
    (count : ∀ k, k < n → (o.system.sched.table h).count + BitVec.ofNat 32 k ≠ 0) :
    ∃ o', Runs.Steps permitted Step o (List.replicate n e) o' ∧ LetGo t h e n o o' := by
  induction n with
  | zero => exact ⟨o, .nil o, LetGo.refl wf current ready⟩
  | succ n ih =>
      obtain ⟨o', run, before⟩ := ih fun k hk => count k (Nat.lt_succ_of_lt hk)
      obtain ⟨o'', hstep, after⟩ := before.again waits range used (count n (Nat.lt_succ_self n))
      refine ⟨o'', ?_, after⟩
      rw [List.replicate_succ']
      exact run.append (.single (allowed o' n before) hstep)

end Audit

end OsDesign.Pthread
