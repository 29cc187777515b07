import OsDesign.Pthread.Simulation

/-!
A record kept next to a run: the mutexes that are initialised, the lock calls
that were granted and not yet matched by an unlock, and the threads that ended.
The record reads only the calls, their values and the queues before and after.
`Effect` lists what a call can do to the lists.
-/
namespace OsDesign.Pthread

open Virt

/-- A lock call that was granted. It has returned once its caller ran again. -/
structure Hold where
  thread : ThreadId
  mutex : Nat
  returned : Bool
  deriving DecidableEq

/-- `locking` tells a thread that waits in a lock from one that waits in a join. -/
structure Ledger where
  mutexes : Nat → Bool
  holds : List Hold
  locking : ThreadId → Bool
  ended : List ThreadId

/-- The handle of a call that may wait. -/
def Event.waits : Event → Option Nat
  | .join h | .lock h => some h
  | _ => none

def Event.locks : Event → Option Nat
  | .lock h => some h
  | _ => none

/-- The handle of a call that may be refused. -/
def Event.handle : Event → Option Nat
  | .join h | .lock h | .unlock h | .destroy h => some h
  | _ => none

/-- The mutex of a call that is meant for mutexes. -/
def Event.mutex : Event → Option Nat
  | .lock h | .unlock h | .destroy h => some h
  | _ => none

def Event.creates : Event → Option ThreadId
  | .create ti => some ti
  | _ => none

def Event.unlocks : Event → Option Nat
  | .unlock h => some h
  | _ => none

def Event.destroys : Event → Option Nat
  | .destroy h => some h
  | _ => none

namespace Hold

/-- The lock calls of the thread that gets the processor return. -/
def resumed (current : Option ThreadId) (k : Hold) : Hold :=
  if current = some k.thread then { k with returned := true } else k

theorem resumed_mutex (current : Option ThreadId) (k : Hold) :
    (k.resumed current).mutex = k.mutex := by
  by_cases h : current = some k.thread <;> simp [resumed, h]

theorem resumed_thread (current : Option ThreadId) (k : Hold) :
    (k.resumed current).thread = k.thread := by
  by_cases h : current = some k.thread <;> simp [resumed, h]

end Hold

namespace Ledger

def empty : Ledger := ⟨fun _ => false, [], fun _ => false, []⟩

/-- The lock calls whose callers left the wait queue. -/
def granted (l : Ledger) (a a' : Sched) : List Hold :=
  (a.wait.filter fun t => l.locking t && !a'.wait.contains t).map fun t => ⟨t, a.mu t, false⟩

/-- One hold of the mutex by the thread is given up. -/
def unlocked (l : Ledger) (t : ThreadId) (h : Nat) : Ledger :=
  { l with holds := l.holds.eraseP fun k => k.thread == t && k.mutex == h }

/-- What a call by `t` with the value `r` says by itself. -/
def called (l : Ledger) (t : ThreadId) (e : Event) (r : Return) (a' : Sched) : Ledger :=
  match e with
  | .mutexInit =>
      match r.handle with
      | some i => { l with mutexes := Function.update l.mutexes i true }
      | none => l
  | .lock h =>
      if r.value ≠ 0 then l
      else if a'.current = some t then { l with holds := ⟨t, h, true⟩ :: l.holds }
      else { l with locking := Function.update l.locking t true }
  | .join _ =>
      if a'.current = some t then l
      else { l with locking := Function.update l.locking t false }
  | .unlock h => if r.value ≠ 0 then l else l.unlocked t h
  | .destroy h =>
      if r.value ≠ 0 then l else { l with mutexes := Function.update l.mutexes h false }
  | .exit => { l with ended := t :: l.ended }
  | .create _ | .yield | .tick => l

/-- What a call by `CURRENT` says by itself. -/
def acted (l : Ledger) (a : Sched) (e : Event) (r : Return) (a' : Sched) : Ledger :=
  match a.current with
  | none => l
  | some t => l.called t e r a'

def record (l : Ledger) (a : Sched) (e : Event) (r : Return) (a' : Sched) : Ledger :=
  { l.acted a e r a' with
    holds := ((l.acted a e r a').holds ++ l.granted a a').map (Hold.resumed a'.current) }

/-- The outstanding holds of a mutex. -/
def outstanding (l : Ledger) (m : Nat) : Nat := l.holds.countP fun k => k.mutex == m

/-- `t` has returned from a lock of `m` that it has not unlocked. -/
def Holding (l : Ledger) (t : ThreadId) (m : Nat) : Prop :=
  ∃ k ∈ l.holds, k.thread = t ∧ k.mutex = m ∧ k.returned = true

instance (l : Ledger) (t : ThreadId) (m : Nat) : Decidable (l.Holding t m) :=
  inferInstanceAs (Decidable (∃ k ∈ l.holds, k.thread = t ∧ k.mutex = m ∧ k.returned = true))

end Ledger

/-- What a call of the library can do to the lists. -/
inductive Effect (a : Sched) : Event → Sched → Return → Prop
  | refused {e : Event} {h : Nat} (handle : e.handle = some h) : Effect a e a ⟨-1, none⟩
  | created (ti : ThreadId) (i : Nat) (range : 1 ≤ i ∧ i < maxMutexNum)
      (free : (a.table i).used = false) :
      Effect a (.create ti)
        { a with
          ready := a.ready ++ [ti]
          mu := Function.update a.mu ti 0
          tid := Function.update a.tid ti i
          table := Function.update a.table i ⟨true, 1⟩
          live := Function.update a.live ti true }
        ⟨0, some i⟩
  | switched {e : Event} (he : e = .yield ∨ e = .tick) : Effect a e a.schedule ⟨0, none⟩
  | exited (t : ThreadId) (running : a.current = some t) (range : a.tid t < maxMutexNum) :
      Effect a .exit (a.retired t).schedule ⟨0, none⟩
  | took {e : Event} {h : Nat} (waits : e.waits = some h) (range : h < maxMutexNum)
      (used : (a.table h).used = true) (count : (a.table h).count = 0) :
      Effect a e { a with table := a.table.setCount h ((a.table h).count + 1) } ⟨0, none⟩
  | passed {e : Event} {h : Nat} (waits : e.waits = some h) (range : h < maxMutexNum)
      (used : (a.table h).used = true) (count : (a.table h).count ≠ 0) (t : ThreadId)
      (running : a.current = some t) (alone : a.ready = []) :
      Effect a e (a.counted t h) ⟨0, none⟩
  | parked {e : Event} {h : Nat} (waits : e.waits = some h) (range : h < maxMutexNum)
      (used : (a.table h).used = true) (count : (a.table h).count ≠ 0) (t : ThreadId)
      (running : a.current = some t) (next : ThreadId) (rest : List ThreadId)
      (ready : a.ready = next :: rest) :
      Effect a e
        { a.counted t h with current := some next, ready := rest, wait := a.wait ++ [t] }
        ⟨0, none⟩
  | initialised (i : Nat) (range : 1 ≤ i ∧ i < maxMutexNum) (free : (a.table i).used = false) :
      Effect a .mutexInit { a with table := Function.update a.table i ⟨true, 0⟩ } ⟨0, some i⟩
  | unlocked (h : Nat) (range : h < maxMutexNum) (used : (a.table h).used = true)
      (count : (a.table h).count = 1) :
      Effect a (.unlock h) { a with table := a.table.setCount h ((a.table h).count - 1) }
        ⟨0, none⟩
  | handedOver (h : Nat) (range : h < maxMutexNum) (used : (a.table h).used = true)
      (count : (a.table h).count ≠ 0) (several : (a.table h).count ≠ 1) :
      Effect a (.unlock h)
        { a.release h with table := a.table.setCount h ((a.table h).count - 1) } ⟨0, none⟩
  | destroyed (h : Nat) (range : h < maxMutexNum) (used : (a.table h).used = true) :
      Effect a (.destroy h) { a with table := a.table.freeMutex h } ⟨0, none⟩

theorem MutexTable.allocMutex_eq_some {table table' : MutexTable} {i : Nat}
    (h : table.allocMutex = (table', some i)) :
    (1 ≤ i ∧ i < maxMutexNum) ∧ (table i).used = false ∧
      table' = Function.update table i ⟨true, 0⟩ := by
  rw [allocMutex] at h
  cases hfirst : Loops.firstIndex (maxMutexNum - 1) (fun i => !(table (i + 1)).used) with
  | none =>
      simp only [hfirst] at h
      cases h
  | some j =>
      simp only [hfirst, Prod.mk.injEq, Option.some.injEq] at h
      obtain ⟨htable, rfl⟩ := h
      obtain ⟨hfree, hlt, -⟩ := Loops.firstIndex_eq_some.mp hfirst
      refine ⟨⟨Nat.succ_le_succ (Nat.zero_le j), ?_⟩, by simpa using hfree, htable.symm⟩
      simp only [maxMutexNum] at hlt ⊢
      omega

namespace Sched

variable {a a' : Sched} {e : Event} {r : Return}

theorem countAndWait_effect {h : Nat} (waits : e.waits = some h)
    (call : a.countAndWait h = .ok (a', r)) : Effect a e a' r := by
  have handle : e.handle = some h := by
    cases e <;> simp_all [Event.waits, Event.handle]
  rw [countAndWait] at call
  by_cases hh : maxMutexNum ≤ h
  · simp [hh] at call
  have hrange : h < maxMutexNum := Nat.lt_of_not_le hh
  rw [if_neg hh] at call
  by_cases hused : (a.table h).used = false
  · rw [if_pos hused] at call
    cases call
    exact .refused handle
  have hset : (a.table h).used = true := by simpa using hused
  rw [if_neg hused] at call
  by_cases hcount : (a.table h).count = 0
  · rw [if_pos hcount] at call
    cases call
    exact .took waits hrange hset hcount
  rw [if_neg hcount] at call
  cases hcurrent : a.current with
  | none => simp [hcurrent] at call
  | some t =>
      simp only [hcurrent, Except.ok.injEq, Prod.mk.injEq] at call
      obtain ⟨rfl, rfl⟩ := call
      cases hready : a.ready with
      | nil =>
          have hsame : (a.counted t h).swap t = a.counted t h := by
            simp [swap, counted, hready]
          rw [hsame]
          exact .passed waits hrange hset hcount t hcurrent hready
      | cons next rest =>
          have hsame : (a.counted t h).swap t = { a.counted t h with
              current := some next, ready := rest, wait := a.wait ++ [t] } := by
            simp [swap, counted, hready]
          rw [hsame]
          exact .parked waits hrange hset hcount t hcurrent next rest hready

theorem unlock_effect {h : Nat} (call : a.unlock h = .ok (a', r)) :
    Effect a (.unlock h) a' r := by
  rw [unlock] at call
  by_cases hh : maxMutexNum ≤ h
  · simp [hh] at call
  have hrange : h < maxMutexNum := Nat.lt_of_not_le hh
  rw [if_neg hh] at call
  by_cases hused : (a.table h).used = false
  · rw [if_pos hused] at call
    cases call
    exact .refused rfl
  have hset : (a.table h).used = true := by simpa using hused
  rw [if_neg hused] at call
  by_cases hcount : (a.table h).count = 0
  · rw [if_pos hcount] at call
    cases call
    exact .refused rfl
  rw [if_neg hcount] at call
  by_cases hone : (a.table h).count = 1
  · simp only [hone, if_true] at call
    cases call
    simpa only [hone] using Effect.unlocked h hrange hset hone
  · simp only [hone, if_false] at call
    cases call
    exact .handedOver h hrange hset hcount hone

theorem destroy_effect {h : Nat} (call : a.destroy h = .ok (a', r)) :
    Effect a (.destroy h) a' r := by
  rw [destroy] at call
  by_cases hh : maxMutexNum ≤ h
  · simp [hh] at call
  rw [if_neg hh] at call
  by_cases hused : (a.table h).used = false
  · rw [if_pos hused] at call
    cases call
    exact .refused rfl
  · rw [if_neg hused] at call
    cases call
    exact .destroyed h (Nat.lt_of_not_le hh) (by simpa using hused)

theorem create_effect {ti : ThreadId} (call : a.create ti = .ok (a', r)) :
    Effect a (.create ti) a' r := by
  rw [create] at call
  cases halloc : a.table.allocMutex with
  | mk table handle =>
      cases handle with
      | none => simp [halloc] at call
      | some i =>
          obtain ⟨hrange, hfree, rfl⟩ := MutexTable.allocMutex_eq_some halloc
          simp only [halloc] at call
          cases call
          have htable : MutexTable.setCount (Function.update a.table i ⟨true, 0⟩) i 1 =
              Function.update a.table i ⟨true, 1⟩ := by
            simp [MutexTable.setCount]
          rw [htable]
          exact .created ti i hrange hfree

theorem mutexInit_effect (call : a.mutexInit = .ok (a', r)) : Effect a .mutexInit a' r := by
  rw [mutexInit] at call
  cases halloc : a.table.allocMutex with
  | mk table handle =>
      cases handle with
      | none => simp [halloc] at call
      | some i =>
          obtain ⟨hrange, hfree, rfl⟩ := MutexTable.allocMutex_eq_some halloc
          simp only [halloc] at call
          cases call
          exact .initialised i hrange hfree

theorem exit_effect (call : a.exit = .ok (a', r)) : Effect a .exit a' r := by
  rw [exit] at call
  cases hcurrent : a.current with
  | none => simp [hcurrent] at call
  | some t =>
      by_cases htid : maxMutexNum ≤ a.tid t
      · simp [hcurrent, htid] at call
      · simp only [hcurrent, htid, if_false] at call
        cases call
        exact .exited t hcurrent (Nat.lt_of_not_le htid)

/-- A call that comes back has one of the effects. -/
theorem call_effect (call : a.call e = .ok (a', r)) : Effect a e a' r := by
  cases e with
  | create ti => exact create_effect call
  | yield =>
      cases call
      exact .switched (.inl rfl)
  | tick =>
      cases call
      exact .switched (.inr rfl)
  | exit => exact exit_effect call
  | join h => exact countAndWait_effect rfl call
  | lock h => exact countAndWait_effect rfl call
  | mutexInit => exact mutexInit_effect call
  | unlock h => exact unlock_effect call
  | destroy h => exact destroy_effect call

/-- The threads that wait on an entry. -/
def waiters (a : Sched) (h : Nat) : Nat := a.wait.countP (a.waitsOn h)

theorem schedule_wait (a : Sched) : a.schedule.wait = a.wait := by
  cases h : a.ready <;> simp [schedule, h]

theorem schedule_table (a : Sched) : a.schedule.table = a.table := by
  cases h : a.ready <;> simp [schedule, h]

theorem schedule_tid (a : Sched) : a.schedule.tid = a.tid := by
  cases h : a.ready <;> simp [schedule, h]

theorem schedule_mu (a : Sched) : a.schedule.mu = a.mu := by
  cases h : a.ready <;> simp [schedule, h]

theorem schedule_live (a : Sched) : a.schedule.live = a.live := by
  cases h : a.ready <;> simp [schedule, h]

theorem find?_eq_none_iff (a : Sched) (h : Nat) :
    a.wait.find? (a.waitsOn h) = none ↔ a.waiters h = 0 := by
  rw [List.find?_eq_none, waiters, List.countP_eq_zero]

/-- A release takes one thread off those that wait on the entry. -/
theorem waiters_release (a : Sched) (h m : Nat) :
    (a.release h).waiters m + (if m = h ∧ 0 < a.waiters h then 1 else 0) = a.waiters m := by
  have hsplit := Queues.countP_find?_add_countP_eraseP (a.waitsOn h) (a.waitsOn m) a.wait
  change _ = a.waiters m at hsplit
  rw [← hsplit, Nat.add_comm]
  congr 1
  cases hfind : a.wait.find? (a.waitsOn h) with
  | none =>
      have hzero := (a.find?_eq_none_iff h).mp hfind
      simp [hzero]
  | some w =>
      have hpos : 0 < a.waiters h := by
        refine Nat.pos_of_ne_zero ?_
        intro hzero
        rw [(a.find?_eq_none_iff h).mpr hzero] at hfind
        cases hfind
      have hw : h = a.mu w := by simpa [waitsOn] using List.find?_some hfind
      by_cases hm : m = h
      · subst hm
        simp [hpos, waitsOn, ← hw]
      · simp [hm, waitsOn, ← hw]

/-- The waiting threads of any state reached by a release. -/
theorem waiters_released {h : Nat} (wait : a'.wait = a.wait.eraseP (a.waitsOn h))
    (mu : a'.mu = a.mu) (m : Nat) :
    a'.waiters m + (if m = h ∧ 0 < a.waiters h then 1 else 0) = a.waiters m := by
  have htest : a'.waitsOn m = a.waitsOn m := by
    funext t
    rw [waitsOn, waitsOn, mu]
  rw [waiters, htest, wait]
  exact a.waiters_release h m

end Sched

namespace Ledger

variable {a a' : Sched} {e : Event} {r : Return} {l : Ledger} {t : ThreadId} {h m : Nat}

@[simp] theorem record_mutexes : (l.record a e r a').mutexes = (l.acted a e r a').mutexes := rfl

@[simp] theorem record_locking : (l.record a e r a').locking = (l.acted a e r a').locking := rfl

@[simp] theorem record_ended : (l.record a e r a').ended = (l.acted a e r a').ended := rfl

theorem outstanding_record :
    (l.record a e r a').outstanding m =
      (l.acted a e r a').outstanding m + (l.granted a a').countP fun k => k.mutex == m := by
  simp only [outstanding, record, List.countP_map, ← List.countP_append]
  refine List.countP_congr ?_
  intro k _
  simp [Hold.resumed_mutex]

/-- Nobody left the wait queue. -/
theorem granted_eq_nil (kept : ∀ t, t ∈ a.wait → t ∈ a'.wait) : l.granted a a' = [] := by
  rw [granted, List.map_eq_nil_iff, List.filter_eq_nil_iff]
  intro t ht
  simp [kept t ht]

/-- A release grants the mutex to the thread it moves, if that waits in a lock. -/
theorem granted_release (nodup : a.wait.Nodup)
    (hwait : a'.wait = a.wait.eraseP (a.waitsOn h)) :
    l.granted a a' = ((a.wait.find? (a.waitsOn h)).toList.filter l.locking).map
      fun t => ⟨t, h, false⟩ := by
  cases hfind : a.wait.find? (a.waitsOn h) with
  | none =>
      rw [List.eraseP_of_forall_not (List.find?_eq_none.mp hfind)] at hwait
      exact granted_eq_nil fun t ht => hwait ▸ ht
  | some w =>
      obtain ⟨htest, as, bs, hsplit, herase, -⟩ := TailQueue.split_of_find? hfind
      have hmu : h = a.mu w := by simpa [Sched.waitsOn] using htest
      have hnotMem : w ∉ as ++ bs := by
        rw [hsplit] at nodup
        exact (List.nodup_cons.mp (List.nodup_middle.mp nodup)).1
      have hstay : ∀ t, t ∈ as ++ bs →
          (l.locking t && !(as ++ bs).contains t) = false := by
        intro t ht
        rw [List.contains_iff_mem.mpr ht, Bool.not_true, Bool.and_false]
      have has : as.filter (fun t => l.locking t && !(as ++ bs).contains t) = [] :=
        List.filter_eq_nil_iff.mpr fun t ht => by
          rw [hstay t (List.mem_append_left bs ht)]
          exact Bool.false_ne_true
      have hbs : bs.filter (fun t => l.locking t && !(as ++ bs).contains t) = [] :=
        List.filter_eq_nil_iff.mpr fun t ht => by
          rw [hstay t (List.mem_append_right as ht)]
          exact Bool.false_ne_true
      have hw : (l.locking w && !(as ++ bs).contains w) = l.locking w := by
        simpa using fun _ => List.mem_append.not.mp hnotMem
      rw [granted, hwait, herase, hsplit, List.filter_append, has, List.nil_append,
        List.filter_cons, hw, hbs]
      cases hlocking : l.locking w <;> simp [hlocking, hmu]

/-- A refused call says nothing. -/
theorem acted_refused (handle : e.handle = some h) : l.acted a e ⟨-1, none⟩ a = l := by
  rw [acted]
  cases hcurrent : a.current with
  | none => rfl
  | some t => cases e <;> simp_all [Event.handle, called]

theorem acted_lock (running : a.current = some t) (same : a'.current = some t) :
    l.acted a (.lock h) ⟨0, none⟩ a' = { l with holds := ⟨t, h, true⟩ :: l.holds } := by
  simp [acted, called, running, same]

theorem acted_lock_parked (running : a.current = some t) (other : a'.current ≠ some t) :
    l.acted a (.lock h) ⟨0, none⟩ a' =
      { l with locking := Function.update l.locking t true } := by
  simp [acted, called, running, other]

theorem acted_join (running : a.current = some t) (same : a'.current = some t) :
    l.acted a (.join h) r a' = l := by
  simp [acted, called, running, same]

theorem acted_join_parked (running : a.current = some t) (other : a'.current ≠ some t) :
    l.acted a (.join h) r a' = { l with locking := Function.update l.locking t false } := by
  simp [acted, called, running, other]

theorem acted_unlock (running : a.current = some t) :
    l.acted a (.unlock h) ⟨0, none⟩ a' = l.unlocked t h := by
  simp [acted, called, running]

theorem acted_created {ti : ThreadId} : l.acted a (.create ti) r a' = l := by
  rw [acted]
  cases a.current <;> rfl

theorem acted_switched (he : e = .yield ∨ e = .tick) : l.acted a e r a' = l := by
  rw [acted]
  cases he with
  | inl yields => cases a.current <;> simp [yields, called]
  | inr ticks => cases a.current <;> simp [ticks, called]

/-- Calls that neither lock nor unlock leave the holds alone. -/
theorem acted_holds (lock : ∀ h, e ≠ .lock h) (unlock : ∀ h, e ≠ .unlock h) :
    (l.acted a e r a').holds = l.holds := by
  rw [acted]
  cases a.current with
  | none => rfl
  | some t =>
      cases e with
      | lock h => exact absurd rfl (lock h)
      | unlock h => exact absurd rfl (unlock h)
      | mutexInit => simp only [called]; split <;> rfl
      | destroy h => simp only [called]; split <;> rfl
      | join h => simp only [called]; split <;> rfl
      | create | yield | tick | exit => rfl

theorem acted_locking (waits : e.waits = none) : (l.acted a e r a').locking = l.locking := by
  rw [acted]
  cases a.current with
  | none => rfl
  | some t =>
      cases e with
      | lock h => cases waits
      | join h => cases waits
      | mutexInit => simp only [called]; split <;> rfl
      | destroy h => simp only [called]; split <;> rfl
      | unlock h => simp only [called]; split <;> rfl
      | create | yield | tick | exit => rfl

/-- Nobody left the wait queue, and the call neither locked nor unlocked. -/
theorem outstanding_kept (holds : (l.acted a e r a').holds = l.holds)
    (kept : ∀ t, t ∈ a.wait → t ∈ a'.wait) :
    (l.record a e r a').outstanding m = l.outstanding m := by
  rw [outstanding_record, granted_eq_nil kept, outstanding, holds]
  rfl

/-- The holds, the mutexes and the waiting locks are as they were. -/
structure Kept (l l' : Ledger) : Prop where
  outstanding : ∀ m, l'.outstanding m = l.outstanding m
  mutexes : l'.mutexes = l.mutexes
  locking : l'.locking = l.locking

/-- The call says nothing, and nobody left the wait queue. -/
theorem kept_of_acted (acted : l.acted a e r a' = l) (kept : ∀ t, t ∈ a.wait → t ∈ a'.wait) :
    l.Kept (l.record a e r a') := by
  refine ⟨fun m => outstanding_kept (by rw [acted]) kept, ?_, ?_⟩
  · rw [record_mutexes, acted]
  · rw [record_locking, acted]

theorem outstanding_locked (running : a.current = some t) (same : a'.current = some t)
    (wait : a'.wait = a.wait) :
    (l.record a (.lock h) ⟨0, none⟩ a').outstanding m =
      l.outstanding m + if m = h then 1 else 0 := by
  rw [outstanding_record, granted_eq_nil (fun t ht => wait ▸ ht), acted_lock running same]
  simp only [outstanding, List.countP_cons, List.countP_nil, beq_iff_eq, eq_comm (a := h),
    Nat.add_zero]

/-- The holds that a release of `h` grants are holds of `h`. -/
theorem countP_granted_release (nodup : a.wait.Nodup)
    (hwait : a'.wait = a.wait.eraseP (a.waitsOn h)) :
    ((l.granted a a').countP fun k => k.mutex == m) =
      if m = h then (a.wait.find? (a.waitsOn h)).toList.countP l.locking else 0 := by
  rw [granted_release nodup hwait, List.countP_map, List.countP_filter]
  by_cases hsame : m = h
  · subst hsame
    simp
  · simp [eq_comm (a := h), hsame]

theorem outstanding_unlocked (hold : l.Holding t h) :
    (l.unlocked t h).outstanding m + (if m = h then 1 else 0) = l.outstanding m := by
  obtain ⟨k, hk, hthread, hmutex, -⟩ := hold
  have htest : (k.thread == t && k.mutex == h) = true := by simp [hthread, hmutex]
  obtain ⟨k', as, bs, -, htest', hsplit, herase⟩ :=
    List.exists_of_eraseP (p := fun k => k.thread == t && k.mutex == h) hk htest
  have hmutex' : k'.mutex = h := by
    simp only [Bool.and_eq_true, beq_iff_eq] at htest'
    exact htest'.2
  simp only [outstanding, unlocked, herase]
  simp only [hsplit, List.countP_append, List.countP_cons, beq_iff_eq, hmutex',
    eq_comm (a := h)]
  omega

/-- A thread ends, and whoever waits for its entry does not wait in a lock. -/
theorem kept_of_exit (nodup : a.wait.Nodup) (hwait : a'.wait = a.wait.eraseP (a.waitsOn h))
    (joiner : ∀ w ∈ a.wait.find? (a.waitsOn h), l.locking w = false) :
    l.Kept (l.record a .exit r a') := by
  have hgranted : (a.wait.find? (a.waitsOn h)).toList.countP l.locking = 0 := by
    rw [List.countP_eq_zero]
    intro w hw
    rw [joiner w (Option.mem_toList.mp hw)]
    exact Bool.false_ne_true
  refine ⟨?_, ?_, ?_⟩
  · intro m
    rw [outstanding_record, countP_granted_release nodup hwait, hgranted, ite_self,
      Nat.add_zero, outstanding, acted_holds (by simp) (by simp), outstanding]
  · rw [record_mutexes, acted]
    cases a.current <;> rfl
  · rw [record_locking, acted_locking rfl]

/-- An unlock gives up a hold of the mutex, and a release grants one again. -/
theorem outstanding_handedOver (running : a.current = some t) (hold : l.Holding t h)
    (nodup : a.wait.Nodup) (hwait : a'.wait = a.wait.eraseP (a.waitsOn h)) :
    (l.record a (.unlock h) ⟨0, none⟩ a').outstanding m + (if m = h then 1 else 0) =
      l.outstanding m +
        if m = h then (a.wait.find? (a.waitsOn h)).toList.countP l.locking else 0 := by
  have hunlocked := outstanding_unlocked (m := m) hold
  rw [outstanding_record, acted_unlock running, countP_granted_release nodup hwait]
  omega

/-- An unlock without a release. -/
theorem outstanding_given_up (running : a.current = some t) (hold : l.Holding t h)
    (wait : a'.wait = a.wait) :
    (l.record a (.unlock h) ⟨0, none⟩ a').outstanding m + (if m = h then 1 else 0) =
      l.outstanding m := by
  have hunlocked := outstanding_unlocked (m := m) hold
  rw [outstanding_record, acted_unlock running, granted_eq_nil (fun t ht => wait ▸ ht)]
  exact hunlocked

end Ledger

end OsDesign.Pthread
