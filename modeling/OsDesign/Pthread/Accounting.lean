import OsDesign.Pthread.Exclusion

/-!
What the count of a mutex says: the outstanding holds and the waiting threads,
modulo 2^32. A thread waits for a mutex that is held or for a live thread.
-/
namespace OsDesign.Pthread

open Virt

def Event.joins : Event → Option Nat
  | .join h => some h
  | _ => none

/-- The discipline of the runs: besides that of mutexes, a join is given the
handle of a live thread that nobody waits for yet, or an unused entry. -/
structure Accountable (a : Sched) (l : Ledger) (e : Event) : Prop extends Disciplined a l e where
  join : ∀ h ∈ e.joins, (a.table h).used = false ∨
    (∃ T ∈ a.threads, a.tid T = h) ∧ a.waiters h = 0

instance (a : Sched) (l : Ledger) (e : Event) : Decidable (Accountable a l e) :=
  decidable_of_iff (Disciplined a l e ∧ ∀ h ∈ e.joins, (a.table h).used = false ∨
      (∃ T ∈ a.threads, a.tid T = h) ∧ a.waiters h = 0)
    ⟨fun h => ⟨h.1, h.2⟩, fun h => ⟨h.toDisciplined, h.join⟩⟩

/-- `w` waits in a lock of a mutex that is held, or in a join of a live thread. -/
def Waits (a : Sched) (l : Ledger) (w : ThreadId) : Prop :=
  (l.locking w = true ∧ l.mutexes (a.mu w) = true ∧ 1 ≤ l.outstanding (a.mu w)) ∨
  (l.locking w = false ∧ ∃ T, a.live T = true ∧ a.tid T = a.mu w ∧ a.Numbered T)

structure Accounted (a : Sched) (l : Ledger) : Prop where
  counted : ∀ m, l.mutexes m = true →
    (a.table m).count = BitVec.ofNat 32 (l.outstanding m + a.waiters m)
  outside : ∀ m, l.mutexes m = false → l.outstanding m = 0
  waiting : ∀ w, w ∈ a.wait → Waits a l w
  single : ∀ T, a.live T = true → a.Numbered T → a.waiters (a.tid T) ≤ 1

variable {main t : ThreadId} {a a' : Sched} {l l' : Ledger} {e : Event} {r : Return} {h m : Nat}

theorem ofNat_succ (n : Nat) : BitVec.ofNat 32 n + 1 = BitVec.ofNat 32 (n + 1) :=
  (BitVec.ofNat_add n 1).symm

theorem ofNat_pred (n : Nat) : BitVec.ofNat 32 (n + 1) - 1 = BitVec.ofNat 32 n := by
  rw [← ofNat_succ, BitVec.add_sub_cancel]

namespace Accounted

/-- Somebody waits for the entry, and is found. -/
theorem exists_waiter (hpos : 0 < a.waiters h) : ∃ w, w ∈ a.wait ∧ a.mu w = h := by
  obtain ⟨w, hw, htest⟩ := List.countP_pos_iff.mp hpos
  exact ⟨w, hw, (beq_iff_eq.mp htest).symm⟩

/-- Nobody waits for an entry that is not used. -/
theorem waiters_unused (acc : Accounted a l) (handles : Handles main a l.mutexes)
    (free : (a.table h).used = false) : a.waiters h = 0 := by
  by_contra hne
  obtain ⟨w, hw, hmu⟩ := exists_waiter (Nat.pos_of_ne_zero hne)
  cases acc.waiting w hw with
  | inl lock =>
      have hused := handles.mutex _ lock.2.1
      simp [hmu, free] at hused
  | inr join =>
      obtain ⟨-, T, hT, htid, hnumbered⟩ := join
      have hused := handles.used T hT hnumbered
      simp [htid, hmu, free] at hused

/-- Who waits for a mutex waits in a lock, and the mutex is held. -/
theorem waits_mutex (acc : Accounted a l) (handles : Handles main a l.mutexes)
    (hm : l.mutexes h = true) {w : ThreadId} (hw : w ∈ a.wait) (hmu : a.mu w = h) :
    l.locking w = true ∧ 1 ≤ l.outstanding h := by
  cases acc.waiting w hw with
  | inl lock => exact ⟨lock.1, hmu ▸ lock.2.2⟩
  | inr join =>
      obtain ⟨-, T, hT, htid, -⟩ := join
      exact absurd (htid.trans hmu) (handles.apart h T hm hT)

/-- A mutex whose count is not zero is held. -/
theorem held_of_count (acc : Accounted a l) (handles : Handles main a l.mutexes)
    (hm : l.mutexes h = true) (count : (a.table h).count ≠ 0) : 1 ≤ l.outstanding h := by
  by_cases hwaiters : a.waiters h = 0
  · rw [acc.counted h hm, hwaiters] at count
    refine Nat.pos_of_ne_zero ?_
    intro hzero
    rw [hzero] at count
    exact count rfl
  · obtain ⟨w, hw, hmu⟩ := exists_waiter (Nat.pos_of_ne_zero hwaiters)
    exact (acc.waits_mutex handles hm hw hmu).2

/-- The record of the holds, the queues and the used entries are left alone. -/
theorem congr (acc : Accounted a l) (kept : l.Kept l')
    (wait : a'.wait = a.wait) (mu : ∀ w, w ∈ a.wait → a'.mu w = a.mu w)
    (table : ∀ m, l.mutexes m = true → a'.table m = a.table m)
    (live : a'.live = a.live) (tid : a'.tid = a.tid) : Accounted a' l' := by
  have hwaiters := Sched.waiters_congr wait mu
  refine ⟨?_, ?_, ?_, ?_⟩
  · intro m hm
    rw [kept.mutexes] at hm
    rw [table m hm, kept.outstanding, hwaiters]
    exact acc.counted m hm
  · intro m hm
    rw [kept.mutexes] at hm
    rw [kept.outstanding]
    exact acc.outside m hm
  · intro w hw
    rw [wait] at hw
    rw [Waits, kept.locking, kept.mutexes, mu w hw, kept.outstanding, live, tid]
    simp only [Sched.Numbered, tid]
    exact acc.waiting w hw
  · intro T hT hnumbered
    rw [Sched.Numbered, tid] at hnumbered
    rw [live] at hT
    rw [tid, hwaiters]
    exact acc.single T hT hnumbered

/-- A lock returns at once, with the count at zero or with nobody else ready. -/
theorem locked (acc : Accounted a l) (running : a.current = some t) (same : a'.current = some t)
    (hm : l.mutexes h = true) (wait : a'.wait = a.wait)
    (mu : ∀ w, w ∈ a.wait → a'.mu w = a.mu w)
    (table : a'.table = a.table.setCount h ((a.table h).count + 1))
    (live : a'.live = a.live) (tid : a'.tid = a.tid) :
    Accounted a' (l.record a (.lock h) ⟨0, none⟩ a') := by
  have hacted := Ledger.acted_lock (l := l) (h := h) running same
  have hout : ∀ m, (l.record a (.lock h) ⟨0, none⟩ a').outstanding m =
      l.outstanding m + if m = h then 1 else 0 :=
    fun m => Ledger.outstanding_locked running same wait
  have hwaiters := Sched.waiters_congr wait mu
  refine ⟨?_, ?_, ?_, ?_⟩
  · intro m hm'
    rw [Ledger.record_mutexes, hacted] at hm'
    rw [hout, hwaiters, table]
    by_cases hsame : m = h
    · subst hsame
      rw [MutexTable.setCount_count_self, acc.counted m hm', if_pos rfl, ofNat_succ]
      congr 1
      omega
    · rw [MutexTable.setCount_of_ne _ _ hsame, if_neg hsame]
      exact acc.counted m hm'
  · intro m hm'
    rw [Ledger.record_mutexes, hacted] at hm'
    have hsame : m ≠ h := fun same => by simp [same, hm] at hm'
    rw [hout, if_neg hsame]
    exact acc.outside m hm'
  · intro w hw
    rw [wait] at hw
    rw [Waits, Ledger.record_locking, Ledger.record_mutexes, hacted, mu w hw, live, tid, hout]
    simp only [Sched.Numbered, tid]
    cases acc.waiting w hw with
    | inl lock => exact .inl ⟨lock.1, lock.2.1, lock.2.2.trans (Nat.le_add_right _ _)⟩
    | inr join => exact .inr join
  · intro T hT hnumbered
    rw [Sched.Numbered, tid] at hnumbered
    rw [live] at hT
    rw [tid, hwaiters]
    exact acc.single T hT hnumbered

/-- A lock waits: the mutex is held, since its count is not zero. -/
theorem parked_lock (acc : Accounted a l) (part : a.Partition)
    (handles : Handles main a l.mutexes) (running : a.current = some t)
    (hm : l.mutexes h = true) (count : (a.table h).count ≠ 0) (other : a'.current ≠ some t)
    (wait : a'.wait = a.wait ++ [t]) (mu : a'.mu = Function.update a.mu t h)
    (table : a'.table = a.table.setCount h ((a.table h).count + 1))
    (live : a'.live = a.live) (tid : a'.tid = a.tid) :
    Accounted a' (l.record a (.lock h) ⟨0, none⟩ a') := by
  have hacted := Ledger.acted_lock_parked (l := l) (h := h) running other
  have hout : ∀ m, (l.record a (.lock h) ⟨0, none⟩ a').outstanding m = l.outstanding m :=
    fun m => Ledger.outstanding_kept (by rw [hacted])
      (fun t ht => wait ▸ List.mem_append_left _ ht)
  have hwaiters := Sched.waiters_parked part running wait mu
  refine ⟨?_, ?_, ?_, ?_⟩
  · intro m hm'
    rw [Ledger.record_mutexes, hacted] at hm'
    rw [hout, hwaiters, table]
    by_cases hsame : m = h
    · subst hsame
      rw [MutexTable.setCount_count_self, acc.counted m hm', if_pos rfl, ofNat_succ, Nat.add_assoc]
    · rw [MutexTable.setCount_of_ne _ _ hsame, if_neg hsame]
      exact acc.counted m hm'
  · intro m hm'
    rw [Ledger.record_mutexes, hacted] at hm'
    rw [hout]
    exact acc.outside m hm'
  · intro w hw
    rw [wait] at hw
    rw [Waits, Ledger.record_locking, Ledger.record_mutexes, hacted, live, tid, hout, mu]
    simp only [Sched.Numbered, tid]
    by_cases hsame : w = t
    · subst hsame
      rw [Function.update_self, Function.update_self]
      exact .inl ⟨rfl, hm, acc.held_of_count handles hm count⟩
    · have hold : w ∈ a.wait := by simpa [hsame] using hw
      rw [Function.update_of_ne hsame, Function.update_of_ne hsame]
      exact acc.waiting w hold
  · intro T hT hnumbered
    rw [Sched.Numbered, tid] at hnumbered
    rw [live] at hT
    rw [tid, hwaiters, if_neg (handles.apart h T hm hT)]
    exact acc.single T hT hnumbered

/-- A join waits for a live thread that nobody waits for yet. -/
theorem parked_join (acc : Accounted a l) (part : a.Partition)
    (handles : Handles main a l.mutexes) (running : a.current = some t)
    (used : (a.table h).used = true) (joined : ∃ T ∈ a.threads, a.tid T = h)
    (first : a.waiters h = 0) (other : a'.current ≠ some t)
    (wait : a'.wait = a.wait ++ [t]) (mu : a'.mu = Function.update a.mu t h)
    (table : a'.table = a.table.setCount h ((a.table h).count + 1))
    (live : a'.live = a.live) (tid : a'.tid = a.tid) :
    Accounted a' (l.record a (.join h) ⟨0, none⟩ a') := by
  obtain ⟨T, hT, htid⟩ := joined
  have hlive := (part.live T).mp hT
  have hapart : ∀ m, l.mutexes m = true → m ≠ h := fun m hm same =>
    handles.apart m T hm hlive (htid.trans same.symm)
  have hnumbered : a.Numbered T := by
    rw [Sched.Numbered, htid]
    exact handles.range h used
  have hacted := Ledger.acted_join_parked (l := l) (h := h) (r := ⟨0, none⟩) running other
  have hout : ∀ m, (l.record a (.join h) ⟨0, none⟩ a').outstanding m = l.outstanding m :=
    fun m => Ledger.outstanding_kept (by rw [hacted])
      (fun t ht => wait ▸ List.mem_append_left _ ht)
  have hwaiters := Sched.waiters_parked part running wait mu
  refine ⟨?_, ?_, ?_, ?_⟩
  · intro m hm
    rw [Ledger.record_mutexes, hacted] at hm
    rw [hout, hwaiters, table, MutexTable.setCount_of_ne _ _ (hapart m hm),
      if_neg (hapart m hm)]
    exact acc.counted m hm
  · intro m hm
    rw [Ledger.record_mutexes, hacted] at hm
    rw [hout]
    exact acc.outside m hm
  · intro w hw
    rw [wait] at hw
    rw [Waits, Ledger.record_locking, Ledger.record_mutexes, hacted, live, tid, hout, mu]
    simp only [Sched.Numbered, tid]
    by_cases hsame : w = t
    · subst hsame
      rw [Function.update_self, Function.update_self]
      exact .inr ⟨rfl, T, hlive, htid, hnumbered⟩
    · have hold : w ∈ a.wait := by simpa [hsame] using hw
      rw [Function.update_of_ne hsame, Function.update_of_ne hsame]
      exact acc.waiting w hold
  · intro T' hT' hnumbered'
    rw [Sched.Numbered, tid] at hnumbered'
    rw [live] at hT'
    rw [tid, hwaiters]
    by_cases hsame : a.tid T' = h
    · rw [if_pos hsame, hsame, first]
    · rw [if_neg hsame]
      exact acc.single T' hT' hnumbered'

/-- What a release of a mutex leaves: the waiting threads are fewer by the one
that was granted the mutex. -/
theorem released (acc : Accounted a l) (handles : Handles main a l.mutexes)
    (hm : l.mutexes h = true) (wait : a'.wait = a.wait.eraseP (a.waitsOn h))
    (mu : a'.mu = a.mu) :
    a'.waiters h + (a.wait.find? (a.waitsOn h)).toList.countP l.locking = a.waiters h ∧
      (0 < a.waiters h → (a.wait.find? (a.waitsOn h)).toList.countP l.locking = 1) := by
  have hmoved := Sched.waiters_released wait mu h
  cases hfind : a.wait.find? (a.waitsOn h) with
  | none =>
      have hzero := (a.find?_eq_none_iff h).mp hfind
      rw [hzero, if_neg (by simp)] at hmoved
      simp [hzero, hmoved]
  | some w =>
      have hpos : 0 < a.waiters h := by
        refine Nat.pos_of_ne_zero ?_
        intro hzero
        rw [(a.find?_eq_none_iff h).mpr hzero] at hfind
        cases hfind
      have htest : a.waitsOn h w = true := List.find?_some hfind
      have hmu : a.mu w = h := (beq_iff_eq.mp htest).symm
      have hlocking := (acc.waits_mutex handles hm (List.mem_of_find?_eq_some hfind) hmu).1
      rw [if_pos ⟨rfl, hpos⟩] at hmoved
      simp [hlocking, hmoved]

/-- An unlock that only counts down leaves a hold for whoever still waits. -/
theorem unlocked (acc : Accounted a l) (part : a.Partition) (handles : Handles main a l.mutexes)
    (running : a.current = some t) (hold : l.Holding t h) (hm : l.mutexes h = true)
    (count : (a.table h).count = 1) (wait : a'.wait = a.wait) (mu : a'.mu = a.mu)
    (table : a'.table = a.table.setCount h ((a.table h).count - 1))
    (live : a'.live = a.live) (tid : a'.tid = a.tid) :
    Accounted a' (l.record a (.unlock h) ⟨0, none⟩ a') := by
  have hacted : l.acted a (.unlock h) ⟨0, none⟩ a' = l.unlocked t h :=
    Ledger.acted_unlock running
  have hout : ∀ m, (l.record a (.unlock h) ⟨0, none⟩ a').outstanding m +
      (if m = h then 1 else 0) = l.outstanding m :=
    fun m => Ledger.outstanding_given_up running hold wait
  have hother : ∀ m, m ≠ h →
      (l.record a (.unlock h) ⟨0, none⟩ a').outstanding m = l.outstanding m := by
    intro m hne
    have := hout m
    rwa [if_neg hne] at this
  have hhere := hout h
  rw [if_pos rfl] at hhere
  have hwaiters := Sched.waiters_congr wait fun t _ => by rw [mu]
  have hcounted := acc.counted h hm
  refine ⟨?_, ?_, ?_, ?_⟩
  · intro m hm'
    rw [Ledger.record_mutexes, hacted] at hm'
    rw [hwaiters, table]
    by_cases hsame : m = h
    · subst hsame
      rw [MutexTable.setCount_count_self, hcounted, ← hhere, Nat.add_right_comm, ofNat_pred]
    · rw [MutexTable.setCount_of_ne _ _ hsame, hother m hsame]
      exact acc.counted m hm'
  · intro m hm'
    rw [Ledger.record_mutexes, hacted] at hm'
    have hne : m ≠ h := fun same => by simp [Ledger.unlocked, same, hm] at hm'
    rw [hother m hne]
    exact acc.outside m hm'
  · intro w hw
    rw [wait] at hw
    rw [Waits, Ledger.record_locking, Ledger.record_mutexes, hacted, live, tid, mu]
    simp only [Sched.Numbered, tid]
    cases acc.waiting w hw with
    | inr join => exact .inr join
    | inl lock =>
        refine .inl ⟨lock.1, lock.2.1, ?_⟩
        by_cases hsame : a.mu w = h
        · -- the count is one, so that with a waiting thread there are 2^32 holds or more
          rw [hsame]
          have hpos : 0 < a.waiters h :=
            List.countP_pos_iff.mpr ⟨w, hw, by simp [Sched.waitsOn, hsame]⟩
          have hfew := handles.waiters_le part h
          simp only [maxMutexNum] at hfew
          rw [count] at hcounted
          have hnat := congrArg BitVec.toNat hcounted
          rw [BitVec.toNat_ofNat] at hnat
          change 1 = _ at hnat
          omega
        · rw [hother _ hsame]
          exact lock.2.2
  · intro T hT hnumbered
    rw [Sched.Numbered, tid] at hnumbered
    rw [live] at hT
    rw [tid, hwaiters]
    exact acc.single T hT hnumbered

/-- An unlock passes the hold on to a waiting thread, if there is one. -/
theorem handedOver (acc : Accounted a l) (part : a.Partition)
    (handles : Handles main a l.mutexes) (running : a.current = some t)
    (hold : l.Holding t h) (hm : l.mutexes h = true)
    (wait : a'.wait = a.wait.eraseP (a.waitsOn h)) (mu : a'.mu = a.mu)
    (table : a'.table = a.table.setCount h ((a.table h).count - 1))
    (live : a'.live = a.live) (tid : a'.tid = a.tid) :
    Accounted a' (l.record a (.unlock h) ⟨0, none⟩ a') := by
  have hacted : l.acted a (.unlock h) ⟨0, none⟩ a' = l.unlocked t h :=
    Ledger.acted_unlock running
  have hout : ∀ m, (l.record a (.unlock h) ⟨0, none⟩ a').outstanding m +
      (if m = h then 1 else 0) = l.outstanding m +
        if m = h then (a.wait.find? (a.waitsOn h)).toList.countP l.locking else 0 :=
    fun m => Ledger.outstanding_handedOver running hold part.wait_nodup wait
  have hother : ∀ m, m ≠ h →
      (l.record a (.unlock h) ⟨0, none⟩ a').outstanding m = l.outstanding m := by
    intro m hne
    have := hout m
    rwa [if_neg hne, if_neg hne] at this
  have hhere := hout h
  rw [if_pos rfl, if_pos rfl] at hhere
  have hwaiters := Sched.waiters_released wait mu
  obtain ⟨hfewer, hgranted⟩ := acc.released handles hm wait mu
  have hcounted := acc.counted h hm
  refine ⟨?_, ?_, ?_, ?_⟩
  · intro m hm'
    rw [Ledger.record_mutexes, hacted] at hm'
    rw [table]
    by_cases hsame : m = h
    · subst hsame
      have hsum : l.outstanding m + a.waiters m =
          (l.record a (.unlock m) ⟨0, none⟩ a').outstanding m + a'.waiters m + 1 := by omega
      rw [MutexTable.setCount_count_self, hcounted, hsum, ofNat_pred]
    · have := hwaiters m
      rw [if_neg (fun both => hsame both.1), Nat.add_zero] at this
      rw [MutexTable.setCount_of_ne _ _ hsame, hother m hsame, this]
      exact acc.counted m hm'
  · intro m hm'
    rw [Ledger.record_mutexes, hacted] at hm'
    have hne : m ≠ h := fun same => by simp [Ledger.unlocked, same, hm] at hm'
    rw [hother m hne]
    exact acc.outside m hm'
  · intro w hw
    rw [wait] at hw
    have hw := List.mem_of_mem_eraseP hw
    rw [Waits, Ledger.record_locking, Ledger.record_mutexes, hacted, live, tid, mu]
    simp only [Sched.Numbered, tid]
    cases acc.waiting w hw with
    | inr join => exact .inr join
    | inl lock =>
        refine .inl ⟨lock.1, lock.2.1, ?_⟩
        by_cases hsame : a.mu w = h
        · have hpos : 0 < a.waiters h :=
            List.countP_pos_iff.mpr ⟨w, hw, by simp [Sched.waitsOn, hsame]⟩
          have hone := hgranted hpos
          rw [hsame]
          have hheld := hsame ▸ lock.2.2
          omega
        · rw [hother _ hsame]
          exact lock.2.2
  · intro T hT hnumbered
    rw [Sched.Numbered, tid] at hnumbered
    rw [live] at hT
    rw [tid]
    have hsingle := acc.single T hT hnumbered
    have := hwaiters (a.tid T)
    omega

/-- A thread ends: its one joiner is woken, and nobody else waited for it. -/
theorem exited (acc : Accounted a l) (part : a.Partition) (handles : Handles main a l.mutexes)
    (running : a.current = some t)
    (wait : a'.wait = a.wait.eraseP (a.waitsOn (a.tid t))) (mu : a'.mu = a.mu)
    (table : a'.table = a.table.freeMutex (a.tid t))
    (live : a'.live = Function.update a.live t false) (tid : a'.tid = a.tid) :
    Accounted a' (l.record a .exit r a') := by
  have hlive := part.running_live running
  have hapart : ∀ m, l.mutexes m = true → m ≠ a.tid t := fun m hm =>
    (handles.apart m t hm hlive).symm
  have hwaiters := Sched.waiters_released wait mu
  have hothers : ∀ m, m ≠ a.tid t → a'.waiters m = a.waiters m := by
    intro m hne
    have := hwaiters m
    rwa [if_neg (fun both => hne both.1)] at this
  -- who waits on the entry waits in a join, of this thread and of no other
  have hjoin : ∀ w, w ∈ a.wait → a.mu w = a.tid t → l.locking w = false ∧ a.Numbered t := by
    intro w hw hmu
    cases acc.waiting w hw with
    | inl lock => exact absurd hmu (hapart _ lock.2.1)
    | inr join =>
        obtain ⟨hno, T, hT, htid, hnumbered⟩ := join
        obtain rfl : t = T := handles.distinct T t hT hlive hnumbered (hmu.symm.trans htid.symm)
        exact ⟨hno, hnumbered⟩
  have hgone : a'.waiters (a.tid t) = 0 := by
    have hmoved := hwaiters (a.tid t)
    by_cases hpos : 0 < a.waiters (a.tid t)
    · obtain ⟨w, hw, hmu⟩ := exists_waiter hpos
      have hsingle := acc.single t hlive (hjoin w hw hmu).2
      rw [if_pos ⟨rfl, hpos⟩] at hmoved
      omega
    · omega
  have kept : l.Kept (l.record a .exit r a') := by
    refine Ledger.kept_of_exit part.wait_nodup wait ?_
    intro w hfind
    have htest : a.waitsOn (a.tid t) w = true := List.find?_some hfind
    exact (hjoin w (List.mem_of_find?_eq_some hfind) (beq_iff_eq.mp htest).symm).1
  refine ⟨?_, ?_, ?_, ?_⟩
  · intro m hm
    rw [kept.mutexes] at hm
    rw [kept.outstanding, hothers m (hapart m hm), table, MutexTable.freeMutex,
      Function.update_of_ne (hapart m hm)]
    exact acc.counted m hm
  · intro m hm
    rw [kept.mutexes] at hm
    rw [kept.outstanding]
    exact acc.outside m hm
  · intro w hw
    have hmu : a.mu w ≠ a.tid t := by
      intro same
      refine List.countP_eq_zero.mp hgone w hw ?_
      simp [Sched.waitsOn, mu, same]
    rw [wait] at hw
    rw [Waits, kept.locking, kept.mutexes, live, tid, kept.outstanding, mu]
    simp only [Sched.Numbered, tid]
    cases acc.waiting w (List.mem_of_mem_eraseP hw) with
    | inl lock => exact .inl lock
    | inr join =>
        obtain ⟨hno, T, hT, htid, hnumbered⟩ := join
        have hne : T ≠ t := fun same => hmu (htid.symm.trans (congrArg a.tid same))
        exact .inr ⟨hno, T, by rwa [Function.update_of_ne hne], htid, hnumbered⟩
  · intro T hT hnumbered
    rw [Sched.Numbered, tid] at hnumbered
    rw [tid]
    by_cases hsame : T = t
    · rw [live, hsame] at hT
      simp at hT
    · rw [live, Function.update_of_ne hsame] at hT
      have hsingle := acc.single T hT hnumbered
      have := hwaiters (a.tid T)
      omega

/-- A thread is created, and nobody waits for it yet. -/
theorem created {ti : ThreadId} {i : Nat} (acc : Accounted a l) (part : a.Partition)
    (handles : Handles main a l.mutexes) (new : a.live ti = false)
    (free : (a.table i).used = false) (kept : l.Kept l')
    (wait : a'.wait = a.wait) (mu : a'.mu = Function.update a.mu ti 0)
    (table : a'.table = Function.update a.table i ⟨true, 1⟩)
    (live : a'.live = Function.update a.live ti true)
    (tid : a'.tid = Function.update a.tid ti i) : Accounted a' l' := by
  have hne : ∀ T, a.live T = true → T ≠ ti := fun T hT same => by simp [← same, hT] at new
  have hmu : ∀ w, w ∈ a.wait → a'.mu w = a.mu w := by
    intro w hw
    rw [mu, Function.update_of_ne (hne w (part.wait_live hw))]
  have hwaiters := Sched.waiters_congr wait hmu
  refine ⟨?_, ?_, ?_, ?_⟩
  · intro m hm
    rw [kept.mutexes] at hm
    have hi : m ≠ i := by
      intro same
      have hused := handles.mutex m hm
      simp [same, free] at hused
    rw [table, Function.update_of_ne hi, kept.outstanding, hwaiters]
    exact acc.counted m hm
  · intro m hm
    rw [kept.mutexes] at hm
    rw [kept.outstanding]
    exact acc.outside m hm
  · intro w hw
    rw [wait] at hw
    rw [Waits, kept.locking, kept.mutexes, hmu w hw, kept.outstanding]
    cases acc.waiting w hw with
    | inl lock => exact .inl lock
    | inr join =>
        obtain ⟨hno, T, hT, htid, hnumbered⟩ := join
        have hold : a'.tid T = a.tid T := by rw [tid, Function.update_of_ne (hne T hT)]
        refine .inr ⟨hno, T, ?_, hold.trans htid, ?_⟩
        · rw [live, Function.update_of_ne (hne T hT)]
          exact hT
        · rw [Sched.Numbered, hold]
          exact hnumbered
  · intro T hT hnumbered
    rw [hwaiters]
    by_cases hsame : T = ti
    · rw [tid, hsame, Function.update_self, acc.waiters_unused handles free]
      exact Nat.zero_le 1
    · rw [live, Function.update_of_ne hsame] at hT
      rw [Sched.Numbered, tid, Function.update_of_ne hsame] at hnumbered
      rw [tid, Function.update_of_ne hsame]
      exact acc.single T hT hnumbered

/-- A new mutex has no holds, and nobody waits for it. -/
theorem initialised {i : Nat} (acc : Accounted a l) (handles : Handles main a l.mutexes)
    (running : a.current = some t) (free : (a.table i).used = false) (wait : a'.wait = a.wait)
    (mu : a'.mu = a.mu) (table : a'.table = Function.update a.table i ⟨true, 0⟩)
    (live : a'.live = a.live) (tid : a'.tid = a.tid) :
    Accounted a' (l.record a .mutexInit ⟨0, some i⟩ a') := by
  have hacted : l.acted a .mutexInit ⟨0, some i⟩ a' =
      { l with mutexes := Function.update l.mutexes i true } := by
    simp [Ledger.acted, Ledger.called, running]
  have hout : ∀ m, (l.record a .mutexInit ⟨0, some i⟩ a').outstanding m = l.outstanding m :=
    fun m => Ledger.outstanding_kept (by rw [hacted]) (fun t ht => wait ▸ ht)
  have hwaiters := Sched.waiters_congr wait fun t _ => by rw [mu]
  have hnot : l.mutexes i = false := by
    by_contra hm
    have hused := handles.mutex i (by simpa using hm)
    simp [free] at hused
  refine ⟨?_, ?_, ?_, ?_⟩
  · intro m hm
    rw [hout, hwaiters, table]
    by_cases hsame : m = i
    · rw [hsame, Function.update_self, acc.outside i hnot, acc.waiters_unused handles free]
      rfl
    · rw [Ledger.record_mutexes, hacted] at hm
      rw [Function.update_of_ne hsame]
      exact acc.counted m (by simpa [hsame] using hm)
  · intro m hm
    rw [Ledger.record_mutexes, hacted] at hm
    have hsame : m ≠ i := fun same => by simp [same] at hm
    rw [hout]
    exact acc.outside m (by simpa [hsame] using hm)
  · intro w hw
    rw [wait] at hw
    rw [Waits, Ledger.record_locking, Ledger.record_mutexes, hacted, mu, hout, live, tid]
    simp only [Sched.Numbered, tid]
    cases acc.waiting w hw with
    | inr join => exact .inr join
    | inl lock =>
        have hsame : a.mu w ≠ i := fun same => by
          have hm := lock.2.1
          simp [same, hnot] at hm
        exact .inl ⟨lock.1, by simpa [hsame] using lock.2.1, lock.2.2⟩
  · intro T hT hnumbered
    rw [Sched.Numbered, tid] at hnumbered
    rw [live] at hT
    rw [tid, hwaiters]
    exact acc.single T hT hnumbered

/-- A mutex that nobody holds or waits for is destroyed. -/
theorem destroyed (acc : Accounted a l) (running : a.current = some t)
    (outstanding : l.outstanding h = 0) (waiters : a.waiters h = 0)
    (wait : a'.wait = a.wait) (mu : a'.mu = a.mu) (table : a'.table = a.table.freeMutex h)
    (live : a'.live = a.live) (tid : a'.tid = a.tid) :
    Accounted a' (l.record a (.destroy h) ⟨0, none⟩ a') := by
  have hacted : l.acted a (.destroy h) ⟨0, none⟩ a' =
      { l with mutexes := Function.update l.mutexes h false } := by
    simp [Ledger.acted, Ledger.called, running]
  have hout : ∀ m, (l.record a (.destroy h) ⟨0, none⟩ a').outstanding m = l.outstanding m :=
    fun m => Ledger.outstanding_kept (by rw [hacted]) (fun t ht => wait ▸ ht)
  have hwaiters := Sched.waiters_congr wait fun t _ => by rw [mu]
  refine ⟨?_, ?_, ?_, ?_⟩
  · intro m hm
    rw [Ledger.record_mutexes, hacted] at hm
    have hsame : m ≠ h := fun same => by simp [same] at hm
    rw [hout, hwaiters, table, MutexTable.freeMutex, Function.update_of_ne hsame]
    exact acc.counted m (by simpa [hsame] using hm)
  · intro m hm
    rw [Ledger.record_mutexes, hacted] at hm
    rw [hout]
    by_cases hsame : m = h
    · rw [hsame, outstanding]
    · exact acc.outside m (by simpa [hsame] using hm)
  · intro w hw
    rw [wait] at hw
    rw [Waits, Ledger.record_locking, Ledger.record_mutexes, hacted, mu, hout, live, tid]
    simp only [Sched.Numbered, tid]
    cases acc.waiting w hw with
    | inr join => exact .inr join
    | inl lock =>
        have hsame : a.mu w ≠ h := by
          intro same
          refine List.countP_eq_zero.mp waiters w hw ?_
          simp [Sched.waitsOn, same]
        exact .inl ⟨lock.1, by simpa [hsame] using lock.2.1, lock.2.2⟩
  · intro T hT hnumbered
    rw [Sched.Numbered, tid] at hnumbered
    rw [live] at hT
    rw [tid, hwaiters]
    exact acc.single T hT hnumbered

/-- Every call keeps the account. -/
theorem effect (acc : Accounted a l) (part : a.Partition) (handles : Handles main a l.mutexes)
    (permitted : Accountable a l e) (effect : Effect a e a' r) :
    Accounted a' (l.record a e r a') := by
  have hcurrent : e ≠ .tick → ∃ t, a.current = some t := permitted.toMutexCalls.made.current
  have hjoined : ∀ h ∈ e.joins, (a.table h).used = true →
      (∃ T ∈ a.threads, a.tid T = h) ∧ a.waiters h = 0 := by
    intro h hh used
    exact (permitted.join h hh).resolve_left (by simp [used])
  -- a join changes the entry of a thread, which is no mutex
  have hjoins : ∀ h ∈ e.joins, (a.table h).used = true → ∀ m, l.mutexes m = true → m ≠ h := by
    intro h hh used m hm same
    obtain ⟨⟨T, hT, htid⟩, -⟩ := hjoined h hh used
    exact handles.apart m T hm ((part.live T).mp hT) (htid.trans same.symm)
  cases effect with
  | refused handle =>
      exact acc.congr (Ledger.kept_of_acted (Ledger.acted_refused handle) fun t ht => ht) rfl
        (fun _ _ => rfl) (fun _ _ => rfl) rfl rfl
  | created ti i range free =>
      exact acc.created part handles (permitted.new ti rfl) free
        (Ledger.kept_of_acted Ledger.acted_created fun t ht => ht) rfl rfl rfl rfl rfl
  | switched he =>
      refine acc.congr (Ledger.kept_of_acted (Ledger.acted_switched he)
        fun t ht => a.schedule_wait ▸ ht) a.schedule_wait ?_ ?_ a.schedule_live a.schedule_tid
      · exact fun _ _ => by rw [a.schedule_mu]
      · exact fun _ _ => by rw [a.schedule_table]
  | exited t running range =>
      exact acc.exited part handles running (Sched.schedule_wait _) (Sched.schedule_mu _)
        (Sched.schedule_table _) (Sched.schedule_live _) (Sched.schedule_tid _)
  | @took _ h waits range used count =>
      obtain ⟨t, running⟩ := hcurrent (by intro he; simp [he, Event.waits] at waits)
      cases e <;> cases waits
      · refine acc.congr (Ledger.kept_of_acted (Ledger.acted_join running running)
          fun t ht => ht) rfl (fun _ _ => rfl) ?_ rfl rfl
        · exact fun m hm => MutexTable.setCount_of_ne _ _ (hjoins h rfl used m hm)
      · exact acc.locked running running (permitted.initialised h rfl) rfl (fun _ _ => rfl) rfl
          rfl rfl
  | @passed _ h waits range used count t running alone =>
      have hne : ∀ w, w ∈ a.wait → w ≠ t := fun w hw same =>
        part.running_not_waiting running (same ▸ hw)
      cases e <;> cases waits
      · refine acc.congr (Ledger.kept_of_acted (Ledger.acted_join running running)
          fun t ht => ht) rfl ?_ ?_ rfl rfl
        · exact fun w hw => Function.update_of_ne (hne w hw) _ _
        · exact fun m hm => MutexTable.setCount_of_ne _ _ (hjoins h rfl used m hm)
      · exact acc.locked running running (permitted.initialised h rfl) rfl
          (fun w hw => Function.update_of_ne (hne w hw) _ _) rfl rfl rfl
  | @parked _ h waits range used count t running next rest ready =>
      have hother := part.next_not_running running ready
      cases e <;> cases waits
      · obtain ⟨joined, first⟩ := hjoined h rfl used
        exact acc.parked_join part handles running used joined first hother rfl rfl rfl rfl rfl
      · exact acc.parked_lock part handles running (permitted.initialised h rfl) count hother
          rfl rfl rfl rfl rfl
  | initialised i range free =>
      obtain ⟨t, running⟩ := hcurrent (by simp)
      exact acc.initialised handles running free rfl rfl rfl rfl rfl
  | unlocked h range used count =>
      obtain ⟨t, running, hold⟩ := permitted.unlock h rfl
      exact acc.unlocked part handles running hold (permitted.initialised h rfl) count
        rfl rfl rfl rfl rfl
  | handedOver h range used count several =>
      obtain ⟨t, running, hold⟩ := permitted.unlock h rfl
      exact acc.handedOver part handles running hold (permitted.initialised h rfl)
        rfl rfl rfl rfl rfl
  | destroyed h range used =>
      obtain ⟨houtstanding, hwaiters⟩ := permitted.destroy h rfl
      obtain ⟨t, running⟩ := hcurrent (by simp)
      exact acc.destroyed running houtstanding hwaiters rfl rfl rfl rfl rfl

end Accounted

namespace Audit

variable {o o' : Audit}

theorem Init.accounted (init : o.Init main) : Accounted o.system.sched o.ledger := by
  have hwait : o.system.sched.wait = [] := init.system.holds.wait_eq
  refine ⟨?_, ?_, ?_, ?_⟩
  · intro m hm
    simp [init.ledger, Ledger.empty] at hm
  · intro m _
    rw [init.ledger]
    rfl
  · intro w hw
    simp [hwait] at hw
  · intro T _ _
    simp [Sched.waiters, hwait]

/-- The account of the mutexes, in the terms of the code. -/
structure Balanced (o : Audit) : Prop where
  count : ∀ m, o.ledger.mutexes m = true → (o.system.gMutexTable m).count =
    BitVec.ofNat 32 (o.ledger.outstanding m + o.system.sched.waiters m)
  waiting : ∀ w, w ∈ o.system.queues.wait →
    (o.system.gMutexTable (o.system.queues.mu w)).used = true ∧
      ((o.ledger.mutexes (o.system.queues.mu w) = true ∧
          1 ≤ o.ledger.outstanding (o.system.queues.mu w)) ∨
        ∃ T, o.system.live T = true ∧ o.system.tid T = o.system.queues.mu w)

/-- The count of a mutex is the number of its holds and waiting threads modulo
2^32, and nobody waits in vain. -/
theorem balanced_of_reachable
    (reach : Runs.Reachable (Audit.InitUnnumbered main)
      (fun o e => Accountable o.system.sched o.ledger e) Audit.Step o) : o.Balanced := by
  have inv : o.Sound main ∧ Accounted o.system.sched o.ledger := by
    refine reach.invariant (fun o => o.Sound main ∧ Accounted o.system.sched o.ledger) ?_ ?_
    · exact fun o init => ⟨init.sound, init.toInit.accounted⟩
    · intro o e o' permitted step before
      obtain ⟨r, call⟩ := step
      refine ⟨before.1.call permitted.toMutexCalls.destroysMutexes call, ?_⟩
      rw [call.ledger]
      exact before.2.effect before.1.wellFormed.partition before.1.handles permitted
        (before.1.effect permitted.toMutexCalls.made call)
  refine ⟨inv.2.counted, ?_⟩
  intro w hw
  cases inv.2.waiting w hw with
  | inl lock => exact ⟨inv.1.handles.mutex _ lock.2.1, .inl lock.2⟩
  | inr join =>
      obtain ⟨-, T, hT, htid, hnumbered⟩ := join
      refine ⟨?_, .inr ⟨T, hT, htid⟩⟩
      have hused := inv.1.handles.used T hT hnumbered
      rwa [htid] at hused

/-- A thread waits for a mutex, another for a thread. -/
theorem balanced_after_join :
    ∃ o, (start 0 0).execute Accountable
        [.mutexInit, .create 1, .create 2, .lock 1, .yield, .lock 1, .join 2] = some o ∧
      o.Balanced := by
  have hrun : ((start 0 0).execute Accountable
      [.mutexInit, .create 1, .create 2, .lock 1, .yield, .lock 1, .join 2]).isSome := by
    decide +kernel
  obtain ⟨o, ho⟩ := Option.isSome_iff_exists.mp hrun
  exact ⟨o, ho, balanced_of_reachable (reachable_of_execute (initUnnumbered_start 0) ho)⟩

/-- The count of a live mutex differs from its holds and waiting threads. -/
def Miscounted (o : Audit) : Prop :=
  ∃ m, o.ledger.mutexes m = true ∧
    (o.system.gMutexTable m).count.toNat ≠ o.ledger.outstanding m + o.system.sched.waiters m

/-- A thread that is alone locks one mutex 2^32 times, and the count is zero. -/
theorem miscounted_wrapped : ∃ o, Runs.Reachable (InitUnnumbered 0)
    (fun o e => Accountable o.system.sched o.ledger e) Step o ∧ o.Miscounted := by
  have hrun : ((start 0 0).execute Accountable [.mutexInit, .lock 1]).any (fun o =>
      decide (o.system.sched.current = some 0 ∧ o.system.sched.ready = [] ∧
        o.system.sched.table 1 = ⟨true, 1⟩ ∧ o.ledger.mutexes 1 = true ∧
        o.ledger.outstanding 1 = 1)) = true := by decide +kernel
  obtain ⟨o, ho, hfacts⟩ := (Option.any_eq_true _ _).mp hrun
  obtain ⟨current, ready, table, mutex, outstanding⟩ := of_decide_eq_true hfacts
  have reach := reachable_of_execute (initUnnumbered_start 0) ho
  have wf := wellFormed_of_reachable (fun _ init => init.toInit)
    (fun _ _ allowed => allowed.toMutexCalls.made) reach
  have hcount : (o.system.sched.table 1).count = 1 := by rw [table]
  have hcounts := count_ne_zero_of_one hcount
  have allowed : ∀ o' k, LetGo 0 1 (.lock 1) k o o' →
      Accountable o'.system.sched o'.ledger (.lock 1) := by
    intro o' k during
    refine ⟨⟨⟨fun ti hti => ?_, .inr (by rw [during.current]; rfl), fun h hh => ?_⟩,
      fun h hh => ?_, fun h hh => ?_⟩, fun h hh => ?_⟩
    · cases hti
    · cases hh
      rw [during.mutexes, mutex]
    all_goals cases hh
  obtain ⟨o', run, after⟩ := LetGo.steps (fun o e => Accountable o.system.sched o.ledger e)
    wf current ready (e := .lock 1) rfl (by decide) (by rw [table]) allowed hcounts
  refine ⟨o', reach.extend run, 1, by rw [after.mutexes, mutex], ?_⟩
  have hzero : (o'.system.gMutexTable 1).count = 0 := by
    refine after.count.trans ?_
    rw [hcount]
    decide
  rw [hzero, after.outstanding, outstanding, lockCalls]
  change 0 ≠ _
  omega

/-- The unset `tid` of the main thread is the number of a mutex, which its end frees. -/
theorem miscounted_numbered : ∃ o, Runs.Reachable (Init 0)
    (fun o e => Accountable o.system.sched o.ledger e) Step o ∧ o.Miscounted := by
  have hrun : ((start 0 1).execute Accountable
      [.mutexInit, .create 1, .yield, .lock 1, .yield, .exit]).any (fun o =>
        decide (o.ledger.mutexes 1 = true ∧ (o.system.gMutexTable 1).count.toNat ≠
          o.ledger.outstanding 1 + o.system.sched.waiters 1)) = true := by decide +kernel
  obtain ⟨o, ho, hfacts⟩ := (Option.any_eq_true _ _).mp hrun
  exact ⟨o, reachable_of_execute (init_start 0 1) ho, 1, of_decide_eq_true hfacts⟩

/-- Neither the modulus nor the condition on the main thread can be left out. -/
theorem mutex_miscounted :
    (∃ o, Runs.Reachable (InitUnnumbered 0)
      (fun o e => Accountable o.system.sched o.ledger e) Step o ∧ o.Miscounted) ∧
    ∃ o, Runs.Reachable (Init 0)
      (fun o e => Accountable o.system.sched o.ledger e) Step o ∧ o.Miscounted :=
  ⟨miscounted_wrapped, miscounted_numbered⟩

end Audit

end OsDesign.Pthread
