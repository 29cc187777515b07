import OsDesign.Pthread.Alone

/-!
At most one thread holds a mutex, as long as a thread that has to wait can wait.
A thread that finds no other thread ready is let go by the scheduler, and holds
the mutex next to its holder.
-/
namespace OsDesign.Pthread

open Virt

/-- The discipline of the runs: mutexes are unlocked by a holder, and destroyed
when nobody holds them or waits, a granted lock that has not returned included. -/
structure Disciplined (a : Sched) (l : Ledger) (e : Event) : Prop extends MutexCalls a l e where
  unlock : ∀ h ∈ e.unlocks, ∃ t ∈ a.current, l.Holding t h
  destroy : ∀ h ∈ e.destroys, l.outstanding h = 0 ∧ a.waiters h = 0

/-- Another thread is ready whenever one of these calls has to wait for a mutex. -/
def CanWait (waits : Event → Option Nat) (a : Sched) (l : Ledger) (e : Event) : Prop :=
  ∀ h ∈ waits e, l.mutexes h = true → (a.table h).count ≠ 0 → a.ready ≠ []

structure Contended (a : Sched) (l : Ledger) (e : Event) : Prop extends Disciplined a l e where
  ready : CanWait Event.waits a l e

instance (a : Sched) (l : Ledger) (e : Event) : Decidable (Disciplined a l e) :=
  decidable_of_iff (MutexCalls a l e ∧ (∀ h ∈ e.unlocks, ∃ t ∈ a.current, l.Holding t h) ∧
      ∀ h ∈ e.destroys, l.outstanding h = 0 ∧ a.waiters h = 0)
    ⟨fun h => ⟨h.1, h.2.1, h.2.2⟩, fun h => ⟨h.toMutexCalls, h.unlock, h.destroy⟩⟩

instance (waits : Event → Option Nat) (a : Sched) (l : Ledger) (e : Event) :
    Decidable (CanWait waits a l e) :=
  inferInstanceAs (Decidable (∀ h ∈ waits e, l.mutexes h = true → (a.table h).count ≠ 0 →
    a.ready ≠ []))

instance (a : Sched) (l : Ledger) (e : Event) : Decidable (Contended a l e) :=
  decidable_of_iff (Disciplined a l e ∧ CanWait Event.waits a l e)
    ⟨fun h => ⟨h.1, h.2⟩, fun h => ⟨h.toDisciplined, h.ready⟩⟩

/-- The state of one entry: at most one lock of it is granted, and then the count
says so; nobody adds to the count of a mutex without waiting for it. -/
structure ExclusiveAt (a : Sched) (l : Ledger) (m : Nat) : Prop where
  one : l.outstanding m ≤ 1
  counted : l.outstanding m = 1 → l.mutexes m = true ∧ 1 ≤ (a.table m).count.toNat
  bounded : l.mutexes m = true → (a.table m).count.toNat ≤ a.waiters m + 1

structure Exclusive (a : Sched) (l : Ledger) : Prop where
  each : ∀ m, ExclusiveAt a l m
  lockers : ∀ t, t ∈ a.wait → l.locking t = true → l.mutexes (a.mu t) = true

variable {main t : ThreadId} {a a' : Sched} {l l' : Ledger} {e : Event} {r : Return} {h m : Nat}

theorem ExclusiveAt.congr (excl : ExclusiveAt a l m)
    (outstanding : l'.outstanding m = l.outstanding m) (mutexes : l'.mutexes m = l.mutexes m)
    (table : l.mutexes m = true → a'.table m = a.table m)
    (waiters : l.mutexes m = true → a'.waiters m = a.waiters m) : ExclusiveAt a' l' m := by
  refine ⟨outstanding ▸ excl.one, ?_, ?_⟩
  · intro hone
    rw [outstanding] at hone
    have hm := (excl.counted hone).1
    rw [mutexes, table hm]
    exact excl.counted hone
  · intro hm
    rw [mutexes] at hm
    rw [table hm, waiters hm]
    exact excl.bounded hm

namespace Exclusive

theorem congr (excl : Exclusive a l) (kept : l.Kept l')
    (wait : ∀ t, t ∈ a'.wait → t ∈ a.wait ∧ a'.mu t = a.mu t)
    (table : ∀ m, l.mutexes m = true → a'.table m = a.table m)
    (waiters : ∀ m, l.mutexes m = true → a'.waiters m = a.waiters m) : Exclusive a' l' := by
  refine ⟨fun m => (excl.each m).congr (kept.outstanding m) (kept.mutexes ▸ rfl) (table m)
    (waiters m), ?_⟩
  intro t ht hlocking
  rw [(wait t ht).2, kept.mutexes]
  exact excl.lockers t (wait t ht).1 (kept.locking ▸ hlocking)

/-- With the count at zero nobody was granted the mutex. -/
theorem outstanding_of_count (excl : Exclusive a l) (count : (a.table m).count = 0) :
    l.outstanding m = 0 := by
  by_contra hne
  have hone : l.outstanding m = 1 := by
    have := (excl.each m).one
    omega
  have := ((excl.each m).counted hone).2
  simp [count] at this

/-- Only the entry `h` changes. -/
theorem at_entry (excl : Exclusive a l) (here : ExclusiveAt a' l' h)
    (outstanding : ∀ m, m ≠ h → l'.outstanding m = l.outstanding m)
    (mutexes : ∀ m, m ≠ h → l'.mutexes m = l.mutexes m)
    (table : ∀ m, m ≠ h → a'.table m = a.table m)
    (waiters : ∀ m, m ≠ h → a'.waiters m = a.waiters m)
    (lockers : ∀ t, t ∈ a'.wait → l'.locking t = true → l'.mutexes (a'.mu t) = true) :
    Exclusive a' l' := by
  refine ⟨?_, lockers⟩
  intro m
  by_cases hsame : m = h
  · exact hsame ▸ here
  · exact (excl.each m).congr (outstanding m hsame) (mutexes m hsame)
      (fun _ => table m hsame) (fun _ => waiters m hsame)

/-- A lock takes the mutex at once. -/
theorem took_lock (excl : Exclusive a l) (running : a.current = some t)
    (hm : l.mutexes h = true) (count : (a.table h).count = 0) (same : a'.current = some t)
    (wait : a'.wait = a.wait) (mu : a'.mu = a.mu)
    (table : a'.table = a.table.setCount h ((a.table h).count + 1)) :
    Exclusive a' (l.record a (.lock h) ⟨0, none⟩ a') := by
  have hzero := excl.outstanding_of_count count
  have hacted := Ledger.acted_lock (l := l) (h := h) running same
  have hout := fun m => Ledger.outstanding_locked (l := l) (h := h) (m := m) running same wait
  have hwaiters := Sched.waiters_congr wait fun t _ => by rw [mu]
  refine excl.at_entry (h := h) ⟨?_, ?_, ?_⟩ ?_ ?_ ?_ (fun m _ => hwaiters m) ?_
  · rw [hout, if_pos rfl, hzero]
  · intro _
    rw [Ledger.record_mutexes, hacted, table, count]
    exact ⟨hm, by simp⟩
  · intro _
    rw [table, count]
    simp
  · intro m hne
    rw [hout, if_neg hne, Nat.add_zero]
  · intro m _
    rw [Ledger.record_mutexes, hacted]
  · intro m hne
    rw [table, MutexTable.setCount_of_ne _ _ hne]
  · rw [Ledger.record_mutexes, Ledger.record_locking, hacted, wait, mu]
    exact excl.lockers

/-- A join of an entry with count zero adds to the count. -/
theorem took_join (excl : Exclusive a l) (running : a.current = some t)
    (count : (a.table h).count = 0) (same : a'.current = some t)
    (wait : a'.wait = a.wait) (mu : a'.mu = a.mu)
    (table : a'.table = a.table.setCount h ((a.table h).count + 1)) :
    Exclusive a' (l.record a (.join h) r a') := by
  have hzero := excl.outstanding_of_count count
  have hacted := Ledger.acted_join (l := l) (h := h) (r := r) running same
  have hout : ∀ m, (l.record a (.join h) r a').outstanding m = l.outstanding m := fun m =>
    Ledger.outstanding_kept (Ledger.acted_holds (by simp) (by simp)) (fun t ht => wait ▸ ht)
  have hwaiters := Sched.waiters_congr wait fun t _ => by rw [mu]
  refine excl.at_entry (h := h) ⟨?_, ?_, ?_⟩ (fun m _ => hout m) ?_ ?_ (fun m _ => hwaiters m) ?_
  · rw [hout, hzero]
    exact Nat.zero_le 1
  · intro hone
    rw [hout, hzero] at hone
    cases hone
  · intro _
    rw [table, count]
    simp
  · intro m _
    rw [Ledger.record_mutexes, hacted]
  · intro m hne
    rw [table, MutexTable.setCount_of_ne _ _ hne]
  · rw [Ledger.record_mutexes, Ledger.record_locking, hacted, wait, mu]
    exact excl.lockers

/-- With few waiting threads the count does not wrap. -/
theorem count_succ (excl : Exclusive a l) (hm : l.mutexes h = true)
    (few : a.waiters h ≤ maxMutexNum) :
    ((a.table h).count + 1).toNat = (a.table h).count.toNat + 1 := by
  have hbound := (excl.each h).bounded hm
  rw [BitVec.toNat_add]
  refine Nat.mod_eq_of_lt ?_
  simp only [maxMutexNum] at few
  change _ + 1 < _
  omega

/-- The caller joins the threads that wait on the entry. -/
theorem parked (excl : Exclusive a l) (part : a.Partition) (running : a.current = some t)
    (waits : e.waits = some h) (lock : e = .lock h → l.mutexes h = true)
    (few : a.waiters h ≤ maxMutexNum) (other : a'.current ≠ some t)
    (wait : a'.wait = a.wait ++ [t]) (mu : a'.mu = Function.update a.mu t h)
    (table : a'.table = a.table.setCount h ((a.table h).count + 1)) :
    Exclusive a' (l.record a e ⟨0, none⟩ a') := by
  have hwaiters := Sched.waiters_parked part running wait mu
  have hholds : (l.acted a e ⟨0, none⟩ a').holds = l.holds := by
    cases e <;> cases waits
    · rw [Ledger.acted_join_parked running other]
    · rw [Ledger.acted_lock_parked running other]
  have hmutexes : (l.acted a e ⟨0, none⟩ a').mutexes = l.mutexes := by
    cases e <;> cases waits
    · rw [Ledger.acted_join_parked running other]
    · rw [Ledger.acted_lock_parked running other]
  have hout := fun m => Ledger.outstanding_kept (l := l) (m := m) hholds
    (fun t ht => wait ▸ List.mem_append_left _ ht)
  refine excl.at_entry (h := h) ⟨?_, ?_, ?_⟩ (fun m _ => hout m) ?_ ?_ ?_ ?_
  · rw [hout]
    exact (excl.each h).one
  · intro hone
    rw [hout] at hone
    have hcounted := (excl.each h).counted hone
    rw [Ledger.record_mutexes, hmutexes, table, MutexTable.setCount_count_self,
      excl.count_succ hcounted.1 few]
    exact ⟨hcounted.1, Nat.le_add_left 1 _⟩
  · intro hm
    rw [Ledger.record_mutexes, hmutexes] at hm
    rw [table, MutexTable.setCount_count_self, excl.count_succ hm few, hwaiters, if_pos rfl]
    exact Nat.succ_le_succ ((excl.each h).bounded hm)
  · intro m _
    rw [Ledger.record_mutexes, hmutexes]
  · intro m hne
    rw [table, MutexTable.setCount_of_ne _ _ hne]
  · intro m hne
    rw [hwaiters, if_neg hne, Nat.add_zero]
  · intro t' ht' hlocking
    rw [Ledger.record_locking] at hlocking
    rw [Ledger.record_mutexes, hmutexes, mu]
    rw [wait] at ht'
    by_cases hsame : t' = t
    · subst hsame
      rw [Function.update_self]
      cases e <;> cases waits
      · rw [Ledger.acted_join_parked running other] at hlocking
        simp at hlocking
      · exact lock rfl
    · have hmem : t' ∈ a.wait := by simpa [hsame] using ht'
      rw [Function.update_of_ne hsame]
      refine excl.lockers t' hmem ?_
      cases e <;> cases waits
      · rw [Ledger.acted_join_parked running other] at hlocking
        simpa [hsame] using hlocking
      · rw [Ledger.acted_lock_parked running other] at hlocking
        simpa [hsame] using hlocking

/-- An unlock at count one, of the only hold. -/
theorem unlocked (excl : Exclusive a l) (running : a.current = some t) (hold : l.Holding t h)
    (count : (a.table h).count = 1) (wait : a'.wait = a.wait) (mu : a'.mu = a.mu)
    (table : a'.table = a.table.setCount h ((a.table h).count - 1)) :
    Exclusive a' (l.record a (.unlock h) ⟨0, none⟩ a') := by
  have hacted : l.acted a (.unlock h) ⟨0, none⟩ a' = l.unlocked t h :=
    Ledger.acted_unlock running
  have hout : ∀ m, _ := fun m => Ledger.outstanding_given_up (m := m) running hold wait
  have hwaiters := Sched.waiters_congr wait fun t _ => by rw [mu]
  have hone := (excl.each h).one
  refine excl.at_entry (h := h) ⟨?_, ?_, ?_⟩ ?_ ?_ ?_ (fun m _ => hwaiters m) ?_
  · have := hout h
    rw [if_pos rfl] at this
    omega
  · intro hone'
    have := hout h
    rw [if_pos rfl] at this
    omega
  · intro _
    rw [table, MutexTable.setCount_count_self, count]
    exact Nat.zero_le _
  · intro m hne
    have := hout m
    rwa [if_neg hne, Nat.add_zero] at this
  · intro m _
    rw [Ledger.record_mutexes, hacted]
    rfl
  · intro m hne
    rw [table, MutexTable.setCount_of_ne _ _ hne]
  · rw [Ledger.record_mutexes, Ledger.record_locking, hacted, wait, mu]
    exact excl.lockers

/-- An unlock at a higher count: somebody waits, and is moved. -/
theorem handedOver (excl : Exclusive a l) (part : a.Partition) (running : a.current = some t)
    (hold : l.Holding t h) (hm : l.mutexes h = true) (count : (a.table h).count ≠ 0)
    (several : (a.table h).count ≠ 1) (wait : a'.wait = a.wait.eraseP (a.waitsOn h))
    (mu : a'.mu = a.mu) (table : a'.table = a.table.setCount h ((a.table h).count - 1)) :
    Exclusive a' (l.record a (.unlock h) ⟨0, none⟩ a') := by
  have hacted : l.acted a (.unlock h) ⟨0, none⟩ a' = l.unlocked t h :=
    Ledger.acted_unlock running
  have hout : ∀ m, _ := fun m =>
    Ledger.outstanding_handedOver (m := m) running hold part.wait_nodup wait
  have hwaiters := Sched.waiters_released wait mu
  have hone := (excl.each h).one
  have hbound := (excl.each h).bounded hm
  have htwo : 2 ≤ (a.table h).count.toNat := by
    have h0 : (a.table h).count.toNat ≠ 0 := fun z => count (BitVec.eq_of_toNat_eq z)
    have h1 : (a.table h).count.toNat ≠ 1 := fun z => several (BitVec.eq_of_toNat_eq z)
    omega
  have hpred : ((a.table h).count - 1).toNat = (a.table h).count.toNat - 1 := by
    bv_omega
  have hpos : 0 < a.waiters h := by omega
  have hmoved := hwaiters h
  rw [if_pos ⟨rfl, hpos⟩] at hmoved
  have hfew : (a.wait.find? (a.waitsOn h)).toList.countP l.locking ≤ 1 := by
    refine List.countP_le_length.trans ?_
    cases a.wait.find? (a.waitsOn h) <;> simp
  have hhere := hout h
  rw [if_pos rfl, if_pos rfl] at hhere
  refine excl.at_entry (h := h) ⟨?_, ?_, ?_⟩ ?_ ?_ ?_ ?_ ?_
  · omega
  · intro _
    rw [Ledger.record_mutexes, hacted, table, MutexTable.setCount_count_self, hpred]
    exact ⟨hm, by omega⟩
  · intro _
    rw [table, MutexTable.setCount_count_self, hpred]
    omega
  · intro m hne
    have := hout m
    rwa [if_neg hne, if_neg hne] at this
  · intro m _
    rw [Ledger.record_mutexes, hacted]
    rfl
  · intro m hne
    rw [table, MutexTable.setCount_of_ne _ _ hne]
  · intro m hne
    have := hwaiters m
    rwa [if_neg (fun both => hne both.1), Nat.add_zero] at this
  · rw [Ledger.record_mutexes, Ledger.record_locking, hacted, wait, mu]
    exact fun t' ht' => excl.lockers t' (List.mem_of_mem_eraseP ht')

/-- A thread that ends wakes nobody who waits for a mutex. -/
theorem exited (excl : Exclusive a l) (part : a.Partition) (handles : Handles main a l.mutexes)
    (running : a.current = some t)
    (wait : a'.wait = a.wait.eraseP (a.waitsOn (a.tid t))) (mu : a'.mu = a.mu)
    (table : a'.table = a.table.freeMutex (a.tid t)) :
    Exclusive a' (l.record a .exit r a') := by
  have hapart : ∀ m, l.mutexes m = true → m ≠ a.tid t := fun m hm =>
    (handles.apart m t hm (part.running_live running)).symm
  have hjoiner : ∀ w ∈ a.wait.find? (a.waitsOn (a.tid t)), l.locking w = false := by
    intro w hfind
    have hmu : a.tid t = a.mu w := by simpa [Sched.waitsOn] using List.find?_some hfind
    have hnot : l.locking w ≠ true := fun hlocking =>
      hapart _ (excl.lockers w (List.mem_of_find?_eq_some hfind) hlocking) hmu.symm
    exact Bool.eq_false_of_not_eq_true hnot
  have hwaiters : ∀ m, l.mutexes m = true → a'.waiters m = a.waiters m := by
    intro m hm
    have hrelease := Sched.waiters_released wait mu m
    rwa [if_neg (fun both => hapart m hm both.1), Nat.add_zero] at hrelease
  refine excl.congr (Ledger.kept_of_exit part.wait_nodup wait hjoiner) ?_ ?_ hwaiters
  · rw [wait, mu]
    exact fun t' ht' => ⟨List.mem_of_mem_eraseP ht', rfl⟩
  · intro m hm
    rw [table, MutexTable.freeMutex, Function.update_of_ne (hapart m hm)]

/-- A new mutex is free. -/
theorem initialised (excl : Exclusive a l) (handles : Handles main a l.mutexes)
    (running : a.current = some t) {i : Nat} (free : (a.table i).used = false)
    (wait : a'.wait = a.wait) (mu : a'.mu = a.mu)
    (table : a'.table = Function.update a.table i ⟨true, 0⟩) :
    Exclusive a' (l.record a .mutexInit ⟨0, some i⟩ a') := by
  have hacted : l.acted a .mutexInit ⟨0, some i⟩ a' =
      { l with mutexes := Function.update l.mutexes i true } := by
    simp [Ledger.acted, Ledger.called, running]
  have hout : ∀ m, (l.record a .mutexInit ⟨0, some i⟩ a').outstanding m = l.outstanding m :=
    fun m => Ledger.outstanding_kept (Ledger.acted_holds (by simp) (by simp))
      (fun t ht => wait ▸ ht)
  have hfresh : l.outstanding i = 0 := by
    by_contra hne
    have hone : l.outstanding i = 1 := by
      have := (excl.each i).one
      omega
    have hused := handles.mutex i ((excl.each i).counted hone).1
    simp [free] at hused
  have hwaiters := Sched.waiters_congr wait fun t _ => by rw [mu]
  refine excl.at_entry (h := i) ⟨?_, ?_, ?_⟩ (fun m _ => hout m) ?_ ?_ (fun m _ => hwaiters m) ?_
  · rw [hout, hfresh]
    exact Nat.zero_le 1
  · intro hone
    rw [hout, hfresh] at hone
    cases hone
  · intro _
    rw [table, Function.update_self]
    exact Nat.zero_le _
  · intro m hne
    rw [Ledger.record_mutexes, hacted]
    exact Function.update_of_ne hne _ _
  · intro m hne
    rw [table, Function.update_of_ne hne]
  · rw [Ledger.record_mutexes, Ledger.record_locking, hacted, wait, mu]
    intro t' ht' hlocking
    have hm := excl.lockers t' ht' hlocking
    by_cases hsame : a.mu t' = i
    · simp [hsame]
    · simpa [hsame] using hm

/-- A mutex that nobody holds or waits for is destroyed. -/
theorem destroyed (excl : Exclusive a l) (running : a.current = some t)
    (outstanding : l.outstanding h = 0) (waiters : a.waiters h = 0)
    (wait : a'.wait = a.wait) (mu : a'.mu = a.mu) (table : a'.table = a.table.freeMutex h) :
    Exclusive a' (l.record a (.destroy h) ⟨0, none⟩ a') := by
  have hacted : l.acted a (.destroy h) ⟨0, none⟩ a' =
      { l with mutexes := Function.update l.mutexes h false } := by
    simp [Ledger.acted, Ledger.called, running]
  have hout : ∀ m, (l.record a (.destroy h) ⟨0, none⟩ a').outstanding m = l.outstanding m :=
    fun m => Ledger.outstanding_kept (Ledger.acted_holds (by simp) (by simp))
      (fun t ht => wait ▸ ht)
  have hwaiters := Sched.waiters_congr wait fun t _ => by rw [mu]
  refine excl.at_entry (h := h) ⟨?_, ?_, ?_⟩ (fun m _ => hout m) ?_ ?_ (fun m _ => hwaiters m) ?_
  · rw [hout, outstanding]
    exact Nat.zero_le 1
  · intro hone
    rw [hout, outstanding] at hone
    cases hone
  · intro hm
    rw [Ledger.record_mutexes, hacted] at hm
    simp at hm
  · intro m hne
    rw [Ledger.record_mutexes, hacted]
    exact Function.update_of_ne hne _ _
  · intro m hne
    rw [table, MutexTable.freeMutex, Function.update_of_ne hne]
  · rw [Ledger.record_mutexes, Ledger.record_locking, hacted, wait, mu]
    intro t' ht' hlocking
    have hm := excl.lockers t' ht' hlocking
    have hne : a.mu t' ≠ h := by
      intro hsame
      refine List.countP_eq_zero.mp waiters t' ht' ?_
      simp [Sched.waitsOn, hsame]
    simpa [hne] using hm

/-- Every call keeps the mutexes exclusive. -/
theorem effect (excl : Exclusive a l) (part : a.Partition) (handles : Handles main a l.mutexes)
    (permitted : Contended a l e) (effect : Effect a e a' r) :
    Exclusive a' (l.record a e r a') := by
  have few := handles.waiters_le part
  cases effect with
  | refused handle =>
      exact excl.congr (Ledger.kept_of_acted (Ledger.acted_refused handle) fun t ht => ht)
        (fun t ht => ⟨ht, rfl⟩) (fun _ _ => rfl) (fun _ _ => rfl)
  | created ti i range free =>
      have hne : ∀ t, t ∈ a.wait → t ≠ ti := by
        intro t ht same
        have hlive := part.wait_live ht
        simp [same, permitted.new ti rfl] at hlive
      refine excl.congr (Ledger.kept_of_acted Ledger.acted_created fun t ht => ht) ?_ ?_ ?_
      · exact fun t ht => ⟨ht, Function.update_of_ne (hne t ht) _ _⟩
      · intro m hm
        refine Function.update_of_ne ?_ _ _
        intro hsame
        have hused := handles.mutex m hm
        simp [hsame, free] at hused
      · intro m _
        refine Sched.waiters_congr ?_ ?_ m
        · rfl
        · exact fun t ht => Function.update_of_ne (hne t ht) _ _
  | switched he =>
      refine excl.congr (Ledger.kept_of_acted (Ledger.acted_switched he)
        fun t ht => a.schedule_wait ▸ ht) ?_ ?_ ?_
      · rw [a.schedule_wait, a.schedule_mu]
        exact fun t ht => ⟨ht, rfl⟩
      · exact fun m _ => by rw [a.schedule_table]
      · exact fun m _ => Sched.waiters_congr a.schedule_wait (fun t _ => by rw [a.schedule_mu]) m
  | exited t running range =>
      exact excl.exited part handles running (Sched.schedule_wait _) (Sched.schedule_mu _)
        (Sched.schedule_table _)
  | took waits range used count =>
      obtain ⟨t, running⟩ := permitted.toMutexCalls.made.current (by
        intro he
        simp [he, Event.waits] at waits)
      cases e <;> cases waits
      · exact excl.took_join running count running rfl rfl rfl
      · exact excl.took_lock running (permitted.initialised _ rfl) count running rfl rfl rfl
  | @passed _ h waits range used count t running alone =>
      -- the guard: no mutex is passed by, since another thread would be ready
      have hnot : ∀ m, l.mutexes m = true → m ≠ h := fun m hm hsame =>
        permitted.ready _ waits (hsame ▸ hm) count alone
      have hne : ∀ t', t' ∈ a.wait → t' ≠ t := fun t' ht' same =>
        part.running_not_waiting running (same ▸ ht')
      cases e <;> cases waits
      · refine excl.congr (Ledger.kept_of_acted (Ledger.acted_join running running)
          fun t ht => ht) ?_ ?_ ?_
        · exact fun t' ht' => ⟨ht', Function.update_of_ne (hne t' ht') _ _⟩
        · exact fun m hm => MutexTable.setCount_of_ne _ _ (hnot m hm)
        · intro m _
          refine Sched.waiters_congr ?_ ?_ m
          · rfl
          · exact fun t' ht' => Function.update_of_ne (hne t' ht') _ _
      · exact absurd rfl (hnot _ (permitted.initialised _ rfl))
  | parked waits range used count t running next rest ready =>
      have hother := part.next_not_running running ready
      refine excl.parked part running waits ?_ (few _) hother rfl rfl rfl
      intro he
      exact permitted.initialised _ (by rw [he]; rfl)
  | initialised i range free =>
      obtain ⟨t, running⟩ := permitted.toMutexCalls.made.current (by simp)
      exact excl.initialised handles running free rfl rfl rfl
  | unlocked h range used count =>
      obtain ⟨t, running, hold⟩ := permitted.unlock h rfl
      exact excl.unlocked running hold count rfl rfl rfl
  | handedOver h range used count several =>
      obtain ⟨t, running, hold⟩ := permitted.unlock h rfl
      exact excl.handedOver part running hold (permitted.initialised h rfl) count several
        rfl rfl rfl
  | destroyed h range used =>
      obtain ⟨houtstanding, hwaiters⟩ := permitted.destroy h rfl
      obtain ⟨t, running⟩ := permitted.toMutexCalls.made.current (by simp)
      exact excl.destroyed running houtstanding hwaiters rfl rfl rfl

/-- Two threads that hold one mutex are one thread. -/
theorem holding_unique (excl : Exclusive a l) {t' : ThreadId} (h : l.Holding t m)
    (h' : l.Holding t' m) : t = t' := by
  obtain ⟨k, hk, rfl, hm, -⟩ := h
  obtain ⟨k', hk', rfl, hm', -⟩ := h'
  have hone := (excl.each m).one
  rw [Ledger.outstanding, List.countP_eq_length_filter] at hone
  have hmem : k ∈ l.holds.filter fun k => k.mutex == m := List.mem_filter.mpr ⟨hk, by simpa⟩
  have hmem' : k' ∈ l.holds.filter fun k => k.mutex == m := List.mem_filter.mpr ⟨hk', by simpa⟩
  cases hlist : l.holds.filter fun k => k.mutex == m with
  | nil => simp [hlist] at hmem
  | cons x xs =>
      rw [hlist, List.length_cons] at hone
      have hnil : xs = [] := List.length_eq_zero_iff.mp (by omega)
      rw [hlist, hnil, List.mem_singleton] at hmem hmem'
      rw [hmem, hmem']

end Exclusive

namespace Audit

variable {o o' : Audit}

theorem Init.exclusive (init : o.Init main) : Exclusive o.system.sched o.ledger := by
  have hwait : o.system.sched.wait = [] := init.system.holds.wait_eq
  refine ⟨?_, ?_⟩
  · intro m
    have hzero : o.ledger.outstanding m = 0 := by
      rw [init.ledger]
      rfl
    refine ⟨by omega, by omega, ?_⟩
    intro hm
    simp [init.ledger, Ledger.empty] at hm
  · intro t ht
    simp [hwait] at ht

/-- At most one thread holds a mutex: in every reachable state of the runs in
which another thread is ready whenever a call on a mutex has to wait. -/
theorem holding_unique_of_reachable
    (reach : Runs.Reachable (Audit.InitUnnumbered main)
      (fun o e => Contended o.system.sched o.ledger e) Audit.Step o)
    (m : Nat) (t t' : ThreadId) (h : o.ledger.Holding t m) (h' : o.ledger.Holding t' m) :
    t = t' := by
  have inv : o.Sound main ∧ Exclusive o.system.sched o.ledger := by
    refine reach.invariant (fun o => o.Sound main ∧ Exclusive o.system.sched o.ledger) ?_ ?_
    · exact fun o init => ⟨init.sound, init.toInit.exclusive⟩
    · intro o e o' permitted step before
      obtain ⟨r, call⟩ := step
      refine ⟨before.1.call permitted.toMutexCalls.destroysMutexes call, ?_⟩
      rw [call.ledger]
      exact before.2.effect before.1.wellFormed.partition before.1.handles permitted
        (before.1.effect permitted.toMutexCalls.made call)
  exact inv.2.holding_unique h h'

/-- A lock that has to wait, the hand-over at unlock, and the return. -/
theorem holding_after_handover :
    ∃ o, (start 0 0).execute Contended
        [.mutexInit, .create 1, .lock 1, .yield, .lock 1, .unlock 1, .yield] = some o ∧
      o.ledger.Holding 1 1 ∧ ∀ t, o.ledger.Holding t 1 → t = 1 := by
  have hrun : ((start 0 0).execute Contended
      [.mutexInit, .create 1, .lock 1, .yield, .lock 1, .unlock 1, .yield]).any
      (fun o => decide (o.ledger.Holding 1 1)) = true := by decide +kernel
  obtain ⟨o, ho, hholding⟩ := (Option.any_eq_true _ _).mp hrun
  have hone := of_decide_eq_true hholding
  refine ⟨o, ho, hone, fun t ht => ?_⟩
  exact holding_unique_of_reachable (reachable_of_execute (initUnnumbered_start 0) ho) 1 t 1 ht hone

/-- Two threads hold one mutex. -/
def Shared (o : Audit) : Prop :=
  ∃ m t t', t ≠ t' ∧ o.ledger.Holding t m ∧ o.ledger.Holding t' m

/-- Thread 1 locks what the main thread holds, while the main thread joins it:
nobody else is ready, and the lock returns. -/
theorem shared_alone : ∃ o, Runs.Reachable (InitUnnumbered 0)
    (fun o e => Disciplined o.system.sched o.ledger e) Step o ∧ o.Shared := by
  have hrun : ((start 0 0).execute Disciplined
      [.mutexInit, .lock 1, .create 1, .join 2, .lock 1]).any
      (fun o => decide (o.ledger.Holding 0 1 ∧ o.ledger.Holding 1 1)) = true := by decide +kernel
  obtain ⟨o, ho, hholding⟩ := (Option.any_eq_true _ _).mp hrun
  have hboth := of_decide_eq_true hholding
  exact ⟨o, reachable_of_execute (initUnnumbered_start 0) ho, 1, 0, 1, by decide, hboth⟩

/-- The unset `tid` of the main thread is the number of a mutex: its end wakes
the thread that waits for the mutex. -/
theorem shared_numbered : ∃ o, Runs.Reachable (Init 0)
    (fun o e => Contended o.system.sched o.ledger e) Step o ∧ o.Shared := by
  have hrun : ((start 0 1).execute Contended
      [.mutexInit, .create 1, .create 2, .yield, .lock 1, .yield, .lock 1, .exit, .yield]).any
      (fun o => decide (o.ledger.Holding 1 1 ∧ o.ledger.Holding 2 1)) = true := by decide +kernel
  obtain ⟨o, ho, hholding⟩ := (Option.any_eq_true _ _).mp hrun
  have hboth := of_decide_eq_true hholding
  exact ⟨o, reachable_of_execute (init_start 0 1) ho, 1, 1, 2, by decide, hboth⟩

/-- Thread 1, alone, joins the mutex that the main thread holds until the count
wraps to zero, and locks it. -/
theorem shared_joined : ∃ o, Runs.Reachable (InitUnnumbered 0)
    (fun o e => Disciplined o.system.sched o.ledger e ∧
      CanWait Event.locks o.system.sched o.ledger e) Step o ∧ o.Shared := by
  have hrun : ((start 0 0).execute (fun a l e => Disciplined a l e ∧ CanWait Event.locks a l e)
      [.mutexInit, .lock 1, .create 1, .join 2]).any
      (fun o => decide (o.ledger.Holding 0 1 ∧ o.system.sched.current = some 1 ∧
        o.system.sched.ready = [] ∧ o.system.sched.table 1 = ⟨true, 1⟩ ∧
        o.ledger.mutexes 1 = true)) = true := by decide +kernel
  obtain ⟨o, ho, hfacts⟩ := (Option.any_eq_true _ _).mp hrun
  obtain ⟨hheld, hcurrent, hready, htable, hmutex⟩ := of_decide_eq_true hfacts
  have reach := reachable_of_execute (initUnnumbered_start 0) ho
  have wf := wellFormed_of_reachable (fun _ init => init.toInit)
    (fun _ _ allowed => allowed.1.toMutexCalls.made) reach
  have hcount : (o.system.sched.table 1).count = 1 := by rw [htable]
  have allowed : ∀ o' k, LetGo 1 1 (.join 1) k o o' →
      Disciplined o'.system.sched o'.ledger (.join 1) ∧
        CanWait Event.locks o'.system.sched o'.ledger (.join 1) := by
    intro o' k during
    refine ⟨⟨⟨fun ti hti => ?_, .inr (by rw [during.current]; rfl), fun h hh => ?_⟩,
      fun h hh => ?_, fun h hh => ?_⟩, fun h hh => ?_⟩
    · cases hti
    all_goals cases hh
  have hcounts := count_ne_zero_of_one hcount
  obtain ⟨o', run, after⟩ := LetGo.steps (fun o e => Disciplined o.system.sched o.ledger e ∧
      CanWait Event.locks o.system.sched o.ledger e)
    wf hcurrent hready (e := .join 1) rfl (by decide) (by rw [htable]) allowed hcounts
  have hzero : (o'.system.sched.table 1).count = 0 := by
    rw [after.count, hcount]
    decide
  have hused : (o'.system.sched.table 1).used = true := by rw [after.used, htable]
  obtain ⟨o'', step, hone, hkept⟩ := lock_taken after.wellFormed after.current (by decide)
    hused hzero
  refine ⟨o'', (reach.extend run).extend (.single ⟨⟨⟨fun ti hti => (by cases hti), ?_, ?_⟩,
    fun h hh => (by cases hh), fun h hh => (by cases hh)⟩, ?_⟩ step), 1, 0, 1, by decide,
    hkept 0 1 (after.holding 0 1 hheld), hone⟩
  · exact .inr (by rw [after.current]; rfl)
  · intro h hh
    cases hh
    rw [after.mutexes, hmutex]
  · intro h hh _ hne
    cases hh
    exact absurd hzero hne

/-- Each of the three conditions is needed. -/
theorem mutex_shared :
    (∃ o, Runs.Reachable (InitUnnumbered 0)
      (fun o e => Disciplined o.system.sched o.ledger e) Step o ∧ o.Shared) ∧
    (∃ o, Runs.Reachable (Init 0)
      (fun o e => Contended o.system.sched o.ledger e) Step o ∧ o.Shared) ∧
    ∃ o, Runs.Reachable (InitUnnumbered 0)
      (fun o e => Disciplined o.system.sched o.ledger e ∧
        CanWait Event.locks o.system.sched o.ledger e) Step o ∧ o.Shared :=
  ⟨shared_alone, shared_numbered, shared_joined⟩

end Audit

end OsDesign.Pthread
