import OsDesign.Pthread.Ledger

/-!
Threads and mutexes share one table. While lock, unlock and destroy are called
on initialised mutexes only, no entry serves a live thread and a mutex, or two
live threads. So there are at most 32 live threads, whatever a run creates.
-/
namespace OsDesign.Pthread

open Virt

/-- The threads on the lists are distinct, and they are the live threads. -/
structure Sched.Partition (a : Sched) : Prop where
  nodup : a.threads.Nodup
  live : ∀ t, t ∈ a.threads ↔ a.live t = true

/-- The `tid` of the thread is an entry that `alloc_mutex` gives out. -/
def Sched.Numbered (a : Sched) (t : ThreadId) : Prop := 1 ≤ a.tid t ∧ a.tid t < maxMutexNum

/-- Every call is made by `CURRENT`, and `malloc` returns a block of no live thread. -/
structure Made (a : Sched) (e : Event) : Prop where
  new : ∀ ti ∈ e.creates, a.live ti = false
  running : e = .tick ∨ a.current.isSome = true

/-- Only initialised mutexes are destroyed. -/
structure DestroysMutexes (a : Sched) (l : Ledger) (e : Event) : Prop extends Made a e where
  destroyed : ∀ h ∈ e.destroys, l.mutexes h = true

instance (a : Sched) (e : Event) : Decidable (Made a e) :=
  decidable_of_iff ((∀ ti ∈ e.creates, a.live ti = false) ∧
      (e = .tick ∨ a.current.isSome = true))
    ⟨fun h => ⟨h.1, h.2⟩, fun h => ⟨h.new, h.running⟩⟩

instance (a : Sched) (l : Ledger) (e : Event) : Decidable (DestroysMutexes a l e) :=
  decidable_of_iff (Made a e ∧ ∀ h ∈ e.destroys, l.mutexes h = true)
    ⟨fun h => ⟨h.1, h.2⟩, fun h => ⟨h.toMade, h.destroyed⟩⟩

/-- Mutex calls are made on initialised mutexes, and every call by `CURRENT`. -/
structure MutexCalls (a : Sched) (l : Ledger) (e : Event) : Prop where
  new : ∀ ti ∈ e.creates, a.live ti = false
  running : e = .tick ∨ a.current.isSome = true
  initialised : ∀ h ∈ e.mutex, l.mutexes h = true

instance (a : Sched) (l : Ledger) (e : Event) : Decidable (MutexCalls a l e) :=
  decidable_of_iff ((∀ ti ∈ e.creates, a.live ti = false) ∧
      (e = .tick ∨ a.current.isSome = true) ∧ ∀ h ∈ e.mutex, l.mutexes h = true)
    ⟨fun h => ⟨h.1, h.2.1, h.2.2⟩, fun h => ⟨h.new, h.running, h.initialised⟩⟩

/-- No entry of the table has two uses. -/
structure Handles (main : ThreadId) (a : Sched) (mutexes : Nat → Bool) : Prop where
  range : ∀ h, (a.table h).used = true → 1 ≤ h ∧ h < maxMutexNum
  numbered : ∀ t, a.live t = true → t = main ∨ a.Numbered t
  used : ∀ t, a.live t = true → a.Numbered t → (a.table (a.tid t)).used = true
  distinct : ∀ t t', a.live t = true → a.live t' = true → a.Numbered t →
    a.tid t' = a.tid t → t' = t
  mutex : ∀ h, mutexes h = true → (a.table h).used = true
  apart : ∀ h t, mutexes h = true → a.live t = true → a.tid t ≠ h

variable {main t : ThreadId} {a a' : Sched} {l : Ledger} {e : Event} {r : Return} {h m : Nat}
  {mutexes : Nat → Bool}

theorem Made.current (made : Made a e) (h : e ≠ .tick) : ∃ t, a.current = some t :=
  Option.isSome_iff_exists.mp (made.running.resolve_left h)

theorem MutexCalls.made (permitted : MutexCalls a l e) : Made a e :=
  ⟨permitted.new, permitted.running⟩

theorem MutexCalls.destroysMutexes (permitted : MutexCalls a l e) : DestroysMutexes a l e := by
  refine ⟨permitted.made, ?_⟩
  intro h hh
  refine permitted.initialised h ?_
  cases e with
  | destroy => exact hh
  | create | yield | tick | exit | join | mutexInit | lock | unlock => cases hh

namespace MutexTable

@[simp] theorem setCount_used (table : MutexTable) (h k : Nat) (count : BitVec 32) :
    (table.setCount h count k).used = (table k).used := by
  by_cases hk : k = h
  · subst hk
    simp [setCount]
  · simp [setCount, hk]

@[simp] theorem setCount_count_self (table : MutexTable) (h : Nat) (count : BitVec 32) :
    (table.setCount h count h).count = count := by
  simp [setCount]

theorem setCount_of_ne (table : MutexTable) {h k : Nat} (count : BitVec 32) (hk : k ≠ h) :
    table.setCount h count k = table k := by
  simp [setCount, hk]

end MutexTable

namespace Sched.Partition

theorem wait_nodup (part : a.Partition) : a.wait.Nodup :=
  (List.nodup_append.mp (List.nodup_append.mp part.nodup).2.1).2.1

theorem running_live (part : a.Partition) (running : a.current = some t) : a.live t = true :=
  (part.live t).mp (by simp [threads, running])

theorem wait_live (part : a.Partition) (waiting : t ∈ a.wait) : a.live t = true :=
  (part.live t).mp (by simp [threads, waiting])

theorem running_not_queued (part : a.Partition) (running : a.current = some t) :
    t ∉ a.ready ++ a.wait := by
  have hnodup := part.nodup
  rw [threads, running, Option.toList_some, List.singleton_append, List.nodup_cons] at hnodup
  exact hnodup.1

theorem running_not_waiting (part : a.Partition) (running : a.current = some t) :
    t ∉ a.wait := by
  intro hmem
  exact part.running_not_queued running (List.mem_append_right _ hmem)

theorem ready_not_running (part : a.Partition) (ready : t ∈ a.ready) : a.current ≠ some t := by
  intro running
  exact part.running_not_queued running (List.mem_append_left _ ready)

/-- The thread that gets the processor next is another one. -/
theorem next_not_running {next : ThreadId} {rest : List ThreadId} (part : a.Partition)
    (running : a.current = some t) (ready : a.ready = next :: rest) : some next ≠ some t := by
  intro same
  refine part.ready_not_running (t := next) ?_ (running.trans same.symm)
  rw [ready]
  exact List.mem_cons_self

end Sched.Partition

theorem System.WellFormed.partition {s : System} (wf : s.WellFormed) : s.sched.Partition :=
  ⟨wf.holds.nodup, wf.live⟩

/-- Who waits on what depends on the wait queue and the `mu` of its threads. -/
theorem Sched.waiters_congr (wait : a'.wait = a.wait)
    (mu : ∀ t, t ∈ a.wait → a'.mu t = a.mu t) (m : Nat) : a'.waiters m = a.waiters m := by
  rw [waiters, waiters, wait]
  refine List.countP_congr ?_
  intro t ht
  rw [waitsOn, waitsOn, mu t ht]

theorem Sched.waiters_parked (part : a.Partition) (running : a.current = some t)
    (wait : a'.wait = a.wait ++ [t]) (mu : a'.mu = Function.update a.mu t h) (m : Nat) :
    a'.waiters m = a.waiters m + if m = h then 1 else 0 := by
  have hnot := part.running_not_waiting running
  have hsame : a.wait.countP (a'.waitsOn m) = a.waiters m := by
    refine List.countP_congr ?_
    intro t' ht'
    have hne : t' ≠ t := fun same => hnot (same ▸ ht')
    rw [waitsOn, waitsOn, mu, Function.update_of_ne hne]
  rw [waiters, wait, List.countP_append, hsame, List.countP_singleton, waitsOn, mu,
    Function.update_self]
  simp

/-- Only `mutex_init` and a successful destroy change which mutexes there are. -/
theorem Ledger.acted_mutexes (init : e ≠ .mutexInit)
    (destroy : ∀ h, e = .destroy h → r.value ≠ 0) :
    (l.acted a e r a').mutexes = l.mutexes := by
  rw [acted]
  cases a.current with
  | none => rfl
  | some t =>
      cases e with
      | mutexInit => exact absurd rfl init
      | destroy h => simp [called, destroy h rfl]
      | lock h =>
          simp only [called]
          split
          · rfl
          · split <;> rfl
      | join h =>
          simp only [called]
          split <;> rfl
      | unlock h =>
          simp only [called]
          split <;> rfl
      | create | yield | tick | exit => rfl

namespace Handles

/-- The count fields, the queues and `CURRENT` do not matter. -/
theorem congr (handles : Handles main a mutexes) (live : a'.live = a.live)
    (tid : a'.tid = a.tid) (used : ∀ h, (a'.table h).used = (a.table h).used) :
    Handles main a' mutexes := by
  refine ⟨?_, ?_, ?_, ?_, ?_, ?_⟩ <;> simp only [live, tid, used, Sched.Numbered]
  · exact handles.range
  · exact handles.numbered
  · exact handles.used
  · exact handles.distinct
  · exact handles.mutex
  · exact handles.apart

/-- A thread is created and gets a free entry. -/
theorem created {ti : ThreadId} (handles : Handles main a mutexes) {i : Nat}
    (range : 1 ≤ i ∧ i < maxMutexNum) (free : (a.table i).used = false)
    (live : a'.live = Function.update a.live ti true) (tid : a'.tid = Function.update a.tid ti i)
    (table : a'.table = Function.update a.table i ⟨true, 1⟩) : Handles main a' mutexes := by
  have hnot : ∀ h, (a.table h).used = true → h ≠ i := by
    intro h hused same
    simp [same ▸ free] at hused
  have hfresh : ∀ t, a.live t = true → a.tid t ≠ i := by
    intro t ht same
    exact hnot _ (handles.used t ht (by rw [Sched.Numbered, same]; exact range)) same
  have hself : a'.tid ti = i := by simp [tid]
  have hother : ∀ t, t ≠ ti → a'.tid t = a.tid t := fun t ht => by simp [tid, ht]
  have hlive : ∀ t, t ≠ ti → a'.live t = true → a.live t = true := by
    intro t ht h
    rwa [live, Function.update_of_ne ht] at h
  have hkept : ∀ h, h ≠ i → a'.table h = a.table h := fun h hh => by simp [table, hh]
  refine ⟨?_, ?_, ?_, ?_, ?_, ?_⟩
  · intro h hused
    by_cases hh : h = i
    · rw [hh]
      exact range
    · exact handles.range h (by rwa [hkept h hh] at hused)
  · intro t ht
    by_cases hsame : t = ti
    · right
      rw [Sched.Numbered, hsame, hself]
      exact range
    · rw [Sched.Numbered, hother t hsame]
      exact handles.numbered t (hlive t hsame ht)
  · intro t ht hnumbered
    by_cases hsame : t = ti
    · rw [hsame, hself]
      simp [table]
    · rw [Sched.Numbered, hother t hsame] at hnumbered
      rw [hother t hsame, hkept _ (hfresh t (hlive t hsame ht))]
      exact handles.used t (hlive t hsame ht) hnumbered
  · intro t t' ht ht' hnumbered htid
    by_cases hsame : t = ti
    · by_cases hsame' : t' = ti
      · rw [hsame, hsame']
      · rw [hsame, hself, hother t' hsame'] at htid
        exact absurd htid (hfresh t' (hlive t' hsame' ht'))
    · by_cases hsame' : t' = ti
      · rw [hsame', hself, hother t hsame] at htid
        exact absurd htid.symm (hfresh t (hlive t hsame ht))
      · rw [Sched.Numbered, hother t hsame] at hnumbered
        rw [hother t hsame, hother t' hsame'] at htid
        exact handles.distinct t t' (hlive t hsame ht) (hlive t' hsame' ht') hnumbered htid
  · intro h hm
    have hused := handles.mutex h hm
    rwa [hkept h (hnot h hused)]
  · intro h t hm ht
    by_cases hsame : t = ti
    · rw [hsame, hself]
      exact (hnot h (handles.mutex h hm)).symm
    · rw [hother t hsame]
      exact handles.apart h t hm (hlive t hsame ht)

/-- A thread ends and its entry is freed. -/
theorem exited {t : ThreadId} (handles : Handles main a mutexes) (ht : a.live t = true)
    (live : a'.live = Function.update a.live t false) (tid : a'.tid = a.tid)
    (table : a'.table = a.table.freeMutex (a.tid t)) : Handles main a' mutexes := by
  have hlive : ∀ t', a'.live t' = true → t' ≠ t ∧ a.live t' = true := by
    intro t' h
    by_cases hsame : t' = t
    · simp [live, hsame] at h
    · exact ⟨hsame, by simpa [live, hsame] using h⟩
  have hkept : ∀ h, h ≠ a.tid t → a'.table h = a.table h := by
    intro h hh
    rw [table, MutexTable.freeMutex, Function.update_of_ne hh]
  have hused : ∀ h, (a'.table h).used = true → (a.table h).used = true := by
    intro h hh
    by_cases hsame : h = a.tid t
    · simp [table, MutexTable.freeMutex, hsame] at hh
    · rwa [hkept h hsame] at hh
  refine ⟨fun h hh => handles.range h (hused h hh), ?_, ?_, ?_, ?_, ?_⟩
  · intro t' h
    rw [Sched.Numbered, tid]
    exact handles.numbered t' (hlive t' h).2
  · intro t' h hnumbered
    rw [Sched.Numbered, tid] at hnumbered
    have hne : a.tid t' ≠ a.tid t := by
      intro same
      exact (hlive t' h).1 (handles.distinct t' t (hlive t' h).2 ht hnumbered same.symm).symm
    rw [tid, hkept _ hne]
    exact handles.used t' (hlive t' h).2 hnumbered
  · intro t₁ t₂ h₁ h₂ hnumbered htid
    rw [Sched.Numbered, tid] at hnumbered
    rw [tid] at htid
    exact handles.distinct t₁ t₂ (hlive t₁ h₁).2 (hlive t₂ h₂).2 hnumbered htid
  · intro h hm
    rw [hkept h (handles.apart h t hm ht).symm]
    exact handles.mutex h hm
  · intro h t' hm h'
    rw [tid]
    exact handles.apart h t' hm (hlive t' h').2

/-- A free entry becomes a mutex. -/
theorem initialised {i : Nat} (handles : Handles main a mutexes)
    (range : 1 ≤ i ∧ i < maxMutexNum) (free : (a.table i).used = false)
    (live : a'.live = a.live) (tid : a'.tid = a.tid)
    (table : a'.table = Function.update a.table i ⟨true, 0⟩) :
    Handles main a' (Function.update mutexes i true) := by
  have hused : ∀ h, (a'.table h).used = true ↔ h = i ∨ (a.table h).used = true := by
    intro h
    by_cases hh : h = i
    · simp [table, hh]
    · simp [table, hh]
  have hfresh : ∀ t, a.live t = true → a.tid t ≠ i := by
    intro t ht same
    have := handles.used t ht (by rw [Sched.Numbered, same]; exact range)
    simp [same, free] at this
  refine ⟨?_, ?_, ?_, ?_, ?_, ?_⟩ <;> simp only [live, tid, Sched.Numbered, hused]
  · intro h hh
    cases hh with
    | inl same => exact same ▸ range
    | inr h' => exact handles.range h h'
  · exact handles.numbered
  · exact fun t ht hnumbered => .inr (handles.used t ht hnumbered)
  · exact handles.distinct
  · intro h hm
    by_cases hh : h = i
    · exact .inl hh
    · exact .inr (handles.mutex h (by simpa [hh] using hm))
  · intro h t hm ht
    by_cases hh : h = i
    · rw [hh]
      exact hfresh t ht
    · exact handles.apart h t (by simpa [hh] using hm) ht

/-- A mutex is destroyed and its entry is freed. -/
theorem destroyed {m : Nat} (handles : Handles main a mutexes) (hm : mutexes m = true)
    (live : a'.live = a.live) (tid : a'.tid = a.tid)
    (table : a'.table = a.table.freeMutex m) :
    Handles main a' (Function.update mutexes m false) := by
  have hused : ∀ h, (a'.table h).used = true ↔ h ≠ m ∧ (a.table h).used = true := by
    intro h
    by_cases hh : h = m
    · simp [table, MutexTable.freeMutex, hh]
    · simp [table, MutexTable.freeMutex, hh]
  have hkept : ∀ h, Function.update mutexes m false h = true → h ≠ m ∧ mutexes h = true := by
    intro h hset
    by_cases hh : h = m
    · simp [hh] at hset
    · exact ⟨hh, by simpa [hh] using hset⟩
  refine ⟨?_, ?_, ?_, ?_, ?_, ?_⟩ <;> simp only [live, tid, Sched.Numbered, hused]
  · exact fun h hh => handles.range h hh.2
  · exact handles.numbered
  · exact fun t ht hnumbered =>
      ⟨handles.apart m t hm ht, handles.used t ht hnumbered⟩
  · exact handles.distinct
  · exact fun h hset => ⟨(hkept h hset).1, handles.mutex h (hkept h hset).2⟩
  · exact fun h t hset ht => handles.apart h t (hkept h hset).2 ht

/-- Every call keeps the uses of the table apart. -/
theorem effect (handles : Handles main a l.mutexes) (part : a.Partition)
    (permitted : DestroysMutexes a l e) (effect : Effect a e a' r) :
    Handles main a' (l.record a e r a').mutexes := by
  rw [Ledger.record_mutexes]
  have hwaits : ∀ {h}, e.waits = some h → (l.acted a e r a').mutexes = l.mutexes := by
    intro h hwaits
    refine Ledger.acted_mutexes ?_ ?_
    · intro he
      simp [he, Event.waits] at hwaits
    · intro h he
      simp [he, Event.waits] at hwaits
  cases effect with
  | refused handle =>
      rw [Ledger.acted_refused handle]
      exact handles
  | created ti i range free =>
      rw [Ledger.acted_created]
      exact handles.created range free rfl rfl rfl
  | switched he =>
      rw [Ledger.acted_switched he]
      exact handles.congr a.schedule_live a.schedule_tid fun h => by rw [a.schedule_table]
  | exited t running range =>
      rw [Ledger.acted_mutexes (by simp) (by simp)]
      exact handles.exited (part.running_live running) (Sched.schedule_live _)
        (Sched.schedule_tid _) (Sched.schedule_table _)
  | took waits =>
      rw [hwaits waits]
      exact handles.congr rfl rfl fun h => by simp
  | passed waits =>
      rw [hwaits waits]
      exact handles.congr rfl rfl fun h => by simp [Sched.counted]
  | parked waits =>
      rw [hwaits waits]
      exact handles.congr rfl rfl fun h => by simp [Sched.counted]
  | initialised i range free =>
      obtain ⟨t, running⟩ := permitted.current (by simp)
      simp only [Ledger.acted, running, Ledger.called]
      exact handles.initialised range free rfl rfl rfl
  | unlocked h =>
      rw [Ledger.acted_mutexes (by simp) (by simp)]
      exact handles.congr rfl rfl fun k => by simp
  | handedOver h =>
      rw [Ledger.acted_mutexes (by simp) (by simp)]
      exact handles.congr rfl rfl fun k => by simp
  | destroyed h =>
      obtain ⟨t, running⟩ := permitted.current (by simp)
      have hm := permitted.destroyed h rfl
      simp only [Ledger.acted, running, Ledger.called, ne_eq, not_true_eq_false, if_false]
      exact handles.destroyed hm rfl rfl rfl

/-- The table numbers all live threads but the main thread. -/
theorem threads_le (handles : Handles main a mutexes) (part : a.Partition) :
    a.threads.length ≤ maxMutexNum := by
  let slot : ThreadId → Nat := fun t =>
    if 1 ≤ a.tid t ∧ a.tid t < maxMutexNum then a.tid t else 0
  have hslot : ∀ t, a.Numbered t → slot t = a.tid t := fun t h => if_pos h
  have hzero : ∀ t, ¬ a.Numbered t → slot t = 0 := fun t h => if_neg h
  have hinj : ∀ t ∈ a.threads, ∀ t' ∈ a.threads, slot t = slot t' → t = t' := by
    intro t ht t' ht' same
    have hlive := (part.live t).mp ht
    have hlive' := (part.live t').mp ht'
    by_cases h : a.Numbered t
    · have hpos := h.1
      by_cases h' : a.Numbered t'
      · rw [hslot t h, hslot t' h'] at same
        exact (handles.distinct t t' hlive hlive' h same.symm).symm
      · rw [hslot t h, hzero t' h'] at same
        omega
    · by_cases h' : a.Numbered t'
      · have hpos := h'.1
        rw [hzero t h, hslot t' h'] at same
        omega
      · rw [(handles.numbered t hlive).resolve_right h,
          (handles.numbered t' hlive').resolve_right h']
  have hsubset : a.threads.map slot ⊆ List.range maxMutexNum := by
    intro k hk
    obtain ⟨t, -, rfl⟩ := List.mem_map.mp hk
    rw [List.mem_range]
    by_cases h : a.Numbered t
    · rw [hslot t h]
      exact h.2
    · rw [hzero t h]
      decide
  have hle := ((part.nodup.map_on hinj).subperm hsubset).length_le
  rwa [List.length_map, List.length_range] at hle

theorem waiters_le (handles : Handles main a mutexes) (part : a.Partition) (h : Nat) :
    a.waiters h ≤ maxMutexNum := by
  refine (List.countP_le_length).trans (le_trans ?_ (handles.threads_le part))
  simp only [Sched.threads, List.length_append]
  omega

end Handles

/-- A run of the library next to its record. -/
structure Audit where
  system : System
  ledger : Ledger

namespace Audit

structure Init (main : ThreadId) (o : Audit) : Prop where
  system : o.system.Init main
  ledger : o.ledger = Ledger.empty

/-- A start at which the `tid` of the main thread, which `my_pthread_init` does
not set, is none of the numbers that `alloc_mutex` gives out. -/
structure InitUnnumbered (main : ThreadId) (o : Audit) : Prop extends o.Init main where
  unnumbered : ¬ o.system.sched.Numbered main

/-- A call comes back with the value `r`, and is recorded. -/
structure Call (o : Audit) (e : Event) (r : Return) (o' : Audit) : Prop where
  system : o.system.call e = .ok (o'.system, r)
  ledger : o'.ledger = o.ledger.record o.system.sched e r o'.system.sched

def Step (o : Audit) (e : Event) (o' : Audit) : Prop :=
  ∃ r, o.Call e r o'

/-- What every run keeps that calls mutex functions on mutexes only. -/
structure Sound (main : ThreadId) (o : Audit) : Prop where
  wellFormed : o.system.WellFormed
  handles : Handles main o.system.sched o.ledger.mutexes

variable {o o' : Audit}

theorem InitUnnumbered.sound (init : o.InitUnnumbered main) : o.Sound main := by
  have hempty : o.system.sched.table = fun _ => ⟨false, 0⟩ := init.system.gMutexTable
  have hlive : ∀ t, o.system.sched.live t = true → t = main := by
    intro t ht
    have hmain : o.system.sched.live = fun t => t == main := init.system.live
    simpa [hmain] using ht
  refine ⟨init.system.wellFormed, ?_, fun t ht => .inl (hlive t ht), ?_, ?_, ?_, ?_⟩
  · intro h used
    simp [hempty] at used
  · exact fun t ht numbered => absurd (hlive t ht ▸ numbered) init.unnumbered
  · exact fun t t' ht ht' _ _ => (hlive t' ht').trans (hlive t ht).symm
  · intro h hm
    simp [init.ledger, Ledger.empty] at hm
  · intro h t hm
    simp [init.ledger, Ledger.empty] at hm

theorem enabled_of_made (made : Made o.system.sched e) : o.system.Enabled e := by
  cases e with
  | create ti => exact made.new ti rfl
  | yield | tick | exit | join | mutexInit | lock | unlock | destroy => trivial

/-- A call that comes back on the lists is a step. -/
theorem call_of_sched (wf : o.system.WellFormed) (enabled : o.system.Enabled e)
    (call : o.system.sched.call e = .ok (a', r)) :
    ∃ o', o.Call e r o' ∧ o'.system.WellFormed ∧ o'.system.sched = a' ∧
      o'.ledger = o.ledger.record o.system.sched e r a' := by
  obtain ⟨s, hs, hsched⟩ := wf.call_of_sched enabled call
  exact ⟨⟨s, o.ledger.record o.system.sched e r a'⟩, ⟨hs, by rw [hsched]⟩,
    (wf.call_ok enabled hs).2.1, hsched, rfl⟩

theorem wellFormed_of_reachable {init : Audit → Prop} {permitted : Audit → Event → Prop}
    (hinit : ∀ o, init o → o.Init main)
    (h : ∀ o e, permitted o e → Made o.system.sched e)
    (reach : Runs.Reachable init permitted Step o) : o.system.WellFormed := by
  refine reach.invariant (fun o => o.system.WellFormed) ?_ ?_
  · exact fun o start => (hinit o start).system.wellFormed
  · intro o e o' allowed step wf
    obtain ⟨r, hcall⟩ := step
    exact (wf.call_ok (enabled_of_made (h o e allowed)) hcall.system).2.1

/-- The call on the lists behind a call of the library. -/
theorem Sound.effect (sound : o.Sound main) (made : Made o.system.sched e)
    (call : o.Call e r o') : Effect o.system.sched e o'.system.sched r := by
  have hlists := sound.wellFormed.call_ok (enabled_of_made made) call.system
  exact Sched.call_effect hlists.1

theorem Sound.call (sound : o.Sound main)
    (permitted : DestroysMutexes o.system.sched o.ledger e) (call : o.Call e r o') :
    o'.Sound main := by
  have hlists := sound.wellFormed.call_ok (enabled_of_made permitted.toMade) call.system
  refine ⟨hlists.2.1, ?_⟩
  rw [call.ledger]
  exact sound.handles.effect sound.wellFormed.partition permitted
    (sound.effect permitted.toMade call)

def start (main : ThreadId) (tid : Nat) : Audit := ⟨System.start main tid, Ledger.empty⟩

theorem init_start (main : ThreadId) (tid : Nat) : (start main tid).Init main :=
  ⟨System.init_start main tid, rfl⟩

theorem initUnnumbered_start (main : ThreadId) : (start main 0).InitUnnumbered main := by
  refine ⟨init_start main 0, ?_⟩
  intro numbered
  have hpos : 1 ≤ Function.update (fun _ => 0) main 0 main := numbered.1
  simp at hpos

/-- The state and the record behind a call that comes back, and its value. -/
def outcome (o : Audit) (e : Event) : Option (Audit × Return) :=
  match o.system.call e with
  | .ok (s, r) => some (⟨s, o.ledger.record o.system.sched e r s.sched⟩, r)
  | .error _ => none

def next (o : Audit) (e : Event) : Option Audit := (o.outcome e).map Prod.fst

theorem call_of_outcome (h : o.outcome e = some (o', r)) : o.Call e r o' := by
  rw [outcome] at h
  cases hcall : o.system.call e with
  | error fault => simp [hcall] at h
  | ok pair =>
      simp only [hcall, Option.some.injEq, Prod.mk.injEq] at h
      obtain ⟨rfl, rfl⟩ := h
      exact ⟨hcall, rfl⟩

theorem step_of_next (h : o.next e = some o') : o.Step e o' := by
  obtain ⟨pair, hpair, rfl⟩ := Option.map_eq_some_iff.mp h
  exact ⟨pair.2, call_of_outcome hpair⟩

/-- The calls one after another, each permitted where it is made. -/
def execute (permitted : Sched → Ledger → Event → Prop)
    [∀ a l e, Decidable (permitted a l e)] : Audit → List Event → Option Audit :=
  Runs.run (fun o e => decide (permitted o.system.sched o.ledger e)) next

theorem steps_of_execute {permitted : Sched → Ledger → Event → Prop}
    [∀ a l e, Decidable (permitted a l e)] {es : List Event}
    (h : o.execute permitted es = some o') :
    Runs.Steps (fun o e => permitted o.system.sched o.ledger e) Step o es o' :=
  (Runs.steps_of_run _ _ h).mapStep fun _ _ _ allowed taken =>
    ⟨of_decide_eq_true allowed, step_of_next taken⟩

theorem reachable_of_execute {init : Audit → Prop} {permitted : Sched → Ledger → Event → Prop}
    [∀ a l e, Decidable (permitted a l e)] {es : List Event} (hinit : init o)
    (h : o.execute permitted es = some o') :
    Runs.Reachable init (fun o e => permitted o.system.sched o.ledger e) Step o' :=
  ⟨o, es, hinit, steps_of_execute h⟩

end Audit

end OsDesign.Pthread
