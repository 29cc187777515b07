import OsDesign.Lib.Outcome
import OsDesign.Code.Library
import OsDesign.Code.PerThreadHeap
import OsDesign.Pthread.Ledger

/-!
`reclaim_current_heap` in the runs of the whole library of `code/`. The pool is mapped by
the first `my_malloc` of any thread, and every exit clears the record and the page of the
exiting thread's `tid`, whether there is a pool or not. `my_pthread_init` does not set
the main thread's `tid`.
-/
namespace OsDesign.Code

open Virt Pthread Heap Runs Outcome

/-- The allocator, and where `my_malloc_init` mapped the pool, if it did. -/
structure LazyHeap where
  pool : Pool
  mapping : Option Nat

/-- A call of the allocator, with what `mmap` returns if it is asked, or a store of the
program. -/
inductive HeapUse
  | malloc (mapped : Option Nat) (size : Nat)
  | free (ptr : Nat)
  | store (address : Nat) (byte : UInt8)

namespace LazyHeap

/-- The static pointers are NULL. -/
def untouched (memory : Nat → UInt8) : LazyHeap := ⟨⟨memory, 0, 0, 0, false⟩, none⟩

/-- The first call of `my_malloc`; after a failed `mmap` the pointers stay NULL. -/
def init (mapped : Option Nat) (h : LazyHeap) : LazyHeap :=
  match mapped with
  | some base => ⟨{ h.pool.myMallocInit base with gMallocInit := true }, some base⟩
  | none => { h with pool := { h.pool with gPages := 2 ^ 64 - 1, gMallocInit := true } }

/-- Without a pool `_malloc` and `_free` end at the NULL record, unless they return
before they read it. -/
def use (current : Option Nat) (h : LazyHeap) : HeapUse → Option LazyHeap
  | .malloc mapped size =>
      let h := if h.pool.gMallocInit then h else h.init mapped
      match h.mapping with
      | some _ => some { h with pool := (h.pool.mallocFor (Pool.callerTid current) size).1 }
      | none => if size = 0 ∨ 512 < size then some h else none
  | .free ptr =>
      match h.mapping with
      | some _ => some { h with pool := h.pool.myFree current ptr }
      | none =>
          if freeTarget (h.pool.threadHeapBase (Pool.callerTid current)) ptr = none then some h
          else none
  | .store address byte =>
      some { h with pool :=
        { h.pool with memory := Function.update h.pool.memory address byte } }

/-- Without a pool the first `memset` writes at NULL. -/
def reclaim (tid : Nat) (h : LazyHeap) : Option LazyHeap :=
  h.mapping.map fun _ => { h with pool := h.pool.reclaimCurrentHeap tid }

/-- The pointers are NULL, or those of the mapping. -/
def Laid (h : LazyHeap) : Prop :=
  ∀ base, h.mapping = some base →
    h.pool.gMallocInit = true ∧ h.pool.gMetadata = base ∧ h.pool.gHeapPages = base + pageSize

end LazyHeap

structure Program where
  library : Library
  heap : LazyHeap

inductive ProgramEvent
  | call (u : Unspecified) (e : Pthread.Event)
  | use (c : HeapUse)

def ProgramEvent.isExit : ProgramEvent → Bool
  | .call _ .exit => true
  | _ => false

namespace Program

/-- A call of the library by `CURRENT`. The exit of a thread clears its heap between the
release of its entry and the choice of the next thread; its `tid` is read from its freed
block. Where no `my_malloc` has mapped the pool, `reclaim_current_heap` writes at NULL. -/
def call (u : Unspecified) (s : Program) : Pthread.Event → Except Fault (Program × Return)
  | .exit =>
      match s.library.queues.current with
      | none => .error .nullDereference
      | some c =>
          match s.library.call u .exit with
          | .error fault => .error fault
          | .ok (l, r) =>
              match s.heap.reclaim (s.library.tid c) with
              | none => .error .nullDereference
              | some heap => .ok (⟨l, heap⟩, r)
  | e => (s.library.call u e).map fun r => ({ s with library := r.1 }, r.2)

def next (s : Program) : ProgramEvent → Option Program
  | .call u e => (s.call u e).toOption.map Prod.fst
  | .use c =>
      (s.heap.use (s.library.queues.current.map s.library.tid) c).map fun heap =>
        { s with heap := heap }

def Step (s : Program) (e : ProgramEvent) (s' : Program) : Prop := s.next e = some s'

/-- `my_pthread_init` has returned; before it the main thread may have used the heap. -/
def Init (main : ThreadId) (s : Program) : Prop :=
  s.library.Init main ∧
    Reachable (fun h => ∃ memory, h = LazyHeap.untouched memory) (fun _ _ => True)
      (fun h c h' => h.use none c = some h') s.heap

/-- The pool is mapped; if the main thread exits, its `tid` is that of a heap; and if it
exits or is alive, it shares the `tid` with no other thread. -/
structure Reclaimable (main : ThreadId) (s : Program) (c : ThreadId) : Prop where
  mapped : s.heap.mapping.isSome
  inTable : c = main → s.library.tid c < maxMutexNum
  apart : ∀ t, s.library.live t = true → t ≠ c → t = main ∨ c = main →
    s.library.tid t ≠ s.library.tid c

/-- The calls of the runs; mutexes are not destroyed. -/
def Listed (s : Program) : ProgramEvent → Prop
  | .call _ e => s.library.Enabled e ∧ ∀ mutex, e ≠ .destroy mutex
  | .use _ => True

def Keeps (main : ThreadId) (s : Program) : ProgramEvent → Prop
  | .call _ .exit => ∀ c, s.library.queues.current = some c → s.Reclaimable main c
  | _ => True

/-- The exit of `c` clears its record and its page, both inside the mapping, and nothing
else; no other live thread has them. -/
def ReclaimsOwn (s : Program) (c : ThreadId) (u : Unspecified) : Prop :=
  ∃ base s', s.heap.mapping = some base ∧ s.Step (.call u .exit) s' ∧
    (base ≤ s.heap.pool.threadHeapMetadata (s.library.tid c) ∧
      s.heap.pool.threadHeapMetadata (s.library.tid c) + metadataSize ≤ base + poolSize) ∧
    (base ≤ s.heap.pool.threadHeapBase (s.library.tid c) ∧
      s.heap.pool.threadHeapBase (s.library.tid c) + pageSize ≤ base + poolSize) ∧
    (∀ x, ¬ s.heap.pool.InHeap (s.library.tid c) x →
      s'.heap.pool.memory x = s.heap.pool.memory x) ∧
    ∀ t, s.library.live t = true → t ≠ c → s.library.tid t ≠ s.library.tid c ∧
      (s.library.tid t < maxMutexNum → ∀ x, s.heap.pool.InHeap (s.library.tid t) x →
        s'.heap.pool.memory x = s.heap.pool.memory x)

end Program

theorem Pool.reclaimCurrentHeap_outside (p : Pool) {tid x : Nat}
    (outside : ¬ p.InHeap tid x) : (p.reclaimCurrentHeap tid).memory x = p.memory x := by
  have hrecord : x < p.threadHeapMetadata tid ∨ p.threadHeapMetadata tid + metadataSize ≤ x := by
    by_contra h
    exact outside (.inl (by omega))
  have hpage : x < p.threadHeapBase tid ∨ p.threadHeapBase tid + pageSize ≤ x := by
    by_contra h
    exact outside (.inr (by omega))
  simp only [Pool.reclaimCurrentHeap]
  rw [ByteStore.write_apply_of_outside _ _ _ _ hpage,
    ByteStore.write_apply_of_outside _ _ _ _ hrecord]

theorem LazyHeap.reclaim_eq_some {h h' : LazyHeap} {tid : Nat} : h.reclaim tid = some h' ↔
    ∃ base, h.mapping = some base ∧ h' = { h with pool := h.pool.reclaimCurrentHeap tid } := by
  rw [LazyHeap.reclaim, Option.map_eq_some_iff]
  exact exists_congr fun base => and_congr_right fun _ => eq_comm

theorem LazyHeap.Laid.init {h : LazyHeap} (laid : h.Laid) (mapped : Option Nat) :
    (h.init mapped).Laid := by
  cases mapped with
  | some base =>
      rintro base' same
      obtain rfl : base = base' := Option.some.inj same
      exact ⟨rfl, rfl, rfl⟩
  | none => exact fun base same => ⟨rfl, (laid base same).2⟩

/-- The pointers are set with the mapping and by nothing else. -/
theorem LazyHeap.Laid.use {h h' : LazyHeap} {current : Option Nat} {c : HeapUse} (laid : h.Laid)
    (used : h.use current c = some h') : h'.Laid := by
  cases c with
  | malloc mapped size =>
      have ready : (if h.pool.gMallocInit then h else h.init mapped).Laid := by
        split
        · exact laid
        · exact laid.init mapped
      simp only [LazyHeap.use] at used
      generalize (if h.pool.gMallocInit then h else h.init mapped) = h₁ at ready used
      cases hmap : h₁.mapping with
      | some base =>
          simp only [hmap, Option.some.injEq] at used
          subst used
          exact fun base' same => ready base' (hmap.trans same)
      | none =>
          simp only [hmap] at used
          obtain ⟨-, used⟩ := Option.ite_none_right_eq_some.mp used
          exact Option.some.inj used ▸ ready
  | free ptr =>
      simp only [LazyHeap.use] at used
      cases hmap : h.mapping with
      | some base =>
          simp only [hmap, Option.some.injEq] at used
          subst used
          exact fun base' same => laid base' (hmap.trans same)
      | none =>
          simp only [hmap] at used
          obtain ⟨-, used⟩ := Option.ite_none_right_eq_some.mp used
          exact Option.some.inj used ▸ laid
  | store address byte =>
      cases used
      exact laid

namespace Library

variable {l l' : Library} {u : Unspecified} {r : Return} {main c : ThreadId}

/-- Live threads other than the main thread have entries of their own as their tids. -/
structure Tids (main : ThreadId) (l : Library) : Prop where
  entry : ∀ t, l.live t = true → t ≠ main →
    l.tid t < maxMutexNum ∧ (l.gMutexTable (l.tid t)).used = true
  apart : ∀ t t', l.live t = true → l.live t' = true → t ≠ main → t' ≠ main →
    l.tid t = l.tid t' → t = t'

theorem tids_congr (tids : l.Tids main) (tid : l'.tid = l.tid) (live : l'.live = l.live)
    (used : ∀ i, (l.gMutexTable i).used = true → (l'.gMutexTable i).used = true) :
    l'.Tids main := by
  refine ⟨?_, ?_⟩
  · intro t ht hne
    rw [live] at ht
    obtain ⟨hlt, hused⟩ := tids.entry t ht hne
    rw [tid]
    exact ⟨hlt, used _ hused⟩
  · intro t t' ht ht' hne hne' same
    rw [live] at ht ht'
    rw [tid] at same
    exact tids.apart t t' ht ht' hne hne' same

theorem schedule_frame (h : l.schedule = .ok l') : ∃ q, l' = { l with queues := q } := by
  rw [schedule] at h
  split at h
  · exact ⟨l.queues, (Except.ok.inj h).symm⟩
  · obtain ⟨q, -, rfl⟩ := map_eq_ok_iff.mp h
    exact ⟨q, rfl⟩

theorem swap_frame (h : l.scheduleSwapCurrentToWait = .ok l') :
    ∃ q, l' = { l with queues := q } := by
  rw [scheduleSwapCurrentToWait] at h
  split at h
  · exact ⟨l.queues, (Except.ok.inj h).symm⟩
  · obtain ⟨q, -, rfl⟩ := map_eq_ok_iff.mp h
    exact ⟨q, rfl⟩

theorem used_setCount {table : MutexTable} {i n : Nat} {count : BitVec 32}
    (h : (table i).used = true) : ((table.setCount n count) i).used = true := by
  by_cases hi : i = n
  · subst hi
    simpa [MutexTable.setCount] using h
  · simpa [MutexTable.setCount, hi] using h

/-- `my_pthread_join` and `my_pthread_mutex_lock`. -/
theorem Tids.countAndWait (tids : l.Tids main) {value : Int} {n : Nat}
    (h : l.countAndWait value n = .ok (l', r)) : l'.Tids main := by
  rw [Library.countAndWait] at h
  split at h
  · cases h
  split at h
  · cases h
    exact tids
  split at h
  · cases h
    exact tids_congr tids rfl rfl fun i => used_setCount
  split at h
  · cases h
  · obtain ⟨l₁, swapped, returned⟩ := map_eq_ok_iff.mp h
    cases returned
    obtain ⟨q, rfl⟩ := swap_frame swapped
    exact tids_congr tids rfl rfl fun i => used_setCount

theorem Tids.unlock (tids : l.Tids main) {n : Nat} (h : l.myPthreadMutexUnlock n = .ok (l', r)) :
    l'.Tids main := by
  rw [myPthreadMutexUnlock] at h
  split at h
  · cases h
  split at h
  · cases h
    exact tids
  split at h
  · cases h
    exact tids
  dsimp only at h
  split at h
  · cases h
    exact tids_congr tids rfl rfl fun i => used_setCount
  · obtain ⟨q, -, returned⟩ := map_eq_ok_iff.mp h
    cases returned
    exact tids_congr tids rfl rfl fun i => used_setCount

/-- A new thread gets an entry that no live thread has. -/
theorem Tids.create (tids : l.Tids main) {ti : ThreadId} (fresh : l.live ti = false)
    (h : l.myPthreadCreate u ti = .ok (l', r)) : l'.Tids main := by
  rw [myPthreadCreate] at h
  cases halloc : l.gMutexTable.allocMutex with
  | mk table handle =>
      cases handle with
      | none => simp [halloc] at h
      | some n =>
          simp only [halloc, Except.ok.injEq, Prod.mk.injEq] at h
          obtain ⟨rfl, -⟩ := h
          obtain ⟨⟨-, hlt⟩, hfree, rfl⟩ := MutexTable.allocMutex_eq_some halloc
          have hold : ∀ t, t ≠ ti → Function.update l.live ti true t = true → l.live t = true :=
            fun t hne ht => (Function.update_of_ne hne _ _).symm.trans ht
          have hother : ∀ t, t ≠ ti → Function.update l.live ti true t = true → t ≠ main →
              l.tid t ≠ n := by
            rintro t hne ht hmain rfl
            have hused := (tids.entry t (hold t hne ht) hmain).2
            rw [hfree] at hused
            cases hused
          refine ⟨?_, ?_⟩
          · intro t ht hne
            by_cases hti : t = ti
            · subst hti
              simp only [Function.update_self]
              refine ⟨hlt, used_setCount ?_⟩
              simp
            · simp only [Function.update_of_ne hti]
              obtain ⟨hlow, hused⟩ := tids.entry t (hold t hti ht) hne
              refine ⟨hlow, used_setCount ?_⟩
              rw [Function.update_of_ne (hother t hti ht hne)]
              exact hused
          · intro t t' ht ht' hne hne' same
            by_cases hti : t = ti
            · by_cases hti' : t' = ti
              · rw [hti, hti']
              · simp only [hti, Function.update_self, Function.update_of_ne hti'] at same
                exact absurd same.symm (hother t' hti' ht' hne')
            · by_cases hti' : t' = ti
              · simp only [hti', Function.update_self, Function.update_of_ne hti] at same
                exact absurd same (hother t hti ht hne)
              · simp only [Function.update_of_ne hti, Function.update_of_ne hti'] at same
                exact tids.apart t t' (hold t hti ht) (hold t' hti' ht') hne hne' same

/-- The exit of `CURRENT` frees the entry of its `tid`. -/
theorem exit_frame (current : l.queues.current = some c) (h : l.endThread = .ok (l', r)) :
    l.tid c < maxMutexNum ∧ l'.tid = l.tid ∧ l'.live = Function.update l.live c false ∧
      l'.gMutexTable = l.gMutexTable.freeMutex (l.tid c) := by
  simp only [endThread, current] at h
  cases hq : releaseAllThread (l.tid c) l.queues with
  | error fault => simp [hq] at h
  | ok q =>
      simp only [hq] at h
      split at h
      · cases h
      · rename_i hlt
        obtain ⟨l₁, hs, returned⟩ := map_eq_ok_iff.mp h
        cases returned
        obtain ⟨q', rfl⟩ := schedule_frame hs
        exact ⟨Nat.lt_of_not_le hlt, rfl, rfl, rfl⟩

theorem WellFormed.current_live (wf : l.WellFormed) (current : l.queues.current = some c) :
    l.live c = true := by
  obtain ⟨rs, ws, -, live⟩ := wf
  rw [← live c, Queues.members, current]
  simp

/-- With a `tid` in the table the exit comes back from the library. -/
theorem WellFormed.exit_ok (wf : l.WellFormed) (current : l.queues.current = some c)
    (inTable : l.tid c < maxMutexNum) : ∃ l' r, l.endThread = .ok (l', r) := by
  obtain ⟨q, hq, wf₁⟩ := wf.retired current
  obtain ⟨l', hschedule, -⟩ := wf₁.schedule
  refine ⟨l', ⟨0, none⟩, ?_⟩
  simp only [endThread, current, hq, if_neg (Nat.not_le.mpr inTable), hschedule]
  rfl

theorem Tids.exit (tids : l.Tids main) (current : l.queues.current = some c)
    (apart : ∀ t, l.live t = true → t ≠ c → t ≠ main → l.tid t ≠ l.tid c)
    (h : l.endThread = .ok (l', r)) : l'.Tids main := by
  obtain ⟨-, htid, hlive, htable⟩ := exit_frame current h
  have hold : ∀ t, l'.live t = true → t ≠ c ∧ l.live t = true := by
    intro t ht
    rw [hlive] at ht
    by_cases hc : t = c
    · subst hc
      simp at ht
    · exact ⟨hc, (Function.update_of_ne hc _ _).symm.trans ht⟩
  refine ⟨?_, ?_⟩
  · intro t ht hne
    obtain ⟨hc, ht⟩ := hold t ht
    obtain ⟨hlt, hused⟩ := tids.entry t ht hne
    rw [htid, htable, MutexTable.freeMutex, Function.update_of_ne (apart t ht hc hne)]
    exact ⟨hlt, hused⟩
  · intro t t' ht ht' hne hne' same
    rw [htid] at same
    exact tids.apart t t' (hold t ht).2 (hold t' ht').2 hne hne' same

theorem Tids.call (tids : l.Tids main) {e : Pthread.Event} (enabled : l.Enabled e)
    (kept : ∀ mutex, e ≠ .destroy mutex)
    (apart : e = .exit → ∀ c, l.queues.current = some c →
      ∀ t, l.live t = true → t ≠ c → t ≠ main → l.tid t ≠ l.tid c)
    (h : l.call u e = .ok (l', r)) : l'.Tids main := by
  cases e with
  | create ti => exact tids.create enabled h
  | yield | tick =>
      obtain ⟨l₁, hs, returned⟩ := map_eq_ok_iff.mp h
      cases returned
      obtain ⟨q, rfl⟩ := schedule_frame hs
      exact tids_congr tids rfl rfl fun i => id
  | exit =>
      cases current : l.queues.current with
      | none => simp [Library.call, endThread, current] at h
      | some c => exact tids.exit current (apart rfl c current) h
  | join n => exact tids.countAndWait h
  | lock n => exact tids.countAndWait h
  | unlock n => exact tids.unlock h
  | mutexInit =>
      rw [Library.call, myPthreadMutexInit] at h
      split at h
      · cases h
      · rename_i table i halloc
        cases h
        obtain ⟨-, -, rfl⟩ := MutexTable.allocMutex_eq_some halloc
        refine tids_congr tids rfl rfl ?_
        intro j hj
        by_cases hji : j = i
        · simp [hji]
        · simpa [hji] using hj
  | destroy n => exact absurd rfl (kept n)

end Library

namespace Program

variable {s s' : Program} {main c : ThreadId} {u : Unspecified}

/-- The invariant of the runs. -/
structure Sound (main : ThreadId) (s : Program) : Prop where
  wf : s.library.WellFormed
  tids : s.library.Tids main
  laid : s.heap.Laid

theorem Sound.init (init : s.Init main) : s.Sound main := by
  obtain ⟨hlibrary, hheap⟩ := init
  refine ⟨Library.WellFormed.reachable (.start hlibrary), ?_, ?_⟩
  · have alone : ∀ t, s.library.live t = true → t = main := by
      intro t ht
      rw [hlibrary.live] at ht
      simpa using ht
    exact ⟨fun t ht hne => absurd (alone t ht) hne,
      fun t t' ht _ hne => absurd (alone t ht) hne⟩
  · refine hheap.invariant LazyHeap.Laid ?_ fun _ _ _ _ used laid => laid.use used
    rintro h ⟨memory, rfl⟩ base same
    cases same

theorem call_exit (current : s.library.queues.current = some c) :
    s.call u .exit =
      match s.library.endThread with
      | .error fault => .error fault
      | .ok (l, r) =>
          match s.heap.reclaim (s.library.tid c) with
          | none => .error .nullDereference
          | some heap => .ok (⟨l, heap⟩, r) := by
  simp only [call, current, Library.call]

theorem call_of_ne {e : Pthread.Event} (other : e ≠ .exit) :
    s.call u e = (s.library.call u e).map fun r => ({ s with library := r.1 }, r.2) := by
  cases e with
  | exit => exact absurd rfl other
  | create _ | yield | tick | join _ | mutexInit | lock _ | unlock _ | destroy _ => rfl

theorem step_call_iff {e : Pthread.Event} :
    s.Step (.call u e) s' ↔ ∃ r, s.call u e = .ok (s', r) := by
  rw [Step, next]
  constructor
  · intro step
    obtain ⟨⟨s₁, r⟩, returned, rfl⟩ := Option.map_eq_some_iff.mp step
    exact ⟨r, toOption_eq_some_iff.mp returned⟩
  · rintro ⟨r, returned⟩
    rw [returned]
    rfl

/-- The exit comes back from the library, and there is a pool. -/
theorem step_exit_iff (current : s.library.queues.current = some c) :
    s.Step (.call u .exit) s' ↔ ∃ l r base, s.library.endThread = .ok (l, r) ∧
      s.heap.mapping = some base ∧
      s' = ⟨l, { s.heap with pool := s.heap.pool.reclaimCurrentHeap (s.library.tid c) }⟩ := by
  rw [step_call_iff, call_exit current]
  constructor
  · rintro ⟨r, returned⟩
    cases exits : s.library.endThread with
    | error fault =>
        rw [exits] at returned
        cases returned
    | ok outcome =>
        rw [exits] at returned
        cases reclaimed : s.heap.reclaim (s.library.tid c) with
        | none =>
            rw [reclaimed] at returned
            cases returned
        | some heap =>
            rw [reclaimed] at returned
            cases returned
            obtain ⟨base, mapped, rfl⟩ := LazyHeap.reclaim_eq_some.mp reclaimed
            exact ⟨_, _, base, rfl, mapped, rfl⟩
  · rintro ⟨l, r, base, exits, mapped, rfl⟩
    rw [exits, LazyHeap.reclaim_eq_some.mpr ⟨base, mapped, rfl⟩]
    exact ⟨r, rfl⟩

theorem step_call {e : Pthread.Event} (other : e ≠ .exit) (step : s.Step (.call u e) s') :
    ∃ l r, s.library.call u e = .ok (l, r) ∧ s' = { s with library := l } := by
  obtain ⟨r, returned⟩ := step_call_iff.mp step
  rw [call_of_ne other] at returned
  obtain ⟨⟨l, r⟩, returned, same⟩ := map_eq_ok_iff.mp returned
  exact ⟨l, r, returned, (congrArg Prod.fst same).symm⟩

theorem Sound.step {e : ProgramEvent} (sound : s.Sound main) (listed : s.Listed e)
    (keeps : s.Keeps main e) (step : s.Step e s') : s'.Sound main := by
  cases e with
  | use c =>
      obtain ⟨heap, used, rfl⟩ := Option.map_eq_some_iff.mp step
      exact ⟨sound.wf, sound.tids, sound.laid.use used⟩
  | call u e =>
      by_cases hexit : e = .exit
      · subst hexit
        cases current : s.library.queues.current with
        | none =>
            obtain ⟨r, returned⟩ := step_call_iff.mp step
            simp [call, current] at returned
        | some c =>
            obtain ⟨l, r, base, hcall, mapped, rfl⟩ := (step_exit_iff current).mp step
            have reclaimable := keeps c current
            refine ⟨sound.wf.exit hcall, sound.tids.exit current ?_ hcall, ?_⟩
            · intro t ht hc hmain
              by_cases hcmain : c = main
              · exact reclaimable.apart t ht hc (.inr hcmain)
              · have hlive : s.library.live c = true := sound.wf.current_live current
                exact fun same => hc (sound.tids.apart t c ht hlive hmain hcmain same)
            · exact sound.laid
      · obtain ⟨l, r, hcall, rfl⟩ := step_call hexit step
        refine ⟨sound.wf.call listed.1 hcall, ?_, sound.laid⟩
        exact sound.tids.call listed.1 listed.2 (fun h => absurd h hexit) hcall

/-- In the table the record and the page of a `tid` lie inside the mapping. -/
theorem Sound.inside (sound : s.Sound main) {base tid : Nat} (mapped : s.heap.mapping = some base)
    (inTable : tid < maxMutexNum) :
    (base ≤ s.heap.pool.threadHeapMetadata tid ∧
      s.heap.pool.threadHeapMetadata tid + metadataSize ≤ base + poolSize) ∧
    (base ≤ s.heap.pool.threadHeapBase tid ∧
      s.heap.pool.threadHeapBase tid + pageSize ≤ base + poolSize) := by
  obtain ⟨-, hrecords, hpages⟩ := sound.laid base mapped
  change tid < 32 at inTable
  simp only [Pool.threadHeapMetadata, Pool.threadHeapBase, hrecords, hpages, metadataSize,
    poolSize, pageSize]
  omega

/-- The heaps of two entries do not meet. -/
theorem Sound.notInHeap (sound : s.Sound main) {base tid tid' x : Nat}
    (mapped : s.heap.mapping = some base) (inTable : tid < maxMutexNum)
    (inTable' : tid' < maxMutexNum) (hne : tid ≠ tid') (inside : s.heap.pool.InHeap tid x) :
    ¬ s.heap.pool.InHeap tid' x := by
  obtain ⟨-, hrecords, hpages⟩ := sound.laid base mapped
  change tid < 32 at inTable
  change tid' < 32 at inTable'
  simp only [Pool.InHeap, Pool.threadHeapMetadata, Pool.threadHeapBase, hrecords, hpages,
    metadataSize, pageSize] at inside ⊢
  omega

/-- A live thread's `tid` is its own if the main thread's is. -/
theorem Sound.distinct (sound : s.Sound main) (current : s.library.queues.current = some c)
    (reclaimable : s.Reclaimable main c) {t : ThreadId} (live : s.library.live t = true)
    (hne : t ≠ c) : s.library.tid t ≠ s.library.tid c := by
  by_cases hmain : t = main ∨ c = main
  · exact reclaimable.apart t live hne hmain
  · obtain ⟨ht, hc⟩ := not_or.mp hmain
    have hlive : s.library.live c = true := sound.wf.current_live current
    exact fun same => hne (sound.tids.apart t c live hlive ht hc same)

theorem Sound.inTable (sound : s.Sound main) (current : s.library.queues.current = some c)
    (reclaimable : s.Reclaimable main c) : s.library.tid c < maxMutexNum := by
  by_cases hmain : c = main
  · exact reclaimable.inTable hmain
  · exact (sound.tids.entry c (sound.wf.current_live current) hmain).1

theorem Sound.reclaimsOwn (sound : s.Sound main) (current : s.library.queues.current = some c)
    (reclaimable : s.Reclaimable main c) (u : Unspecified) : s.ReclaimsOwn c u := by
  obtain ⟨base, mapped⟩ := Option.isSome_iff_exists.mp reclaimable.mapped
  have inTable := sound.inTable current reclaimable
  obtain ⟨l, r, exits⟩ := sound.wf.exit_ok current inTable
  have step := (step_exit_iff (u := u) current).mpr ⟨l, r, base, exits, mapped, rfl⟩
  obtain ⟨record, page⟩ := sound.inside mapped inTable
  refine ⟨base, _, mapped, step, record, page, ?_, ?_⟩
  · exact fun x outside => s.heap.pool.reclaimCurrentHeap_outside outside
  · intro t live hne
    have apart := sound.distinct current reclaimable live hne
    refine ⟨apart, ?_⟩
    intro inTable' x inside
    exact s.heap.pool.reclaimCurrentHeap_outside
      (sound.notInHeap mapped inTable' inTable apart inside)

theorem Sound.reachable (reach : Reachable (Init main) (fun s e => s.Listed e ∧ s.Keeps main e)
    Step s) : s.Sound main :=
  reach.invariant (Sound main) (fun _ init => .init init)
    fun _ _ _ permitted step sound => sound.step permitted.1 permitted.2 step

/-- In every run in which the exits so far were of reclaimable threads, the exit of the
current thread clears its own heap exactly if it is reclaimable. -/
theorem reclaimsOwn_iff (reach : Reachable (Init main) (fun s e => s.Listed e ∧ s.Keeps main e)
    Step s) (current : s.library.queues.current = some c) (u : Unspecified) :
    s.ReclaimsOwn c u ↔ s.Reclaimable main c := by
  have sound := Sound.reachable reach
  constructor
  · rintro ⟨base, s', mapped, step, -, -, -, others⟩
    obtain ⟨l, r, -, exits, -, -⟩ := (step_exit_iff current).mp step
    refine ⟨?_, ?_, ?_⟩
    · rw [mapped]
      rfl
    · exact fun _ => (Library.exit_frame current exits).1
    · exact fun t live hne _ => (others t live hne).1
  · exact fun reclaimable => sound.reclaimsOwn current reclaimable u

def start : Program := ⟨Library.start 0, .untouched fun _ => 0⟩

theorem init_start : start.Init 0 := ⟨Library.init_start 0, .start ⟨fun _ => 0, rfl⟩⟩

instance (s : Program) : DecidablePred s.Listed
  | .use _ => inferInstanceAs (Decidable True)
  | .call _ (.create ti) => decidable_of_iff (s.library.live ti = false)
      ⟨fun new => ⟨new, nofun⟩, fun listed => listed.1⟩
  | .call _ (.destroy mutex) => .isFalse fun listed => listed.2 mutex rfl
  | .call _ .yield | .call _ .tick | .call _ .exit | .call _ (.join _) | .call _ .mutexInit
  | .call _ (.lock _) | .call _ (.unlock _) => .isTrue ⟨trivial, nofun⟩

theorem keeps_of_not_isExit {e : ProgramEvent} (h : e.isExit = false) : s.Keeps main e := by
  cases e with
  | use c => trivial
  | call u e =>
      cases e with
      | exit => cases h
      | _ => trivial

/-- Thread 1 exits when the main thread has called `my_malloc`. -/
theorem reclaimsOwn_created : ∃ s, Reachable (Init 0) (fun s e => s.Listed e ∧ s.Keeps 0 e) Step s ∧
    s.library.queues.current = some 1 ∧ s.ReclaimsOwn 1 ⟨0, 0⟩ := by
  obtain ⟨s, reach, current, mapped, apart⟩ := exists_reachable_of_run
    (fun s e => s.Listed e ∧ e.isExit = false) next init_start
    (fun s => s.library.queues.current = some 1 ∧ s.heap.mapping.isSome ∧
      s.library.tid 0 ≠ s.library.tid 1)
    [.use (.malloc (some 0x7f0000000000) 32), .call ⟨0, 0⟩ (.create 1), .call ⟨0, 0⟩ .yield]
    (by decide +kernel)
  have kept : Reachable (Init 0) (fun s e => s.Listed e ∧ s.Keeps 0 e) Step s :=
    reach.mono fun _ _ permitted => ⟨permitted.1, keeps_of_not_isExit permitted.2⟩
  refine ⟨s, kept, current, (reclaimsOwn_iff kept current _).mpr ⟨mapped, nofun, ?_⟩⟩
  rintro t - - (rfl | hc)
  · exact apart
  · cases hc

/-- Thread 1 exits and nobody has called `my_malloc`. -/
theorem exit_clears_unmapped : ¬ ∀ s c u, Reachable (Init 0) Listed Step s →
    s.library.queues.current = some c → s.ReclaimsOwn c u := by
  obtain ⟨s, reach, current, unmapped⟩ := exists_reachable_of_run Listed next init_start
    (fun s => s.library.queues.current = some 1 ∧ s.heap.mapping = none)
    [.call ⟨0, 0⟩ (.create 1), .call ⟨0, 0⟩ .yield] (by decide +kernel)
  intro always
  obtain ⟨base, -, mapped, -⟩ := always s 1 ⟨0, 0⟩ reach current
  rw [unmapped] at mapped
  cases mapped

end Program

end OsDesign.Code
