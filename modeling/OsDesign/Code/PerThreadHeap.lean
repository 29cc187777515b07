import OsDesign.Lib.Runs
import OsDesign.Heap.Records
import OsDesign.Heap.Trunk

/-!
`code/my_malloc.c`: one mapped pool, whose first page holds the metadata of all
threads side by side and whose next pages are the heaps, one a thread, found by
the thread's tid. The heaps of threads with different tids do not meet, and a
heap whose thread has ended is as new.
-/
namespace OsDesign.Code

open ByteStore Heap

abbrev pageSize : Nat := 0x1000

/-- The bytes `my_malloc_init` maps. -/
abbrev poolSize : Nat := pageSize * 1024 * 8

/-- Tids are mutex handles, below `MAX_MUTEX_NUM`. -/
abbrev maxMutexNum : Nat := 32

/-- The globals of `my_malloc.c`, and the memory. -/
structure Pool where
  memory : Nat → UInt8
  gPages : Nat
  gMetadata : Nat
  gHeapPages : Nat
  gMallocInit : Bool

namespace Pool

/-- `my_malloc_init` when `mmap` returns the address `mapped`. -/
def myMallocInit (mapped : Nat) (p : Pool) : Pool :=
  { p with
    memory := write p.memory mapped fun _ : Fin poolSize => 0
    gPages := mapped
    gMetadata := mapped
    gHeapPages := mapped + pageSize }

/-- The tid that a call works with; `CURRENT` is null before `my_pthread_init`. -/
def callerTid (current : Option Nat) : Nat := current.getD 0

def threadHeapBase (p : Pool) (tid : Nat) : Nat := p.gHeapPages + tid * pageSize

def threadHeapMetadata (p : Pool) (tid : Nat) : Nat := p.gMetadata + tid * metadataSize

/-- The metadata of a thread's heap. -/
def metadata (p : Pool) (tid : Nat) : HeapMetadataT :=
  HeapMetadataT.load p.memory (p.threadHeapMetadata tid)

/-- `my_malloc` for the thread with this tid, in an initialised pool. -/
def mallocFor (tid size : Nat) (p : Pool) : Pool × Option Nat :=
  match (p.metadata tid)._malloc (p.threadHeapBase tid) size with
  | (md, ptr) => ({ p with memory := md.store (p.threadHeapMetadata tid) p.memory }, ptr)

def myMalloc (mapped : Nat) (current : Option Nat) (size : Nat) (p : Pool) : Pool × Option Nat :=
  if p.gMallocInit = false then
    ({ p.myMallocInit mapped with gMallocInit := true } : Pool).mallocFor (callerTid current) size
  else p.mallocFor (callerTid current) size

def myFree (current : Option Nat) (ptr : Nat) (p : Pool) : Pool :=
  let tid := callerTid current
  { p with
    memory := ((p.metadata tid)._free (p.threadHeapBase tid) ptr).store
      (p.threadHeapMetadata tid) p.memory }

/-- `reclaim_current_heap` of a thread with this tid. -/
def reclaimCurrentHeap (tid : Nat) (p : Pool) : Pool :=
  { p with
    memory := write (write p.memory (p.threadHeapMetadata tid) fun _ : Fin metadataSize => 0)
      (p.threadHeapBase tid) fun _ : Fin pageSize => 0 }

theorem metadata_mallocFor (p : Pool) (tid size : Nat) :
    (p.mallocFor tid size).1.metadata tid =
      ((p.metadata tid)._malloc (p.threadHeapBase tid) size).1 :=
  HeapMetadataT.load_store_self _ _ _

theorem metadata_myFree (p : Pool) (current : Option Nat) (ptr : Nat) :
    (p.myFree current ptr).metadata (callerTid current) =
      (p.metadata (callerTid current))._free (p.threadHeapBase (callerTid current)) ptr :=
  HeapMetadataT.load_store_self _ _ _

theorem metadata_reclaimCurrentHeap (p : Pool) (tid : Nat)
    (apart : p.threadHeapMetadata tid + metadataSize ≤ p.threadHeapBase tid) :
    (p.reclaimCurrentHeap tid).metadata tid = .zero := by
  refine HeapMetadataT.load_of_zero fun x hlow hhigh => ?_
  change p.threadHeapMetadata tid ≤ x at hlow
  change x < p.threadHeapMetadata tid + metadataSize at hhigh
  simp only [reclaimCurrentHeap]
  rw [write_apply_of_outside _ _ _ _ (by omega), write, dif_pos (by omega)]

end Pool

/-- The pool with its live threads and the blocks they have not freed. -/
structure Heaps where
  pool : Pool
  live : Nat → Bool
  blocks : Nat → List Block

/-- The calls of a run, and a store of the program. Threads are told apart by
their tids; `malloc` and `free` have `CURRENT` as the caller's. -/
inductive HeapCall
  | malloc (current : Option Nat) (size : Nat)
  | free (current : Option Nat) (ptr : Nat)
  | store (tid address : Nat) (byte : UInt8)
  | exit (tid : Nat)
  | create (tid : Nat)

def HeapCall.caller : HeapCall → Nat
  | malloc current _ | free current _ => Pool.callerTid current
  | store tid _ _ | exit tid | create tid => tid

namespace Heaps

/-- The pool is initialised, so what `mmap` would return does not matter. -/
def next (s : Heaps) : HeapCall → Heaps
  | .malloc current size =>
      match s.pool.myMalloc 0 current size with
      | (pool, ptr) =>
          let tid := Pool.callerTid current
          { s with
            pool := pool
            blocks := Function.update s.blocks tid (grow (s.blocks tid) size ptr) }
  | .free current ptr =>
      let tid := Pool.callerTid current
      { s with
        pool := s.pool.myFree current ptr
        blocks := Function.update s.blocks tid (release (s.blocks tid) ptr) }
  | .store _ address byte =>
      { s with
        pool := { s.pool with memory := Function.update s.pool.memory address byte } }
  | .exit tid =>
      { pool := s.pool.reclaimCurrentHeap tid
        live := Function.update s.live tid false
        blocks := Function.update s.blocks tid [] }
  | .create tid => { s with live := Function.update s.live tid true }

def Step (s : Heaps) (c : HeapCall) (s' : Heaps) : Prop := s' = s.next c

/-- Pointers that are freed lie in the pool, and the program stores in its own
live blocks. A new thread gets a tid that no live thread has. -/
def Permitted (s : Heaps) : HeapCall → Prop
  | .malloc current _ => s.live (Pool.callerTid current) = true
  | .free current ptr => s.live (Pool.callerTid current) = true ∧
      s.pool.gPages ≤ ptr ∧ ptr < s.pool.gPages + poolSize
  | .store tid address _ => s.live tid = true ∧
      ∃ b, b ∈ s.blocks tid ∧ b.address ≤ address ∧ address < b.address + b.size
  | .exit tid => s.live tid = true
  | .create tid => s.live tid = false ∧ tid < maxMutexNum

/-- The heap has just been initialised. -/
def Started (s : Heaps) : Prop :=
  (∃ p mapped, s.pool = { Pool.myMallocInit mapped p with gMallocInit := true }) ∧
    (∀ t, s.live t = true → t < maxMutexNum) ∧ ∀ t, s.blocks t = []

end Heaps

/-- The address is in the thread's metadata or in the thread's page. -/
def Pool.InHeap (p : Pool) (tid x : Nat) : Prop :=
  (p.threadHeapMetadata tid ≤ x ∧ x < p.threadHeapMetadata tid + metadataSize) ∨
    (p.threadHeapBase tid ≤ x ∧ x < p.threadHeapBase tid + pageSize)

namespace Heaps

/-- What holds between calls: the layout of the pool, and the live blocks of each
thread as its metadata tell them. -/
structure Inv (s : Heaps) : Prop where
  initialised : s.pool.gMallocInit = true
  records : s.pool.gMetadata = s.pool.gPages
  pages : s.pool.gHeapPages = s.pool.gPages + pageSize
  tids : ∀ t, s.live t = true → t < maxMutexNum
  holds : ∀ t, t < maxMutexNum →
    (s.pool.metadata t).Holds (s.pool.threadHeapBase t) (s.blocks t)
  idle : ∀ t, t < maxMutexNum → s.live t = false →
    s.pool.metadata t = .zero ∧ s.blocks t = []

/-- The bytes of the thread's heap and its live blocks are as before. -/
structure Kept (s s' : Heaps) (t : Nat) : Prop where
  bytes : ∀ x, s.pool.InHeap t x → s'.pool.memory x = s.pool.memory x
  blocks : s'.blocks t = s.blocks t

variable {s s' : Heaps} {t t' x : Nat}

theorem Inv.inHeap_iff (inv : s.Inv) : s.pool.InHeap t x ↔
    (s.pool.gPages + t * 76 ≤ x ∧ x < s.pool.gPages + t * 76 + 76) ∨
      (s.pool.gPages + (t + 1) * 4096 ≤ x ∧ x < s.pool.gPages + (t + 2) * 4096) := by
  simp only [Pool.InHeap, Pool.threadHeapMetadata, Pool.threadHeapBase, inv.records, inv.pages,
    pageSize, metadataSize]
  omega

theorem Inv.record_le_page (inv : s.Inv) (t : Nat) :
    s.pool.threadHeapMetadata t + metadataSize ≤ s.pool.threadHeapBase t := by
  simp only [Pool.threadHeapMetadata, Pool.threadHeapBase, inv.records, inv.pages, pageSize,
    metadataSize]
  omega

theorem Inv.apart (inv : s.Inv) (ht : t < maxMutexNum) (ht' : t' < maxMutexNum) (hne : t ≠ t')
    (h : s.pool.InHeap t x) : ¬ s.pool.InHeap t' x := by
  rw [inv.inHeap_iff] at h ⊢
  change t < 32 at ht
  change t' < 32 at ht'
  omega

theorem myMalloc_of_initialised (inv : s.Inv) (mapped : Nat) (current : Option Nat) (size : Nat) :
    s.pool.myMalloc mapped current size = s.pool.mallocFor (Pool.callerTid current) size := by
  rw [Pool.myMalloc, if_neg]
  simp [inv.initialised]

/-- A call moves no pointer of the pool. -/
theorem next_layout (inv : s.Inv) (c : HeapCall) :
    (s.next c).pool.gMallocInit = s.pool.gMallocInit ∧
      (s.next c).pool.gPages = s.pool.gPages ∧
      (s.next c).pool.gMetadata = s.pool.gMetadata ∧
      (s.next c).pool.gHeapPages = s.pool.gHeapPages := by
  cases c with
  | malloc current size =>
      simp only [next, myMalloc_of_initialised inv]
      exact ⟨rfl, rfl, rfl, rfl⟩
  | free current ptr => exact ⟨rfl, rfl, rfl, rfl⟩
  | store t address byte => exact ⟨rfl, rfl, rfl, rfl⟩
  | exit t => exact ⟨rfl, rfl, rfl, rfl⟩
  | create t => exact ⟨rfl, rfl, rfl, rfl⟩

theorem permitted_tid (inv : s.Inv) {c : HeapCall} (permitted : s.Permitted c) :
    c.caller < maxMutexNum := by
  cases c with
  | malloc current size => exact inv.tids _ permitted
  | free current ptr => exact inv.tids _ permitted.1
  | store t address byte => exact inv.tids _ permitted.1
  | exit t => exact inv.tids _ permitted
  | create t => exact permitted.2

/-- A call writes in the heap of its caller only. -/
theorem next_outside (inv : s.Inv) {c : HeapCall} (permitted : s.Permitted c)
    (outside : ¬ s.pool.InHeap c.caller x) : (s.next c).pool.memory x = s.pool.memory x := by
  have hrecord : x < s.pool.threadHeapMetadata c.caller ∨
      s.pool.threadHeapMetadata c.caller + metadataSize ≤ x := by
    by_contra h
    exact outside (.inl (by omega))
  have hpage : x < s.pool.threadHeapBase c.caller ∨
      s.pool.threadHeapBase c.caller + pageSize ≤ x := by
    by_contra h
    exact outside (.inr (by omega))
  have htid := permitted_tid inv permitted
  cases c with
  | malloc current size =>
      simp only [next, myMalloc_of_initialised inv, Pool.mallocFor]
      exact HeapMetadataT.store_apply_of_outside _ hrecord
  | free current ptr => exact HeapMetadataT.store_apply_of_outside _ hrecord
  | store t address byte =>
      obtain ⟨-, b, hb, hlow, hhigh⟩ := permitted
      have hinside := (inv.holds t htid).inside hb
      change Function.update s.pool.memory address byte x = _
      rw [Function.update_of_ne]
      intro same
      change x < s.pool.threadHeapBase t ∨ s.pool.threadHeapBase t + 0x1000 ≤ x at hpage
      omega
  | exit t =>
      simp only [next, Pool.reclaimCurrentHeap]
      change x < s.pool.threadHeapMetadata t ∨ _ at hrecord
      change x < s.pool.threadHeapBase t ∨ _ at hpage
      rw [write_apply_of_outside _ _ _ _ hpage, write_apply_of_outside _ _ _ _ hrecord]
  | create t => rfl

/-- The heap of a thread that does not make the call stays as it is. -/
theorem next_kept (inv : s.Inv) {c : HeapCall} (permitted : s.Permitted c)
    (ht : t < maxMutexNum) (hne : t ≠ c.caller) : Kept s (s.next c) t := by
  refine ⟨?_, ?_⟩
  · intro x hx
    exact next_outside inv permitted (inv.apart ht (permitted_tid inv permitted) hne hx)
  · cases c with
    | malloc current size => exact Function.update_of_ne hne _ _
    | free current ptr => exact Function.update_of_ne hne _ _
    | store t address byte => rfl
    | exit t => exact Function.update_of_ne hne _ _
    | create t => rfl

theorem Kept.metadata (kept : Kept s s' t) (layout : s'.pool.gMetadata = s.pool.gMetadata) :
    s'.pool.metadata t = s.pool.metadata t := by
  rw [Pool.metadata, Pool.metadata, Pool.threadHeapMetadata, Pool.threadHeapMetadata, layout]
  exact HeapMetadataT.load_congr fun x hlow hhigh => kept.bytes x (.inl ⟨hlow, hhigh⟩)

/-- After its own call a thread's metadata tell its live blocks. -/
theorem next_holds (inv : s.Inv) {c : HeapCall} (permitted : s.Permitted c) :
    ((s.next c).pool.metadata c.caller).Holds (s.pool.threadHeapBase c.caller)
      ((s.next c).blocks c.caller) := by
  have htid := permitted_tid inv permitted
  have hold := inv.holds c.caller htid
  cases c with
  | malloc current size =>
      simp only [next, myMalloc_of_initialised inv]
      change ((s.pool.mallocFor (Pool.callerTid current) size).1.metadata _).Holds _
        (Function.update s.blocks (Pool.callerTid current) _ _)
      rw [HeapCall.caller, Pool.metadata_mallocFor, Function.update_self]
      exact hold.malloc size
  | free current ptr =>
      obtain ⟨-, hlow, hhigh⟩ := permitted
      change ((s.pool.myFree current ptr).metadata (Pool.callerTid current)).Holds _
        (Function.update s.blocks (Pool.callerTid current) _ _)
      rw [HeapCall.caller, Pool.metadata_myFree, Function.update_self]
      apply hold.free
      have hpages := inv.pages
      change Pool.callerTid current < 32 at htid
      change s.pool.gHeapPages = s.pool.gPages + 4096 at hpages
      change ptr < s.pool.gPages + 33554432 at hhigh
      change ptrOffset (s.pool.gHeapPages + Pool.callerTid current * 4096) ptr = _
      exact ptrOffset_eq (by omega) (by omega)
  | store t address byte =>
      obtain ⟨-, b, hb, hlow, hhigh⟩ := permitted
      have hinside := hold.inside hb
      have hbelow := inv.record_le_page t
      have hsame : (s.next (.store t address byte)).pool.metadata t = s.pool.metadata t := by
        apply HeapMetadataT.load_congr
        intro x hx hx'
        change x < s.pool.threadHeapMetadata t + metadataSize at hx'
        change s.pool.threadHeapBase t ≤ b.address ∧ _ at hinside
        change Function.update s.pool.memory address byte x = _
        rw [Function.update_of_ne (by omega)]
      rw [HeapCall.caller, hsame]
      exact hold
  | exit t =>
      change ((s.pool.reclaimCurrentHeap t).metadata t).Holds _ (Function.update s.blocks t [] t)
      rw [s.pool.metadata_reclaimCurrentHeap t (inv.record_le_page t), Function.update_self]
      exact .zero _
  | create t => exact hold

theorem live_next_of_ne {c : HeapCall} (hne : t ≠ c.caller) : (s.next c).live t = s.live t := by
  cases c with
  | malloc _ _ | free _ _ | store _ _ _ => rfl
  | exit _ | create _ => exact Function.update_of_ne hne _ _

/-- The caller of a call that leaves it dead has ended, and its heap is as new. -/
theorem caller_idle (inv : s.Inv) {c : HeapCall} (permitted : s.Permitted c)
    (hidle : (s.next c).live c.caller = false) :
    (s.next c).pool.metadata c.caller = .zero ∧ (s.next c).blocks c.caller = [] := by
  cases c with
  | malloc current size => exact absurd (hidle.symm.trans permitted) (by decide)
  | free current ptr => exact absurd (hidle.symm.trans permitted.1) (by decide)
  | store t address byte => exact absurd (hidle.symm.trans permitted.1) (by decide)
  | exit t =>
      refine ⟨s.pool.metadata_reclaimCurrentHeap t (inv.record_le_page t), ?_⟩
      change Function.update s.blocks t [] t = []
      rw [Function.update_self]
  | create t =>
      change Function.update s.live t true t = false at hidle
      rw [Function.update_self] at hidle
      cases hidle

/-- A call keeps the invariant: its caller's heap follows its own metadata, and
the other heaps stay. -/
theorem Inv.next (inv : s.Inv) {c : HeapCall} (permitted : s.Permitted c) : (s.next c).Inv := by
  obtain ⟨hinit, hpages, hmetadata, hheap⟩ := next_layout inv c
  have htid := permitted_tid inv permitted
  have hbase : ∀ t, (s.next c).pool.threadHeapBase t = s.pool.threadHeapBase t := by
    intro t
    rw [Pool.threadHeapBase, hheap]
    rfl
  refine ⟨hinit.trans inv.initialised, ?_, ?_, ?_, ?_, ?_⟩
  · rw [hmetadata, hpages]
    exact inv.records
  · rw [hheap, hpages]
    exact inv.pages
  · intro t ht
    by_cases hne : t = c.caller
    · rw [hne]
      exact htid
    · rw [live_next_of_ne hne] at ht
      exact inv.tids t ht
  · intro t ht
    rw [hbase]
    by_cases hne : t = c.caller
    · rw [hne]
      exact next_holds inv permitted
    · have kept := next_kept inv permitted ht hne
      rw [kept.metadata hmetadata, kept.blocks]
      exact inv.holds t ht
  · intro t ht hidle
    by_cases hne : t = c.caller
    · rw [hne] at hidle ⊢
      exact caller_idle inv permitted hidle
    · have kept := next_kept inv permitted ht hne
      rw [live_next_of_ne hne] at hidle
      rw [kept.metadata hmetadata, kept.blocks]
      exact inv.idle t ht hidle

theorem Inv.started (h : s.Started) : s.Inv := by
  obtain ⟨⟨p, mapped, hpool⟩, htids, hblocks⟩ := h
  have hzero : ∀ t, t < maxMutexNum → s.pool.metadata t = .zero := by
    intro t ht
    apply HeapMetadataT.load_of_zero
    intro x hx hx'
    rw [hpool] at hx hx' ⊢
    change t < 32 at ht
    change mapped + t * 76 ≤ x at hx
    change x < mapped + t * 76 + 76 at hx'
    change write p.memory mapped (fun _ : Fin poolSize => 0) x = 0
    rw [write, dif_pos]
    change mapped ≤ x ∧ x - mapped < 33554432
    omega
  refine ⟨by rw [hpool], by rw [hpool]; rfl, by rw [hpool]; rfl, htids, ?_, ?_⟩
  · intro t ht
    rw [hzero t ht, hblocks t]
    exact .zero _
  · intro t ht _
    exact ⟨hzero t ht, hblocks t⟩

theorem Inv.reachable (reach : Runs.Reachable Started Permitted Step s) : s.Inv := by
  refine reach.invariant Inv ?_ ?_
  · exact fun s started => .started started
  · intro s c s' permitted taken inv
    rw [taken]
    exact inv.next permitted

/-- The live blocks of all threads are apart from each other and from the
metadata, and lie in the pool. -/
structure BlocksApart (s : Heaps) : Prop where
  own : ∀ t, s.live t = true → (s.blocks t).Pairwise Block.Apart
  others : ∀ t t' b b', s.live t = true → s.live t' = true → t ≠ t' → b ∈ s.blocks t →
    b' ∈ s.blocks t' → b.Apart b'
  metadata : ∀ t b, s.live t = true → b ∈ s.blocks t →
    b.Apart ⟨s.pool.gMetadata, maxMutexNum * metadataSize⟩
  pool : ∀ t b, s.live t = true → b ∈ s.blocks t →
    s.pool.gPages ≤ b.address ∧ b.address + b.size ≤ s.pool.gPages + poolSize

theorem Inv.blocksApart (inv : s.Inv) : s.BlocksApart := by
  have hplace : ∀ t b, s.live t = true → b ∈ s.blocks t → t < 32 ∧
      s.pool.gPages + 4096 + t * 4096 ≤ b.address ∧
      b.address + b.size ≤ s.pool.gPages + 4096 + t * 4096 + 4096 := by
    intro t b ht hb
    have hlt := inv.tids t ht
    have hinside := (inv.holds t hlt).inside hb
    rw [Pool.threadHeapBase, inv.pages] at hinside
    exact ⟨hlt, hinside⟩
  refine ⟨fun t ht => (inv.holds t (inv.tids t ht)).apart, ?_, ?_, ?_⟩
  · intro t t' b b' ht ht' hne hb hb'
    have h := hplace t b ht hb
    have h' := hplace t' b' ht' hb'
    rcases Nat.lt_or_gt_of_ne hne with hlt | hlt
    · exact .inl (by omega)
    · exact .inr (by omega)
  · intro t b ht hb
    have h := hplace t b ht hb
    right
    rw [inv.records]
    change s.pool.gPages + 2432 ≤ b.address
    omega
  · intro t b ht hb
    have h := hplace t b ht hb
    change _ ∧ _ ≤ s.pool.gPages + 33554432
    omega

/-- No slot of the thread's page is taken. -/
def AllFree (s : Heaps) (t : Nat) : Prop := ∀ r i, (s.pool.metadata t).flag r i = 0

/-- In every reachable state the blocks are apart; a call keeps the heaps of the
other threads; and a thread that is created finds every slot free. -/
theorem heaps_isolated (reach : Runs.Reachable Started Permitted Step s) :
    s.BlocksApart ∧
      (∀ c s', s.Permitted c → s.Step c s' → ∀ t, t < maxMutexNum → t ≠ c.caller → Kept s s' t) ∧
      ∀ t s', s.Permitted (.create t) → s.Step (.create t) s' → s'.AllFree t := by
  have inv := Inv.reachable reach
  refine ⟨inv.blocksApart, ?_, ?_⟩
  · intro c s' permitted taken t ht hne
    rw [taken]
    exact next_kept inv permitted ht hne
  · intro t s' permitted taken r i
    have hfree := (inv.idle t permitted.2 permitted.1).1
    rw [taken]
    change (s.pool.metadata t).flag r i = 0
    rw [hfree]
    rfl

/-- Two threads with a block each, of which the second has tried to free the first. -/
theorem heaps_isolated_two : ∃ s : Heaps, s.blocks 0 = [⟨0x70001000, 20⟩] ∧
    s.blocks 1 = [⟨0x70002400, 40⟩] ∧ s.BlocksApart := by
  let s₀ : Heaps :=
    { pool := { Pool.myMallocInit 0x70000000 ⟨fun _ => 0, 0, 0, 0, false⟩ with gMallocInit := true }
      live := fun t => decide (t < 2)
      blocks := fun _ => [] }
  let s₁ := s₀.next (.malloc (some 0) 20)
  let s₂ := s₁.next (.malloc (some 1) 40)
  let s₃ := s₂.next (.free (some 1) 0x70001000)
  have started : s₀.Started := by
    refine ⟨⟨_, _, rfl⟩, ?_, fun _ => rfl⟩
    intro t ht
    have hlt : t < 2 := of_decide_eq_true ht
    change t < 32
    omega
  have first : s₀.Permitted (.malloc (some 0) 20) := rfl
  have second : s₁.Permitted (.malloc (some 1) 40) := by
    rw [Permitted]
    decide +kernel
  have frees : s₂.Permitted (.free (some 1) 0x70001000) := by
    rw [Permitted]
    decide +kernel
  have to₁ : s₀.Step (.malloc (some 0) 20) s₁ := rfl
  have to₂ : s₁.Step (.malloc (some 1) 40) s₂ := rfl
  have to₃ : s₂.Step (.free (some 1) 0x70001000) s₃ := rfl
  have reach : Runs.Reachable Started Permitted Step s₃ :=
    ⟨s₀, _, started, .cons first to₁ (.cons second to₂ (.single frees to₃))⟩
  exact ⟨s₃, by decide +kernel, by decide +kernel, (heaps_isolated reach).1⟩

end Heaps

end OsDesign.Code
