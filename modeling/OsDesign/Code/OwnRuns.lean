import OsDesign.Lib.Projection
import OsDesign.Code.PerThreadHeap

/-!
The heap of one thread in a run of all. What a thread allocates, frees and stores goes as if
the other threads were not there, and so does what it gets back.
-/
namespace OsDesign.Code

open ByteStore Heap Runs

namespace Heaps

variable {s s' s₁ : Heaps} {t : Nat} {es : List HeapCall}

/-- What a thread works with: the layout of the pool, the bytes of its heap, its blocks. -/
structure SameHeap (t : Nat) (s s' : Heaps) : Prop where
  initialised : s'.pool.gMallocInit = s.pool.gMallocInit
  pages : s'.pool.gPages = s.pool.gPages
  metadata : s'.pool.gMetadata = s.pool.gMetadata
  heapPages : s'.pool.gHeapPages = s.pool.gHeapPages
  bytes : ∀ x, s.pool.InHeap t x → s'.pool.memory x = s.pool.memory x
  blocks : s'.blocks t = s.blocks t
  live : s'.live t = s.live t

theorem SameHeap.refl (t : Nat) (s : Heaps) : s.SameHeap t s :=
  ⟨rfl, rfl, rfl, rfl, fun _ _ => rfl, rfl, rfl⟩

theorem SameHeap.record (same : s.SameHeap t s₁) (t' : Nat) :
    s₁.pool.threadHeapMetadata t' = s.pool.threadHeapMetadata t' := by
  rw [Pool.threadHeapMetadata, Pool.threadHeapMetadata, same.metadata]

theorem SameHeap.base (same : s.SameHeap t s₁) (t' : Nat) :
    s₁.pool.threadHeapBase t' = s.pool.threadHeapBase t' := by
  rw [Pool.threadHeapBase, Pool.threadHeapBase, same.heapPages]

theorem SameHeap.metadata_eq (same : s.SameHeap t s₁) :
    s₁.pool.metadata t = s.pool.metadata t := by
  rw [Pool.metadata, Pool.metadata, same.record]
  exact HeapMetadataT.load_congr fun x low high => same.bytes x (.inl ⟨low, high⟩)

/-- `malloc` gives the same pointer. -/
theorem SameHeap.answer (same : s.SameHeap t s₁) (inv : s.Inv) (inv₁ : s₁.Inv)
    {current : Option Nat} (mine : Pool.callerTid current = t) (size : Nat) :
    (s₁.pool.myMalloc 0 current size).2 = (s.pool.myMalloc 0 current size).2 := by
  rw [myMalloc_of_initialised inv, myMalloc_of_initialised inv₁, mine]
  simp only [Pool.mallocFor, same.metadata_eq, same.base]

theorem SameHeap.permitted (same : s.SameHeap t s₁) {c : HeapCall} (mine : c.caller = t)
    (permitted : s.Permitted c) : s₁.Permitted c := by
  subst mine
  have live := same.live
  cases c with
  | malloc current size => exact live.trans permitted
  | free current ptr =>
      refine ⟨live.trans permitted.1, ?_⟩
      rw [same.pages]
      exact permitted.2
  | store t address byte =>
      refine ⟨live.trans permitted.1, ?_⟩
      have blocks : s₁.blocks t = s.blocks t := same.blocks
      rw [blocks]
      exact permitted.2
  | exit t => exact live.trans permitted
  | create t => exact ⟨live.trans permitted.1, permitted.2⟩

/-- A call of the thread does the same to what it works with. -/
theorem SameHeap.next (same : s.SameHeap t s₁) (inv : s.Inv) (inv₁ : s₁.Inv) {c : HeapCall}
    (mine : c.caller = t) : (s.next c).SameHeap t (s₁.next c) := by
  subst mine
  obtain ⟨init, pages, metadata, heapPages⟩ := next_layout inv c
  obtain ⟨init₁, pages₁, metadata₁, heapPages₁⟩ := next_layout inv₁ c
  have inHeap : ∀ x, (s.next c).pool.InHeap c.caller x → s.pool.InHeap c.caller x := by
    intro x h
    simpa only [Pool.InHeap, Pool.threadHeapMetadata, Pool.threadHeapBase, metadata, heapPages]
      using h
  refine ⟨?_, ?_, ?_, ?_, fun x inside => ?_, ?_, ?_⟩
  · rw [init, init₁, same.initialised]
  · rw [pages, pages₁, same.pages]
  · rw [metadata, metadata₁, same.metadata]
  · rw [heapPages, heapPages₁, same.heapPages]
  · have before := same.bytes x (inHeap x inside)
    have record := same.record c.caller
    have base := same.base c.caller
    have md := same.metadata_eq
    cases c with
    | malloc current size =>
        simp only [HeapCall.caller] at record base md
        simp only [Heaps.next, myMalloc_of_initialised inv, myMalloc_of_initialised inv₁,
          Pool.mallocFor, record, base, md]
        exact HeapMetadataT.store_congr _ before
    | free current ptr =>
        simp only [HeapCall.caller] at record base md
        simp only [Heaps.next, Pool.myFree, record, base, md]
        exact HeapMetadataT.store_congr _ before
    | store t address byte =>
        simp only [Heaps.next, Function.update_apply, before]
    | exit t =>
        simp only [HeapCall.caller] at record base
        simp only [Heaps.next, Pool.reclaimCurrentHeap, record, base]
        exact write_congr _ _ (write_congr _ _ before)
    | create t => exact before
  · have blocks := same.blocks
    cases c with
    | malloc current size =>
        have answer := same.answer inv inv₁ rfl size
        simp only [HeapCall.caller] at blocks ⊢
        simp only [Heaps.next, Function.update_self, answer, blocks]
    | free current ptr =>
        simp only [HeapCall.caller] at blocks ⊢
        simp only [Heaps.next, Function.update_self, blocks]
    | store t address byte | create t => exact blocks
    | exit t => simp only [HeapCall.caller, Heaps.next, Function.update_self]
  · have live := same.live
    cases c with
    | malloc current size | free current ptr | store t address byte => exact live
    | exit t | create t => simp only [HeapCall.caller, Heaps.next, Function.update_self]

/-- A call of another thread. -/
theorem SameHeap.foreign (same : s.SameHeap t s₁) (inv : s.Inv) (ht : t < maxMutexNum)
    {c : HeapCall} (permitted : s.Permitted c) (other : t ≠ c.caller) :
    (s.next c).SameHeap t s₁ := by
  obtain ⟨init, pages, metadata, heapPages⟩ := next_layout inv c
  have kept := next_kept inv permitted ht other
  refine ⟨same.initialised.trans init.symm, same.pages.trans pages.symm,
    same.metadata.trans metadata.symm, same.heapPages.trans heapPages.symm, fun x inside => ?_,
    same.blocks.trans kept.blocks.symm, same.live.trans (live_next_of_ne other).symm⟩
  have before : s.pool.InHeap t x := by
    simpa only [Pool.InHeap, Pool.threadHeapMetadata, Pool.threadHeapBase, metadata, heapPages]
      using inside
  rw [kept.bytes x before]
  exact same.bytes x before

theorem separate (ht : t < maxMutexNum) :
    Projection.Separate Permitted Heaps.next HeapCall.caller Inv t (SameHeap t) where
  kept _ _ inv permitted := inv.next permitted
  foreign _ _ _ inv permitted other same := same.foreign inv ht permitted fun h => other h.symm
  own _ _ _ inv inv₁ permitted mine same :=
    ⟨same.permitted mine permitted, same.next inv inv₁ mine⟩

/-- In every run, whatever the others do in between, a thread's heap is as after its own
calls alone, and so is the answer to its next `malloc`. -/
theorem heap_as_if_alone (started : s.Started) (run : Steps Permitted Step s es s')
    (ht : t < maxMutexNum) :
    ∃ s₁, Steps Permitted Step s (es.filter fun c => c.caller = t) s₁ ∧ s'.SameHeap t s₁ ∧
      ∀ current size, Pool.callerTid current = t →
        (s₁.pool.myMalloc 0 current size).2 = (s'.pool.myMalloc 0 current size).2 := by
  have inv : s.Inv := .started started
  obtain ⟨s₁, alone, same⟩ := (separate ht).alone inv inv (.refl t s) run
  have inv' : s'.Inv := .reachable ⟨s, es, started, run⟩
  have inv₁ : s₁.Inv := .reachable ⟨s, _, started, alone⟩
  exact ⟨s₁, alone, same, fun current size mine => same.answer inv' inv₁ mine size⟩

/-- Two threads get a block, and the second tries to free that of the first. -/
theorem heap_as_if_alone_two : ∃ s s' s₁ : Heaps,
    Steps Permitted Step s [.malloc (some 0) 20, .malloc (some 1) 40, .free (some 1) 0x70001000]
        s' ∧
      Steps Permitted Step s [.malloc (some 1) 40, .free (some 1) 0x70001000] s₁ ∧
      s'.SameHeap 1 s₁ := by
  let s₀ : Heaps :=
    { pool := { Pool.myMallocInit 0x70000000 ⟨fun _ => 0, 0, 0, 0, false⟩ with gMallocInit := true }
      live := fun t => decide (t < 2)
      blocks := fun _ => [] }
  have started : s₀.Started := by
    refine ⟨⟨_, _, rfl⟩, ?_, fun _ => rfl⟩
    intro t ht
    have hlt : t < 2 := of_decide_eq_true ht
    change t < 32
    omega
  let s₁ := s₀.next (.malloc (some 0) 20)
  let s₂ := s₁.next (.malloc (some 1) 40)
  let s₃ := s₂.next (.free (some 1) 0x70001000)
  have first : s₀.Permitted (.malloc (some 0) 20) := rfl
  have second : s₁.Permitted (.malloc (some 1) 40) := by
    rw [Permitted]
    decide +kernel
  have frees : s₂.Permitted (.free (some 1) 0x70001000) := by
    rw [Permitted]
    decide +kernel
  have to₁ : s₀.Step (.malloc (some 0) 20) s₁ := rfl
  have to₂ : s₁.Step (.malloc (some 1) 40) s₂ := rfl
  have to₃ : s₂.Step (.free (some 1) 0x70001000) s₃ := rfl
  have run := Steps.cons first to₁ (.cons second to₂ (.single frees to₃))
  obtain ⟨s', alone, same, -⟩ := heap_as_if_alone started run (by decide : 1 < maxMutexNum)
  exact ⟨s₀, s₃, s', run, alone, same⟩

end Heaps

end OsDesign.Code
