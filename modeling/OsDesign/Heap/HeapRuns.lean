import OsDesign.Heap.TrunkLayout

/-!
Runs of `my_malloc` and `my_free` by one thread. The live blocks keep apart from
each other and from the metadata for as long as no call needs a 54th trunk; the
record of that trunk reaches into the page of the first one.
-/
namespace OsDesign.Heap

open Virt ByteStore

/-- A thread's heap with the blocks it has not freed. -/
structure HeapRun where
  heap : ThreadHeap
  blocks : List Block

/-- The calls of the thread, and its stores. -/
inductive HeapUse
  | malloc (size : Nat)
  | free (ptr : Nat)
  | store (address : Nat) (byte : UInt8)

namespace HeapRun

def next (s : HeapRun) : HeapUse → Except Stop HeapRun
  | .malloc size =>
      match s.heap.myMalloc size with
      | .error stop => .error stop
      | .ok (heap, ptr) => .ok ⟨heap, grow s.blocks size ptr⟩
  | .free ptr =>
      match s.heap.myFree ptr with
      | .error stop => .error stop
      | .ok heap => .ok ⟨heap, release s.blocks ptr⟩
  | .store address byte =>
      match s.heap.process.store address byte with
      | .error stop => .error stop
      | .ok process => .ok { s with heap := { s.heap with process := process } }

def Step (s : HeapRun) (e : HeapUse) (s' : HeapRun) : Prop := s.next e = .ok s'

/-- What is freed is a live block, and stores go to live blocks. -/
def Permitted (s : HeapRun) : HeapUse → Prop
  | .malloc _ => True
  | .free ptr => ∃ b, b ∈ s.blocks ∧ b.address = ptr
  | .store address _ => ∃ b, b ∈ s.blocks ∧ b.address ≤ address ∧ address < b.address + b.size

/-- The running thread has no page and its heap is not initialised. -/
def Uninitialised (s : HeapRun) : Prop :=
  (∃ main t, Runs.Reachable (fun p => p = Process.start main) Process.Enabled Process.Step
      s.heap.process ∧ s.heap.process.current = some t ∧
      ∀ j, j < maxVirtualPages → s.heap.process.vm.view t j = .unused) ∧
    s.heap.heapInit = false ∧ s.heap.heapTrunkCount = 0 ∧ s.blocks = []

/-- With 53 trunks, a request finds a free slot in one of them. -/
def FitsFirstPage (s : HeapRun) : HeapUse → Prop
  | .malloc size => s.heap.heapTrunkCount = maxTrunks → s.heap.Room size
  | _ => True

/-- The live blocks are apart from each other and from the records in use, and
lie in pages of the running thread below the share section. -/
structure LaidOut (s : HeapRun) : Prop where
  apart : s.blocks.Pairwise Block.Apart
  metadata : ∀ b, b ∈ s.blocks →
    b.Apart ⟨s.heap.gMetadata, s.heap.heapTrunkCount * metadataSize⟩
  pages : ∀ b address, b ∈ s.blocks → b.address ≤ address → address < b.address + b.size →
    ∃ t p, s.heap.process.current = some t ∧ virtualHeapStart ≤ address ∧
      address < virtualShareStart ∧
      s.heap.process.vm.view t (miGetpteindex address) = .inMemory p

/-- Before and after `my_malloc_init`. -/
def Inv (s : HeapRun) : Prop :=
  ∃ t, (s.heap.Filled t 0 ∧ s.heap.heapInit = false ∧ s.heap.heapTrunkCount = 0 ∧ s.blocks = []) ∨
    (s.heap.Ready t ∧ s.heap.Holding s.blocks)

variable {s s' : HeapRun}

theorem Inv.uninitialised (h : s.Uninitialised) : s.Inv := by
  obtain ⟨⟨main, t, reach, hcurrent, hunused⟩, hinit, hcount, hblocks⟩ := h
  have inv := Process.Inv.reachable (fun _ _ h => h) reach
  exact ⟨t, .inl ⟨⟨inv, hcurrent, fun j hj => absurd hj (Nat.not_lt_zero j),
    fun j _ => hunused j⟩, hinit, hcount, hblocks⟩⟩

theorem Inv.malloc (inv : s.Inv) {size : Nat} (fits : s.FitsFirstPage (.malloc size))
    {heap : ThreadHeap} {ptr : Option Nat} (taken : s.heap.myMalloc size = .ok (heap, ptr)) :
    (⟨heap, grow s.blocks size ptr⟩ : HeapRun).Inv := by
  obtain ⟨t, ⟨filled, hinit, hcount, hblocks⟩ | ⟨ready, holding⟩⟩ := inv
  · simp only [ThreadHeap.myMalloc, filled.current, hinit, if_true] at taken
    cases hstarted : s.heap.myMallocInit with
    | error stop => simp [hstarted] at taken
    | ok h =>
        simp only [hstarted] at taken
        obtain ⟨ready, holding, hone, -⟩ := filled.myMallocInit hstarted
        have hfew : h.heapTrunkCount ≠ maxTrunks := by
          rw [hone]
          decide
        rw [hblocks]
        exact ⟨t, .inr (ready.mallocInitialised holding (fun hfull => absurd hfull hfew) taken)⟩
  · simp only [ThreadHeap.myMalloc, ready.filled.current, ready.init] at taken
    exact ⟨t, .inr (ready.mallocInitialised holding fits taken)⟩

theorem Inv.step (inv : s.Inv) {e : HeapUse} (permitted : s.Permitted e)
    (fits : s.FitsFirstPage e) (taken : s.Step e s') : s'.Inv := by
  cases e with
  | malloc size =>
      simp only [Step, next] at taken
      cases h : s.heap.myMalloc size with
      | error stop => simp [h] at taken
      | ok result =>
          simp only [h, Except.ok.injEq] at taken
          rw [← taken]
          exact inv.malloc fits h
  | free ptr =>
      obtain ⟨b, hb, rfl⟩ := permitted
      simp only [Step, next] at taken
      cases h : s.heap.myFree b.address with
      | error stop => simp [h] at taken
      | ok heap =>
          simp only [h, Except.ok.injEq] at taken
          rw [← taken]
          obtain ⟨t, ⟨-, -, -, hblocks⟩ | ⟨ready, holding⟩⟩ := inv
          · rw [hblocks] at hb
            cases hb
          · exact ⟨t, .inr (ready.myFree holding hb h)⟩
  | store address byte =>
      obtain ⟨b, hb, hlow, hhigh⟩ := permitted
      obtain ⟨t, ⟨-, -, -, hblocks⟩ | ⟨ready, holding⟩⟩ := inv
      · rw [hblocks] at hb
        cases hb
      · simp only [Step, next] at taken
        cases h : s.heap.process.store address byte with
        | error stop => simp [h] at taken
        | ok process =>
            simp only [h, Except.ok.injEq] at taken
            rw [← taken]
            exact ⟨t, .inr (ready.store holding hb hlow hhigh h)⟩

theorem Inv.laidOut (inv : s.Inv) : s.LaidOut := by
  obtain ⟨t, ⟨-, -, -, hblocks⟩ | ⟨ready, holding⟩⟩ := inv
  · have hnone : ∀ b, b ∉ s.blocks := by
      intro b hb
      rw [hblocks] at hb
      cases hb
    refine ⟨?_, fun b hb => absurd hb (hnone b), fun b _ hb => absurd hb (hnone b)⟩
    rw [hblocks]
    exact .nil
  · have hfew := ready.few
    change s.heap.heapTrunkCount ≤ 53 at hfew
    refine ⟨holding.apart ready, ?_, ?_⟩
    · intro b hb
      have hinside := holding.inside ready hb
      right
      rw [ready.metadataAt]
      change 0x60000000 + s.heap.heapTrunkCount * 76 ≤ b.address
      omega
    · intro b address hb hlow hhigh
      have hinside := holding.inside ready hb
      have hstart : virtualHeapStart ≤ address := by
        change 0x60000000 ≤ address
        omega
      have hpage : miGetpteindex address < s.heap.heapTrunkCount + 1 := by
        change (address - 0x60000000) / 4096 < _
        omega
      obtain ⟨p, hp⟩ := ready.filled.filled _ hpage
      refine ⟨t, p, ready.filled.current, hstart, ?_, hp⟩
      change address < 0x607FC000
      omega

/-- While no request needs a 54th trunk, the blocks and the records keep apart. -/
theorem laid_out_of_reachable (reach : Runs.Reachable Uninitialised
    (fun s e => s.Permitted e ∧ s.FitsFirstPage e) Step s) : s.LaidOut := by
  have inv : s.Inv := by
    refine reach.invariant Inv ?_ ?_
    · exact fun s h => .uninitialised h
    · intro s e s' permitted taken inv
      exact inv.step permitted.1 permitted.2 taken
  exact inv.laidOut

/-! The run that takes 54 trunks. Thread 0, the main thread, has a block in the
first trunk; each `malloc(0)` then finds no slot and takes a trunk more. -/

/-- The main thread has the first `n` pages, and as many frames are taken. -/
def HasPages (h : ThreadHeap) (n : Nat) : Prop :=
  ∃ pages, h.process.Layout 0 pages n 0 ∧ pages 0 = n

variable {h : ThreadHeap} {n : Nat}

theorem HasPages.morePage (has : HasPages h n) (room : n < maxVirtualPages) :
    ∃ process, h.morePage = .ok { h with process := process } ∧
      HasPages { h with process := process } (n + 1) := by
  obtain ⟨pages, layout, hpages⟩ := has
  have hframes : n < maxPhysicalPages := by
    rw [maxVirtualPages_eq] at room
    rw [maxPhysicalPages_eq]
    omega
  obtain ⟨process, -, taken, layout', -⟩ := layout.allocate_of_room (hpages ▸ room) hframes
  refine ⟨process, ?_, _, layout', ?_⟩
  · obtain ⟨address, hpage⟩ := Process.allocatePage_of_step taken
    simp only [ThreadHeap.morePage, hpage]
  · rw [Function.update_self, hpages]

/-- A request for nothing finds no slot in any trunk. -/
theorem mallocFrom_zero (h : ThreadHeap) (turns i : Nat) :
    ThreadHeap.mallocFrom 0 turns i h = .ok (h, none) := by
  induction turns generalizing i with
  | zero => rfl
  | succ turns ih => exact ih (i + 1)

/-- `malloc(0)` takes a page and counts a trunk before it returns `NULL`. -/
theorem myMalloc_zero (h : ThreadHeap) (has : HasPages h n) (room : n < maxVirtualPages)
    (hinit : h.heapInit = true) :
    ∃ heap, h.myMalloc 0 = .ok (heap, none) ∧ HasPages heap (n + 1) ∧ heap.heapInit = true ∧
      heap.heapTrunkCount = h.heapTrunkCount + 1 ∧ heap.gMetadata = h.gMetadata := by
  obtain ⟨process, hmore, has'⟩ := has.morePage room
  obtain ⟨pages, layout, -⟩ := has
  refine ⟨({ h with process := process } : ThreadHeap).withTrunk, ?_, has', hinit, rfl, rfl⟩
  simp only [ThreadHeap.myMalloc, layout.current, hinit, ThreadHeap.mallocInitialised,
    mallocFrom_zero, hmore]
  rfl

theorem malloc_zero (s : HeapRun) (has : HasPages s.heap n) (room : n < maxVirtualPages)
    (hinit : s.heap.heapInit = true) :
    ∃ heap, s.Step (.malloc 0) ⟨heap, s.blocks⟩ ∧ HasPages heap (n + 1) ∧
      heap.heapInit = true ∧ heap.heapTrunkCount = s.heap.heapTrunkCount + 1 ∧
      heap.gMetadata = s.heap.gMetadata := by
  obtain ⟨heap, hmalloc, hrest⟩ := myMalloc_zero s.heap has room hinit
  refine ⟨heap, ?_, hrest⟩
  simp only [Step, next, hmalloc]
  rfl

theorem malloc_zero_many (k : Nat) (s : HeapRun) (has : HasPages s.heap n)
    (room : n + k ≤ maxVirtualPages) (hinit : s.heap.heapInit = true) :
    ∃ heap, Runs.Steps Permitted Step s (List.replicate k (.malloc 0)) ⟨heap, s.blocks⟩ ∧
      heap.heapTrunkCount = s.heap.heapTrunkCount + k ∧ heap.gMetadata = s.heap.gMetadata := by
  induction k generalizing s n with
  | zero => exact ⟨s.heap, .nil s, rfl, rfl⟩
  | succ k ih =>
      obtain ⟨heap, taken, has', hinit', hcount, hmetadata⟩ :=
        malloc_zero s has (by omega) hinit
      obtain ⟨heap', run, hcount', hmetadata'⟩ := ih ⟨heap, s.blocks⟩ has' (by omega) hinit'
      refine ⟨heap', .cons trivial taken run, ?_, hmetadata'.trans hmetadata⟩
      rw [hcount']
      change heap.heapTrunkCount + k = _
      omega

/-- The main thread has created thread 1 and not called `my_malloc`. -/
def created : HeapRun := ⟨⟨(Process.start 0).create 1, false, 0, 0, 0⟩, []⟩

theorem created_hasPages : HasPages created.heap 0 := ⟨_, Process.Layout.created, rfl⟩

theorem created_uninitialised : created.Uninitialised := by
  have creates : (Process.start 0).Enabled (.create 1) := rfl
  refine ⟨⟨0, 0, ⟨_, _, rfl, .single creates rfl⟩, rfl, ?_⟩, rfl, rfl, rfl⟩
  intro j hj
  exact (Process.Layout.created.filled 0 j hj).mpr (Nat.zero_le j)

theorem HasPages.setMetadata (has : HasPages h n) (i : Nat) (md : HeapMetadataT) :
    HasPages (h.setMetadata i md) n := by
  obtain ⟨pages, layout, hpages⟩ := has
  exact ⟨pages, ⟨layout.inv.stored _, layout.current, layout.live, layout.filled, layout.frames,
    layout.slots⟩, hpages⟩

/-- The first block lies in the first trunk. -/
theorem first_malloc {size a : Nat} {md : HeapMetadataT}
    (hok : HeapMetadataT.zero._malloc 0x60001000 size = (md, some a)) :
    ∃ heap, created.Step (.malloc size) ⟨heap, [⟨a, size⟩]⟩ ∧ HasPages heap 2 ∧
      heap.Ready 0 ∧ heap.heapTrunkCount = 1 ∧ heap.metadata 0 = md := by
  have hpages := maxVirtualPages_eq
  obtain ⟨process₁, hfirst, has₁⟩ := created_hasPages.morePage (by omega)
  obtain ⟨process₂, hsecond, has₂⟩ := has₁.morePage (by omega)
  let h : ThreadHeap := ⟨process₂, true, 1, virtualHeapStart, virtualHeapStart + pageSize⟩
  have hinit : created.heap.myMallocInit = .ok h := by
    simp only [ThreadHeap.myMallocInit, hfirst, hsecond]
    rfl
  have filled : created.heap.Filled 0 0 :=
    ⟨Process.Layout.created.inv, rfl, fun j hj => absurd hj (Nat.not_lt_zero j),
      fun j _ hj => (Process.Layout.created.filled 0 j hj).mpr (Nat.zero_le j)⟩
  obtain ⟨ready, -, -, hzero⟩ := filled.myMallocInit hinit
  have hbase : h.trunkBase 0 = 0x60001000 := rfl
  rw [← hzero, ← hbase] at hok
  have htrunk := ready.mallocTrunk_some (by decide) hok
  have hmalloc : created.heap.myMalloc size = .ok (h.setMetadata 0 md, some a) := by
    have hcurrent : created.heap.process.current = some 0 := rfl
    have hfresh : created.heap.heapInit = false := rfl
    have hone : h.heapTrunkCount = 1 := rfl
    simp only [ThreadHeap.myMalloc, hcurrent, hfresh, if_true, hinit,
      ThreadHeap.mallocInitialised, hone, ThreadHeap.mallocFrom, htrunk]
  have has : HasPages h 2 := has₂
  refine ⟨h.setMetadata 0 md, ?_, has.setMetadata 0 md, ready.setMetadata Nat.one_pos md, rfl,
    ThreadHeap.metadata_setMetadata_self h 0 md⟩
  simp only [Step, next, hmalloc]
  rfl

section OneTrunk

variable {size a : Nat} {md : HeapMetadataT}

/-- The one trunk there is has a slot. -/
theorem malloc_same_trunk (ready : s.heap.Ready 0) (hone : s.heap.heapTrunkCount = 1)
    (hok : (s.heap.metadata 0)._malloc 0x60001000 size = (md, some a)) :
    s.Step (.malloc size) ⟨s.heap.setMetadata 0 md, ⟨a, size⟩ :: s.blocks⟩ := by
  have hbase : s.heap.trunkBase 0 = 0x60001000 := ready.trunkBase_eq 0
  rw [← hbase] at hok
  have htrunk := ready.mallocTrunk_some (by decide) hok
  have hmalloc : s.heap.myMalloc size = .ok (s.heap.setMetadata 0 md, some a) := by
    simp only [ThreadHeap.myMalloc, ready.filled.current, ready.init, reduceCtorEq, if_false,
      ThreadHeap.mallocInitialised, hone, ThreadHeap.mallocFrom, htrunk]
  simp only [Step, next, hmalloc]
  rfl

/-- The one trunk has no slot of the size, and the block comes from a second one. -/
theorem malloc_second_trunk (ready : s.heap.Ready 0) (has : HasPages s.heap n)
    (room : n < maxVirtualPages) (hone : s.heap.heapTrunkCount = 1)
    (full : ((s.heap.metadata 0)._malloc 0x60001000 size).2 = none)
    (hok : HeapMetadataT.zero._malloc 0x60002000 size = (md, some a)) :
    ∃ heap, s.Step (.malloc size) ⟨heap, ⟨a, size⟩ :: s.blocks⟩ := by
  obtain ⟨process, hmore, -⟩ := has.morePage room
  have few : s.heap.heapTrunkCount < maxTrunks := by
    rw [hone]
    decide
  obtain ⟨ready', hrecords⟩ := ready.extend few hmore
  let h : ThreadHeap := ({ s.heap with process := process } : ThreadHeap).withTrunk
  have hblank : h.metadata 1 = .zero := by
    rw [hrecords 1 (by decide)]
    exact ready.blank 1 (Nat.le_of_eq hone) (by decide)
  have hbase : s.heap.trunkBase 0 = 0x60001000 := ready.trunkBase_eq 0
  have hbase' : h.trunkBase 1 = 0x60002000 := ready'.trunkBase_eq 1
  rw [← hblank, ← hbase'] at hok
  rw [← hbase] at full
  have hnone := ready.mallocTrunk_none (by decide) full
  have htrunk := ready'.mallocTrunk_some (by decide) hok
  have hfrom : ThreadHeap.mallocFrom size s.heap.heapTrunkCount 0 s.heap = .ok (s.heap, none) := by
    rw [hone]
    simp only [ThreadHeap.mallocFrom, hnone]
  have hserved : s.heap.mallocInitialised size = .ok (h.setMetadata 1 md, some a) := by
    simp only [ThreadHeap.mallocInitialised, hfrom, hmore]
    change h.mallocTrunk (s.heap.heapTrunkCount + 1 - 1) size = _
    rw [hone]
    exact htrunk
  have hmalloc : s.heap.myMalloc size = .ok (h.setMetadata 1 md, some a) := by
    simp only [ThreadHeap.myMalloc, ready.filled.current, ready.init, reduceCtorEq, if_false,
      hserved]
  refine ⟨h.setMetadata 1 md, ?_⟩
  simp only [Step, next, hmalloc]
  rfl

end OneTrunk

/-- Two blocks of 512 bytes fill the class in the first trunk, and the third one lies in
the second trunk. -/
theorem laid_out_two_trunks : ∃ s : HeapRun,
    s.blocks = [⟨0x60002c00, 512⟩, ⟨0x60001e00, 512⟩, ⟨0x60001c00, 512⟩] ∧ s.LaidOut := by
  have hpages := maxVirtualPages_eq
  let md₁ := HeapMetadataT.zero.occupy .region512 (0 : Fin 2)
  let md₂ := md₁.occupy .region512 (1 : Fin 2)
  have hok₁ : HeapMetadataT.zero._malloc 0x60001000 512 = (md₁, some 0x60001c00) := rfl
  obtain ⟨heap₁, taken₁, has₁, ready₁, hone₁, hmd₁⟩ := first_malloc hok₁
  have hok₂ : (heap₁.metadata 0)._malloc 0x60001000 512 = (md₂, some 0x60001e00) := by
    rw [hmd₁]
    rfl
  let s₁ : HeapRun := ⟨heap₁, [⟨0x60001c00, 512⟩]⟩
  let s₂ : HeapRun := ⟨heap₁.setMetadata 0 md₂, ⟨0x60001e00, 512⟩ :: s₁.blocks⟩
  have taken₂ : s₁.Step (.malloc 512) s₂ := malloc_same_trunk ready₁ hone₁ hok₂
  have ready₂ := ready₁.setMetadata (by rw [hone₁]; exact Nat.one_pos) md₂
  have hfull : (s₂.heap.metadata 0)._malloc 0x60001000 512 = (md₂, none) := by
    rw [ThreadHeap.metadata_setMetadata_self]
    rfl
  obtain ⟨heap₃, taken₃⟩ := malloc_second_trunk (s := s₂) (n := 2) ready₂
    (has₁.setMetadata 0 md₂) (by omega) hone₁ (by rw [hfull]) rfl
  have fits : ∀ s : HeapRun, s.heap.heapTrunkCount < maxTrunks →
      s.Permitted (.malloc 512) ∧ s.FitsFirstPage (.malloc 512) :=
    fun s hfew => ⟨trivial, fun hfull => absurd hfull (Nat.ne_of_lt hfew)⟩
  have hfew : heap₁.heapTrunkCount < maxTrunks := by
    rw [hone₁]
    decide
  exact ⟨_, rfl, laid_out_of_reachable ⟨created, _, created_uninitialised,
    .cons (fits created (by decide)) taken₁ (.cons (fits s₁ hfew) taken₂
      (.single (fits s₂ hfew) taken₃))⟩⟩

theorem first_slot : HeapMetadataT.zero._malloc 0x60001000 32 =
    (HeapMetadataT.zero.occupy .region32 (0 : Fin 32), some 0x60001000) := rfl

/-- A block of 32 bytes and 53 requests for nothing: the record of the 54th trunk
lies on the block. -/
theorem record_meets_block :
    ∃ s : HeapRun, Runs.Reachable Uninitialised Permitted Step s ∧ ¬ s.LaidOut := by
  have hpages := maxVirtualPages_eq
  obtain ⟨heap, taken, has, ready, hcount, -⟩ := first_malloc first_slot
  obtain ⟨heap', run, hcount', hmetadata'⟩ :=
    malloc_zero_many 53 ⟨heap, [⟨0x60001000, 32⟩]⟩ has (by omega) ready.init
  have permitted : created.Permitted (.malloc 32) := trivial
  refine ⟨_, ⟨created, _, created_uninitialised, .cons permitted taken run⟩, ?_⟩
  intro laidOut
  have hapart := laidOut.metadata _ List.mem_cons_self
  rw [hmetadata', ready.metadataAt, hcount', hcount] at hapart
  change 0x60001000 + 32 ≤ 0x60000000 ∨ 0x60000000 + 4104 ≤ 0x60001000 at hapart
  omega

end HeapRun

end OsDesign.Heap
