import OsDesign.Heap.Trunks
import OsDesign.Virt.LastByte

/-!
Where the blocks, the metadata and the pages of a thread's heap lie. The first
page has room for 53 whole records; while no more trunks are taken the blocks
meet neither each other nor a record.
-/
namespace OsDesign.Heap

open Virt ByteStore

/-- The number of records that lie in the first page of the window. -/
abbrev maxTrunks : Nat := pageSize / metadataSize

namespace ThreadHeap

/-- The running thread has the first `n` pages of the window, in memory. -/
structure Filled (h : ThreadHeap) (t : ThreadId) (n : Nat) : Prop where
  inv : h.process.Inv
  current : h.process.current = some t
  filled : ∀ j, j < n → ∃ p, h.process.vm.view t j = .inMemory p
  rest : ∀ j, n ≤ j → j < maxVirtualPages → h.process.vm.view t j = .unused

variable {h h' : ThreadHeap} {t : ThreadId} {n i size : Nat}

/-- A page more is the next page of the window, zeroed. -/
theorem Filled.morePage (filled : h.Filled t n) (room : n < maxVirtualPages)
    (taken : h.morePage = .ok h') :
    h'.Filled t (n + 1) ∧
      h'.process.vm.memory =
        write h.process.vm.memory (pageAddress n) (fun _ : Fin pageSize => 0) ∧
      h' = { h with process := h'.process } := by
  simp only [ThreadHeap.morePage] at taken
  cases hpage : h.process.allocatePage with
  | error stop => simp [hpage] at taken
  | ok result =>
      obtain ⟨process, address⟩ := result
      simp only [hpage, Except.ok.injEq] at taken
      subst taken
      rw [Process.allocatePage_of_some filled.current] at hpage
      rcases Process.mmAllocatePage_cases filled.inv t with
        ⟨-, hnone⟩ | hpanic | ⟨i, vm, p, hi, hunused, hbefore, alloc, hok⟩
      · exact absurd (filled.rest n (Nat.le_refl n) room) (hnone n room)
      · rw [hpanic] at hpage
        cases hpage
      · have hin : i = n := by
          rcases Nat.lt_trichotomy i n with hlt | heq | hgt
          · obtain ⟨q, hq⟩ := filled.filled i hlt
            rw [hunused] at hq
            cases hq
          · exact heq
          · exact absurd (filled.rest n (Nat.le_refl n) room) (hbefore n hgt)
        subst hin
        rw [hok] at hpage
        simp only [Except.map, Except.ok.injEq, Prod.mk.injEq] at hpage
        have hentry : ((h.process.vm.pagetables t i).granted p).view = .inMemory p :=
          Mmpte.view_granted _ (frame_number_lt alloc.frame_lt)
        have inv := filled.inv.grant filled.current hi (by simp [hunused]) alloc hentry
          (fun _ => 0)
        have hmemory : vm.memory = h.process.vm.memory := by cases alloc <;> rfl
        have hview : ∀ j, j ≠ i → (vm.setEntry t i
            ((h.process.vm.pagetables t i).granted p)).view t j = h.process.vm.view t j := by
          intro j hj
          rw [Vm.view_setEntry_of_ne _ _ (.inr hj), Vm.view, alloc.pagetables_current]
        rw [← hpage.1]
        refine ⟨⟨inv, filled.current, ?_, ?_⟩, ?_, rfl⟩
        · intro j hj
          change ∃ q, (vm.setEntry t i _).view t j = .inMemory q
          by_cases hji : j = i
          · refine ⟨p, ?_⟩
            rw [hji, Vm.view_setEntry_self, hentry]
          · rw [hview j hji]
            exact filled.filled j (by omega)
        · intro j hj hj'
          change (vm.setEntry t i _).view t j = .unused
          rw [hview j (by omega)]
          exact filled.rest j (by omega) hj'
        · change write vm.memory (pageAddress i) (fun _ : Fin pageSize => 0) = _
          rw [hmemory]

/-- The pages of the running thread are open. -/
theorem Filled.access (filled : h.Filled t n) {address : Nat} (hlow : virtualHeapStart ≤ address)
    (hpage : miGetpteindex address < n) (room : n ≤ maxVirtualPages) :
    h.process.access address = .ok h.process := by
  obtain ⟨p, hp⟩ := filled.filled _ hpage
  have hopen := filled.inv.opened t _ p filled.current (by omega) hp
  rw [← pageBase_eq hlow, Nat.mul_div_cancel _ (by decide : 0 < pageSize)] at hopen
  rw [Process.access, if_pos hopen]

/-- An initialised heap with no more trunks than the first page has records. The
page of trunk `i` is page `i + 1`, and the records not yet in use are zero. -/
structure Ready (h : ThreadHeap) (t : ThreadId) : Prop where
  filled : h.Filled t (h.heapTrunkCount + 1)
  init : h.heapInit = true
  metadataAt : h.gMetadata = virtualHeapStart
  pagesAt : h.gHeapPages = virtualHeapStart + pageSize
  positive : 0 < h.heapTrunkCount
  few : h.heapTrunkCount ≤ maxTrunks
  blank : ∀ i, h.heapTrunkCount ≤ i → i < maxTrunks → h.metadata i = .zero

theorem Ready.trunkBase_eq (ready : h.Ready t) (i : Nat) :
    h.trunkBase i = 0x60001000 + i * 4096 := by
  rw [trunkBase, ready.pagesAt]
  rfl

/-- A record of the first page is there without a page fault. -/
theorem Ready.openRecord (ready : h.Ready t) (hi : i < maxTrunks) : h.openRecord i = .ok h := by
  have hpages := maxVirtualPages_eq
  have hfew := ready.few
  change i < 53 at hi
  change h.heapTrunkCount ≤ 53 at hfew
  have hfirst : h.process.access (h.trunkMetadata i) = .ok h.process := by
    rw [trunkMetadata, ready.metadataAt]
    apply ready.filled.access
    · exact Nat.le_add_right _ _
    · change (0x60000000 + i * 76 - 0x60000000) / 4096 < _
      omega
    · omega
  have hlast : h.process.access (h.trunkMetadata i + (metadataSize - 1)) = .ok h.process := by
    rw [trunkMetadata, ready.metadataAt]
    apply ready.filled.access
    · rw [Nat.add_assoc]
      exact Nat.le_add_right _ _
    · change (0x60000000 + i * 76 + 75 - 0x60000000) / 4096 < _
      omega
    · omega
  simp only [ThreadHeap.openRecord, hfirst, hlast]

theorem Ready.mallocTrunk_none (ready : h.Ready t) (hi : i < maxTrunks)
    (hnull : ((h.metadata i)._malloc (h.trunkBase i) size).2 = none) :
    h.mallocTrunk i size = .ok (h, none) := by
  cases hr : Region.ofSize size with
  | none => simp only [mallocTrunk, hr]
  | some r =>
      simp only [mallocTrunk, hr, ready.openRecord hi]
      cases hmalloc : (h.metadata i)._malloc (h.trunkBase i) size with
      | mk md ptr =>
          rw [hmalloc] at hnull
          cases hnull
          rfl

theorem Ready.mallocTrunk_some (ready : h.Ready t) (hi : i < maxTrunks) {md : HeapMetadataT}
    {ptr : Nat} (hok : (h.metadata i)._malloc (h.trunkBase i) size = (md, some ptr)) :
    h.mallocTrunk i size = .ok (h.setMetadata i md, some ptr) := by
  cases hr : Region.ofSize size with
  | none => simp [HeapMetadataT._malloc, hr] at hok
  | some r => simp only [mallocTrunk, hr, ready.openRecord hi, hok]

/-- The search over the trunks finds none with a slot, or returns a block of one. -/
theorem Ready.mallocFrom_cases (ready : h.Ready t) (size turns i : Nat)
    (within : i + turns ≤ h.heapTrunkCount) :
    (mallocFrom size turns i h = .ok (h, none) ∧ ∀ k, i ≤ k → k < i + turns →
      ((h.metadata k)._malloc (h.trunkBase k) size).2 = none) ∨
    ∃ k md ptr, k < h.heapTrunkCount ∧
      (h.metadata k)._malloc (h.trunkBase k) size = (md, some ptr) ∧
      mallocFrom size turns i h = .ok (h.setMetadata k md, some ptr) := by
  induction turns generalizing i with
  | zero => exact .inl ⟨rfl, fun k hk hk' => by omega⟩
  | succ turns ih =>
      have hi : i < maxTrunks := by
        have := ready.few
        omega
      cases hmalloc : (h.metadata i)._malloc (h.trunkBase i) size with
      | mk md ptr =>
          cases ptr with
          | some ptr =>
              refine .inr ⟨i, md, ptr, by omega, hmalloc, ?_⟩
              simp only [mallocFrom, ready.mallocTrunk_some hi hmalloc]
          | none =>
              have hnull : ((h.metadata i)._malloc (h.trunkBase i) size).2 = none := by
                rw [hmalloc]
              have hnext : mallocFrom size (turns + 1) i h = mallocFrom size turns (i + 1) h := by
                simp only [mallocFrom, ready.mallocTrunk_none hi hnull]
              rw [hnext]
              rcases ih (i + 1) (by omega) with ⟨hall, hnone⟩ | hfound
              · refine .inl ⟨hall, ?_⟩
                intro k hk hk'
                rcases Nat.eq_or_lt_of_le hk with same | later
                · rw [← same]
                  exact hnull
                · exact hnone k later (by omega)
              · exact .inr hfound

theorem heapTrunkCount_setMetadata (h : ThreadHeap) (i : Nat) (md : HeapMetadataT) :
    (h.setMetadata i md).heapTrunkCount = h.heapTrunkCount := rfl

theorem metadata_setMetadata_self (h : ThreadHeap) (i : Nat) (md : HeapMetadataT) :
    (h.setMetadata i md).metadata i = md :=
  HeapMetadataT.load_store_self md _ _

theorem metadata_setMetadata_of_ne (h : ThreadHeap) {i j : Nat} (md : HeapMetadataT)
    (hne : j ≠ i) : (h.setMetadata i md).metadata j = h.metadata j := by
  apply HeapMetadataT.load_congr
  intro x hlow hhigh
  apply HeapMetadataT.store_apply_of_outside
  change h.gMetadata + j * 76 ≤ x at hlow
  change x < h.gMetadata + j * 76 + 76 at hhigh
  change x < h.gMetadata + i * 76 ∨ h.gMetadata + i * 76 + 76 ≤ x
  omega

/-- New bytes in the window leave the pages where they are. -/
theorem Filled.stored (filled : h.Filled t n) (memory : Nat → UInt8) :
    ({ h with process := { h.process with
        vm := { h.process.vm with memory := memory } } } : ThreadHeap).Filled t n :=
  ⟨filled.inv.stored memory, filled.current, filled.filled, filled.rest⟩

theorem Ready.setMetadata (ready : h.Ready t) (hi : i < h.heapTrunkCount) (md : HeapMetadataT) :
    (h.setMetadata i md).Ready t := by
  refine ⟨ready.filled.stored _, ready.init, ready.metadataAt, ready.pagesAt, ready.positive,
    ready.few, ?_⟩
  intro j hj hj'
  change h.heapTrunkCount ≤ j at hj
  rw [metadata_setMetadata_of_ne h md (by omega)]
  exact ready.blank j hj hj'

/-- The live blocks lie in the trunks, and each trunk's metadata tell its blocks. -/
structure Holding (h : ThreadHeap) (blocks : List Block) : Prop where
  held : ∀ i, i < h.heapTrunkCount →
    (h.metadata i).Holds (h.trunkBase i) (trunkBlocks blocks i)
  placed : ∀ b, b ∈ blocks → virtualHeapStart + pageSize ≤ b.address ∧
    trunkOf b.address < h.heapTrunkCount

variable {blocks : List Block} {b : Block} {ptr : Nat}

theorem metadata_setMetadata (h : ThreadHeap) (i : Nat) (md : HeapMetadataT) :
    (h.setMetadata i md).metadata = Function.update h.metadata i md := by
  funext j
  by_cases hji : j = i
  · rw [hji, metadata_setMetadata_self, Function.update_self]
  · rw [metadata_setMetadata_of_ne h md hji, Function.update_of_ne hji]

theorem Ready.trunkBase (ready : h.Ready t) (i : Nat) : h.trunkBase i = pageAddress (i + 1) := by
  rw [ready.trunkBase_eq, TrunksHold.pageAddress_succ]

theorem Ready.holding_iff (ready : h.Ready t) :
    h.Holding blocks ↔ TrunksHold h.metadata h.heapTrunkCount blocks := by
  constructor
  · intro holding
    refine ⟨?_, holding.placed⟩
    intro i hi
    rw [← ready.trunkBase]
    exact holding.held i hi
  · intro hold
    refine ⟨?_, hold.placed⟩
    intro i hi
    rw [ready.trunkBase]
    exact hold.held i hi

/-- A block of trunk `i` lies in its page. -/
theorem Holding.inside (holding : h.Holding blocks) (ready : h.Ready t) (hb : b ∈ blocks) :
    trunkOf b.address < h.heapTrunkCount ∧ 0 < b.size ∧
      0x60001000 + trunkOf b.address * 4096 ≤ b.address ∧
      b.address + b.size ≤ 0x60001000 + trunkOf b.address * 4096 + 4096 :=
  (ready.holding_iff.mp holding).inside hb

/-- A block taken from trunk `i` joins its blocks. -/
theorem Holding.grow (holding : h.Holding blocks) (ready : h.Ready t)
    (hi : i < h.heapTrunkCount) {md : HeapMetadataT}
    (hok : (h.metadata i)._malloc (h.trunkBase i) size = (md, some ptr)) :
    (h.setMetadata i md).Holding (⟨ptr, size⟩ :: blocks) := by
  rw [ready.trunkBase] at hok
  apply (ready.setMetadata hi md).holding_iff.mpr
  rw [metadata_setMetadata]
  exact (ready.holding_iff.mp holding).grow hi hok

/-- The block that is freed leaves the blocks of its trunk. -/
theorem Holding.release (holding : h.Holding blocks) (ready : h.Ready t) (hb : b ∈ blocks) :
    (h.setMetadata (trunkOf b.address) ((h.metadata (trunkOf b.address))._free
      (h.trunkBase (trunkOf b.address)) b.address)).Holding (release blocks b.address) := by
  have hold := ready.holding_iff.mp holding
  apply (ready.setMetadata (hold.inside hb).1 _).holding_iff.mpr
  rw [metadata_setMetadata, heapTrunkCount_setMetadata, ready.trunkBase]
  exact hold.free hb

/-- The bytes of the first page are not those of a later one. -/
theorem load_write_page {memory : Nat → UInt8} (hi : i < maxTrunks) (hn : 0 < n) :
    HeapMetadataT.load
        (write memory (pageAddress n) (fun _ : Fin pageSize => 0)) (virtualHeapStart + i * 76) =
      HeapMetadataT.load memory (virtualHeapStart + i * 76) := by
  apply HeapMetadataT.load_congr
  intro x _ hx
  apply write_apply_of_outside
  left
  change i < 53 at hi
  change x < 0x60000000 + i * 76 + 76 at hx
  change x < 0x60000000 + n * 4096
  omega

/-- The heap with the page of one more trunk. -/
def withTrunk (h : ThreadHeap) : ThreadHeap := { h with heapTrunkCount := h.heapTrunkCount + 1 }

theorem Ready.extend (ready : h.Ready t) (more : h.heapTrunkCount < maxTrunks)
    (taken : h.morePage = .ok h') :
    h'.withTrunk.Ready t ∧ ∀ i, i < maxTrunks → h'.withTrunk.metadata i = h.metadata i := by
  have hpages := maxVirtualPages_eq
  change h.heapTrunkCount < 53 at more
  obtain ⟨filled, hmemory, hsame⟩ := ready.filled.morePage (by omega) taken
  have hcount : h'.heapTrunkCount = h.heapTrunkCount := by rw [hsame]
  have hrecords : ∀ i, i < maxTrunks → h'.withTrunk.metadata i = h.metadata i := by
    intro i hi
    have hat : h'.withTrunk.trunkMetadata i = virtualHeapStart + i * 76 := by
      rw [trunkMetadata]
      change h'.gMetadata + i * 76 = _
      rw [hsame, ready.metadataAt]
    rw [metadata, metadata, hat, trunkMetadata, ready.metadataAt]
    change HeapMetadataT.load h'.process.vm.memory _ = _
    rw [hmemory]
    exact load_write_page hi (Nat.succ_pos _)
  refine ⟨⟨?_, ?_, ?_, ?_, Nat.succ_pos _, ?_, ?_⟩, hrecords⟩
  · change Filled _ t (h'.heapTrunkCount + 1 + 1)
    rw [hcount]
    exact ⟨filled.inv, filled.current, filled.filled, filled.rest⟩
  · change h'.heapInit = true
    rw [hsame]
    exact ready.init
  · change h'.gMetadata = _
    rw [hsame]
    exact ready.metadataAt
  · change h'.gHeapPages = _
    rw [hsame]
    exact ready.pagesAt
  · change h'.heapTrunkCount + 1 ≤ 53
    omega
  · intro i hi hi'
    change h'.heapTrunkCount + 1 ≤ i at hi
    rw [hrecords i hi']
    exact ready.blank i (by omega) hi'

theorem Holding.extend (holding : h.Holding blocks) (ready : h.Ready t)
    (more : h.heapTrunkCount < maxTrunks) (taken : h.morePage = .ok h') :
    h'.withTrunk.Holding blocks := by
  obtain ⟨ready', hrecords⟩ := ready.extend more taken
  have hcount : h'.heapTrunkCount = h.heapTrunkCount := by
    obtain ⟨-, -, hsame⟩ := ready.filled.morePage (by
      have hpages := maxVirtualPages_eq
      change h.heapTrunkCount < 53 at more
      omega) taken
    rw [hsame]
  have hmore : h'.withTrunk.heapTrunkCount = h.heapTrunkCount + 1 := congrArg (· + 1) hcount
  apply ready'.holding_iff.mpr
  rw [hmore]
  refine ((ready.holding_iff.mp holding).extend ?_).congr ?_
  · exact ready.blank _ (Nat.le_refl _) more
  · exact fun i hi => hrecords i (Nat.lt_of_lt_of_le hi more)

/-- `my_malloc_init` leaves one trunk with nothing taken. -/
theorem Filled.myMallocInit (filled : h.Filled t 0) (taken : h.myMallocInit = .ok h') :
    h'.Ready t ∧ h'.Holding [] ∧ h'.heapTrunkCount = 1 ∧ h'.metadata 0 = .zero := by
  have hpages := maxVirtualPages_eq
  simp only [ThreadHeap.myMallocInit] at taken
  cases hfirst : h.morePage with
  | error stop => simp [hfirst] at taken
  | ok h₁ =>
      cases hsecond : h₁.morePage with
      | error stop => simp [hfirst, hsecond] at taken
      | ok h₂ =>
          simp only [hfirst, hsecond, Except.ok.injEq] at taken
          obtain ⟨filled₁, hmemory₁, -⟩ := filled.morePage (by omega) hfirst
          obtain ⟨filled₂, hmemory₂, -⟩ := filled₁.morePage (by omega) hsecond
          have hzero : ∀ i, i < maxTrunks → h'.metadata i = .zero := by
            intro i hi
            rw [← taken]
            change HeapMetadataT.load h₂.process.vm.memory (virtualHeapStart + i * 76) = _
            rw [hmemory₂, load_write_page hi Nat.one_pos, hmemory₁]
            apply HeapMetadataT.load_of_zero
            intro x hx hx'
            rw [write, dif_pos]
            change i < 53 at hi
            change 0x60000000 + i * 76 ≤ x at hx
            change x < 0x60000000 + i * 76 + 76 at hx'
            change 0x60000000 + 0 * 4096 ≤ x ∧ x - (0x60000000 + 0 * 4096) < 4096
            omega
          have ready : h'.Ready t := by
            refine ⟨?_, ?_, ?_, ?_, ?_, ?_, fun i _ hi => hzero i hi⟩
            · rw [← taken]
              exact ⟨filled₂.inv, filled₂.current, filled₂.filled, filled₂.rest⟩
            all_goals rw [← taken]
            · exact Nat.one_pos
            · change 1 ≤ 53
              omega
          refine ⟨ready, ⟨?_, fun b hb => absurd hb List.not_mem_nil⟩, by rw [← taken],
            hzero 0 (by decide)⟩
          intro i hi
          have hfew := ready.few
          rw [hzero i (by omega)]
          exact .zero _

/-- Some trunk has a free slot of the size. -/
def Room (h : ThreadHeap) (size : Nat) : Prop :=
  ∃ i r, i < h.heapTrunkCount ∧ Region.ofSize size = some r ∧
    ((h.metadata i).count r).toInt < r.slots

/-- A request is served from the trunks there are, or from one more. -/
theorem Ready.mallocInitialised (ready : h.Ready t) (holding : h.Holding blocks)
    (room : h.heapTrunkCount = maxTrunks → h.Room size) {result : Option Nat}
    (taken : h.mallocInitialised size = .ok (h', result)) :
    h'.Ready t ∧ h'.Holding (grow blocks size result) := by
  simp only [ThreadHeap.mallocInitialised] at taken
  rcases ready.mallocFrom_cases size h.heapTrunkCount 0 (by omega) with
    ⟨hall, hnone⟩ | ⟨k, md, ptr, hk, hmalloc, hfound⟩
  · have more : h.heapTrunkCount < maxTrunks := by
      have hfew := ready.few
      by_contra hfull
      obtain ⟨i, r, hi, hr, hroom⟩ := room (by omega)
      exact (holding.held i hi).malloc_ne_none hr hroom (hnone i (Nat.zero_le i) (by omega))
    simp only [hall] at taken
    cases hpage : h.morePage with
    | error stop => simp [hpage] at taken
    | ok h₁ =>
        simp only [hpage] at taken
        obtain ⟨ready₁, -⟩ := ready.extend more hpage
        have holding₁ := holding.extend ready more hpage
        have hlast : h₁.withTrunk.heapTrunkCount - 1 < h₁.withTrunk.heapTrunkCount :=
          Nat.sub_lt ready₁.positive Nat.one_pos
        have hi := Nat.lt_of_lt_of_le hlast ready₁.few
        change h₁.withTrunk.mallocTrunk (h₁.withTrunk.heapTrunkCount - 1) size = _ at taken
        generalize h₁.withTrunk.heapTrunkCount - 1 = last at hlast hi taken
        cases hmalloc : (h₁.withTrunk.metadata last)._malloc (h₁.withTrunk.trunkBase last) size with
        | mk md ptr =>
            cases ptr with
            | none =>
                rw [ready₁.mallocTrunk_none hi (by rw [hmalloc])] at taken
                cases taken
                exact ⟨ready₁, holding₁⟩
            | some ptr =>
                rw [ready₁.mallocTrunk_some hi hmalloc] at taken
                cases taken
                exact ⟨ready₁.setMetadata hlast md, holding₁.grow ready₁ hlast hmalloc⟩
  · simp only [hfound] at taken
    cases taken
    exact ⟨ready.setMetadata hk md, holding.grow ready hk hmalloc⟩

/-- `my_free` of a live block releases it. -/
theorem Ready.myFree (ready : h.Ready t) (holding : h.Holding blocks) (hb : b ∈ blocks)
    (taken : h.myFree b.address = .ok h') :
    h'.Ready t ∧ h'.Holding (release blocks b.address) := by
  have hinside := holding.inside ready hb
  have hfew := ready.few
  change h.heapTrunkCount ≤ 53 at hfew
  have hpages : h.gHeapPages = 0x60001000 := ready.pagesAt
  have hoffset : ptrOffset h.gHeapPages b.address = (b.address : Int) - 0x60001000 := by
    rw [hpages]
    exact ptrOffset_eq (by omega) (by omega)
  have htrunk : (ptrOffset h.gHeapPages b.address).toNat / pageSize = trunkOf b.address := by
    have hnat : (ptrOffset h.gHeapPages b.address).toNat = b.address - 0x60001000 := by omega
    rw [hnat, trunkOf]
    rfl
  have hbelow : ¬ ptrOffset h.gHeapPages b.address < 0 := by omega
  obtain ⟨r, i, haddress, -, -⟩ :=
    (holding.held _ hinside.1).placed b (mem_trunkBlocks.mpr ⟨hb, rfl⟩)
  have hslot : ptrOffset (h.trunkBase (trunkOf b.address)) b.address = r.place i := by
    have hbase := ready.trunkBase_eq (trunkOf b.address)
    have heq := @ptrOffset_eq (h.trunkBase (trunkOf b.address)) b.address (by omega) (by omega)
    omega
  have hi : trunkOf b.address < maxTrunks := Nat.lt_of_lt_of_le hinside.1 ready.few
  simp only [ThreadHeap.myFree, if_neg hbelow, htrunk,
    HeapMetadataT.freeTarget_of_place i hslot, ready.openRecord hi] at taken
  cases taken
  exact ⟨ready.setMetadata hinside.1 _, holding.release ready hb⟩

/-- A store in a live block reaches its page and leaves the records as they are. -/
theorem Ready.store (ready : h.Ready t) (holding : h.Holding blocks) (hb : b ∈ blocks)
    {address : Nat} (hlow : b.address ≤ address) (hhigh : address < b.address + b.size)
    {byte : UInt8} {process : Process} (taken : h.process.store address byte = .ok process) :
    ({ h with process := process } : ThreadHeap).Ready t ∧
      ({ h with process := process } : ThreadHeap).Holding blocks := by
  have hpages := maxVirtualPages_eq
  have hinside := holding.inside ready hb
  have hfew := ready.few
  change h.heapTrunkCount ≤ 53 at hfew
  have haccess : h.process.access address = .ok h.process := by
    apply ready.filled.access
    · change 0x60000000 ≤ address
      omega
    · change (address - 0x60000000) / 4096 < h.heapTrunkCount + 1
      omega
    · omega
  simp only [Process.store, haccess, Except.ok.injEq] at taken
  subst taken
  have hrecords : ∀ i, i < maxTrunks →
      HeapMetadataT.load (Function.update h.process.vm.memory address byte)
        (h.trunkMetadata i) = h.metadata i := by
    intro i hi
    apply HeapMetadataT.load_congr
    intro x _ hx
    rw [trunkMetadata, ready.metadataAt] at hx
    change i < 53 at hi
    change x < 0x60000000 + i * 76 + 76 at hx
    rw [Function.update_of_ne (by omega)]
  refine ⟨⟨ready.filled.stored _, ready.init, ready.metadataAt, ready.pagesAt, ready.positive,
    ready.few, ?_⟩, ?_, holding.placed⟩
  · intro i hi hi'
    exact (hrecords i hi').trans (ready.blank i hi hi')
  · intro i hi
    change i < h.heapTrunkCount at hi
    change (HeapMetadataT.load (Function.update h.process.vm.memory address byte)
      (h.trunkMetadata i)).Holds (h.trunkBase i) _
    rw [hrecords i (Nat.lt_of_lt_of_le hi ready.few)]
    exact holding.held i hi

theorem Holding.apart (holding : h.Holding blocks) (ready : h.Ready t) :
    blocks.Pairwise Block.Apart :=
  (ready.holding_iff.mp holding).apart

end ThreadHeap

end OsDesign.Heap
