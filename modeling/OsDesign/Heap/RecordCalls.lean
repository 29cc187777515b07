import OsDesign.Heap.RecordHeap
import OsDesign.Heap.FreedRecords

/-!
What the calls do to a heap whose records tell its blocks. The pages of the
thread are the first ones of the window, so that the page granted for a trunk is
the one its base is computed for, however often pages were evicted and brought
back in between.
-/
namespace OsDesign.Heap

open Loops Virt ThreadHeap

namespace RecordHeap

/-- `h'` is `h` behind some page faults. -/
structure Faulted (h h' : RecordHeap) : Prop where
  served : h.heap.process.Served h'.heap.process
  rest : h' = { h with heap := { h.heap with process := h'.heap.process } }

/-- An initialised heap of `t`, with records for `limit` trunks. The records lie
in the window, and those behind `heap_trunk_count` are zero. -/
structure Sound (h : RecordHeap) (t : ThreadId) (limit : Nat) (blocks : List Block) : Prop where
  pages : h.heap.process.FirstPages t (min (h.heap.heapTrunkCount + 1) maxVirtualPages)
  init : h.heap.heapInit = true
  metadataAt : h.heap.gMetadata = virtualHeapStart
  pagesAt : h.heap.gHeapPages = virtualHeapStart + pageSize
  few : h.heap.heapTrunkCount ≤ limit
  fits : limit * metadataSize ≤ maxVirtualPages * pageSize
  blank : ∀ i, h.heap.heapTrunkCount ≤ i → i < limit → h.records i = .zero
  hold : TrunksHold h.records h.heap.heapTrunkCount blocks

/-- No trunk has a free slot of the size. -/
def NoneFits (h : RecordHeap) (size : Nat) : Prop :=
  ∀ i, i < h.heap.heapTrunkCount →
    ((h.records i)._malloc (h.heap.trunkBase i) size).2 = none

/-- `h'` is `h` behind some page faults and a block `a` taken from trunk `k`. -/
def Gives (h : RecordHeap) (size k : Nat) (h' : RecordHeap) (a : Nat) : Prop :=
  ∃ h₁ md, h' = h₁.setRecord k md ∧ h.Faulted h₁ ∧
    (h.records k)._malloc (h.heap.trunkBase k) size = (md, some a)

/-- `h'` is `h` with a trunk more and, if the window has one, its page. -/
structure Grown (h h' : RecordHeap) (t : ThreadId) : Prop where
  rest : h' = { h with heap := { h.heap with
    process := h'.heap.process
    heapTrunkCount := h.heap.heapTrunkCount + 1 } }
  current : h'.heap.process.current = some t
  left : h.heap.process.left ≤ h'.heap.process.left + 1
  spent : h.heap.heapTrunkCount + 1 < maxVirtualPages →
    h'.heap.process.left + 1 = h.heap.process.left
  memory : ∀ j, j < maxVirtualPages → h'.heap.process.privateMemory t j =
    if j = h.heap.heapTrunkCount + 1 then some (fun _ => 0)
    else h.heap.process.privateMemory t j

/-- What becomes of `my_malloc(size)` on an initialised heap. -/
inductive Outcome (h : RecordHeap) (t : ThreadId) (limit size : Nat) (blocks : List Block)
    (result : Except Stop (RecordHeap × Option Nat)) : Prop
  | panic (taken : result = .error (.panic "swap_out: Swap file is full\n"))
      (left : h.heap.process.left ≤ 1)
  | found (k : Nat) (h' : RecordHeap) (a : Nat) (taken : result = .ok (h', some a))
      (inUse : k < h.heap.heapTrunkCount)
      (before : ∀ j, j < k → ((h.records j)._malloc (h.heap.trunkBase j) size).2 = none)
      (gives : h.Gives size k h' a)
  | grown (h₁ h' : RecordHeap) (a : Nat) (taken : result = .ok (h', some a))
      (noneFits : h.NoneFits size) (more : h.Grown h₁ t) (sound : h₁.Sound t limit blocks)
      (gives : h₁.Gives size h.heap.heapTrunkCount h' a)
  | refused (h₁ h' : RecordHeap) (taken : result = .ok (h', none)) (noneFits : h.NoneFits size)
      (more : h.Grown h₁ t) (sound : h₁.Sound t limit blocks) (faulted : h₁.Faulted h')
      (null : ((h₁.records h.heap.heapTrunkCount)._malloc
        (h₁.heap.trunkBase h.heap.heapTrunkCount) size).2 = none)
  | beyond (noneFits : h.NoneFits size) (full : limit ≤ h.heap.heapTrunkCount)

variable {h h' : RecordHeap} {t : ThreadId} {limit i size : Nat} {blocks : List Block} {b : Block}

theorem Faulted.refl (inv : h.heap.process.Inv) : h.Faulted h := ⟨.refl inv, rfl⟩

theorem Faulted.trans {h'' : RecordHeap} (first : h.Faulted h') (second : h'.Faulted h'') :
    h.Faulted h'' := by
  refine ⟨first.served.trans second.served, ?_⟩
  rw [second.rest, first.rest]

theorem Faulted.records_eq (faulted : h.Faulted h') : h'.records = h.records := by
  rw [faulted.rest]

theorem Faulted.count_eq (faulted : h.Faulted h') :
    h'.heap.heapTrunkCount = h.heap.heapTrunkCount := by
  rw [faulted.rest]

theorem Faulted.trunkBase_eq (faulted : h.Faulted h') (i : Nat) :
    h'.heap.trunkBase i = h.heap.trunkBase i := by
  rw [faulted.rest]
  rfl

theorem Sound.trunkBase_eq (sound : h.Sound t limit blocks) (i : Nat) :
    h.heap.trunkBase i = pageAddress (i + 1) := by
  rw [trunkBase, sound.pagesAt, TrunksHold.pageAddress_succ]
  rfl

/-- The heap moves on with a process in which the thread has the same pages. -/
theorem Sound.moved (sound : h.Sound t limit blocks) {process : Process}
    (pages : process.FirstPages t (min (h.heap.heapTrunkCount + 1) maxVirtualPages)) :
    ({ h with heap := { h.heap with process := process } } : RecordHeap).Sound t limit blocks :=
  ⟨pages, sound.init, sound.metadataAt, sound.pagesAt, sound.few, sound.fits, sound.blank,
    sound.hold⟩

theorem Sound.faulted (sound : h.Sound t limit blocks) (faulted : h.Faulted h') :
    h'.Sound t limit blocks := by
  rw [faulted.rest]
  exact sound.moved (sound.pages.served faulted.served)

/-- The record of a trunk lies in the pages that the thread has. -/
theorem Sound.record_fits (sound : h.Sound t limit blocks) (hi : i < h.heap.heapTrunkCount) :
    (i + 1) * metadataSize ≤ min (h.heap.heapTrunkCount + 1) maxVirtualPages * pageSize := by
  have hmax := maxVirtualPages_eq
  have hfew := sound.few
  have hfits := sound.fits
  change limit * 76 ≤ maxVirtualPages * 4096 at hfits
  change (i + 1) * 76 ≤ min (h.heap.heapTrunkCount + 1) maxVirtualPages * 4096
  rcases Nat.le_total (h.heap.heapTrunkCount + 1) maxVirtualPages with hle | hle
  · rw [Nat.min_eq_left hle]
    omega
  · rw [Nat.min_eq_right hle]
    omega

theorem Sound.openRecord_cases (sound : h.Sound t limit blocks)
    (hcurrent : h.heap.process.current = some t) (hi : i < h.heap.heapTrunkCount) :
    (h.openRecord i = .error (.panic "swap_out: Swap file is full\n") ∧
      h.heap.process.left ≤ 0) ∨
    ∃ h', h.openRecord i = .ok h' ∧ h.Faulted h' := by
  rcases ThreadHeap.openRecord_cases sound.pages hcurrent sound.metadataAt (sound.record_fits hi)
    (Nat.min_le_right _ _) with ⟨hpanic, hleft⟩ | ⟨process, hopen, served, -⟩
  · exact .inl ⟨by simp only [openRecord, hpanic], hleft⟩
  · refine .inr ⟨{ h with heap := { h.heap with process := process } }, ?_, served, rfl⟩
    simp only [openRecord, hopen]

/-- `_malloc` on one trunk: a panic, no slot, or a block of its record. -/
theorem Sound.mallocTrunk_cases (sound : h.Sound t limit blocks)
    (hcurrent : h.heap.process.current = some t) (hi : i < h.heap.heapTrunkCount) (size : Nat) :
    (mallocTrunk size i h = .error (.panic "swap_out: Swap file is full\n") ∧
      h.heap.process.left ≤ 0) ∨
    (∃ h', mallocTrunk size i h = .ok (h', none) ∧ h.Faulted h' ∧
      ((h.records i)._malloc (h.heap.trunkBase i) size).2 = none) ∨
    ∃ h' a, mallocTrunk size i h = .ok (h', some a) ∧ h.Gives size i h' a := by
  cases hr : Region.ofSize size with
  | none =>
      refine .inr (.inl ⟨h, by simp only [mallocTrunk, hr], .refl sound.pages.inv, ?_⟩)
      simp only [HeapMetadataT._malloc, hr]
  | some r =>
      rcases sound.openRecord_cases hcurrent hi with ⟨hpanic, hleft⟩ | ⟨h', hopen, faulted⟩
      · exact .inl ⟨by simp only [mallocTrunk, hr, hpanic], hleft⟩
      · right
        have hrecord : (h'.records i)._malloc (h'.heap.trunkBase i) size =
            (h.records i)._malloc (h.heap.trunkBase i) size := by
          rw [faulted.records_eq, faulted.trunkBase_eq]
        cases hmalloc : (h.records i)._malloc (h.heap.trunkBase i) size with
        | mk md ptr =>
            rw [hmalloc] at hrecord
            cases ptr with
            | none =>
                exact .inl ⟨h', by simp only [mallocTrunk, hr, hopen, hrecord], faulted, rfl⟩
            | some a =>
                exact .inr ⟨h'.setRecord i md, a, by simp only [mallocTrunk, hr, hopen, hrecord],
                  h', md, rfl, faulted, hmalloc⟩

/-- The search over the trunks: a panic, no slot in any, or a block of the first
trunk that has one. -/
theorem Sound.mallocFrom_cases (sound : h.Sound t limit blocks)
    (hcurrent : h.heap.process.current = some t) (size : Nat) :
    (mallocFrom size h.heap.heapTrunkCount 0 h =
        .error (.panic "swap_out: Swap file is full\n") ∧ h.heap.process.left ≤ 0) ∨
    (∃ h', mallocFrom size h.heap.heapTrunkCount 0 h = .ok (h', none) ∧ h.Faulted h' ∧
      h.NoneFits size) ∨
    ∃ k h' a, k < h.heap.heapTrunkCount ∧
      (∀ j, j < k → ((h.records j)._malloc (h.heap.trunkBase j) size).2 = none) ∧
      mallocFrom size h.heap.heapTrunkCount 0 h = .ok (h', some a) ∧ h.Gives size k h' a := by
  have turn : ∀ k h₁, 0 ≤ k → k < 0 + h.heap.heapTrunkCount → h.Faulted h₁ →
      (∃ e, mallocTrunk size k h₁ = .error e ∧
        e = .panic "swap_out: Swap file is full\n" ∧ h.heap.process.left ≤ 0) ∨
      (∃ h₂, mallocTrunk size k h₁ = .ok (h₂, none) ∧ h.Faulted h₂ ∧
        ((h.records k)._malloc (h.heap.trunkBase k) size).2 = none) ∨
      ∃ h₂ a, mallocTrunk size k h₁ = .ok (h₂, some a) ∧ h.Gives size k h₂ a := by
    intro k h₁ _ hk faulted
    have hk₁ : k < h₁.heap.heapTrunkCount := by
      rw [faulted.count_eq]
      omega
    rcases (sound.faulted faulted).mallocTrunk_cases (faulted.served.current.trans hcurrent) hk₁
        size with
      ⟨hpanic, hleft⟩ | ⟨h₂, hmiss, faulted', hnone⟩ |
        ⟨h₂, a, hhit, h₃, md, hset, faulted', hmalloc⟩
    · exact .inl ⟨_, hpanic, rfl, faulted.served.left ▸ hleft⟩
    · rw [faulted.records_eq, faulted.trunkBase_eq] at hnone
      exact .inr (.inl ⟨h₂, hmiss, faulted.trans faulted', hnone⟩)
    · rw [faulted.records_eq, faulted.trunkBase_eq] at hmalloc
      exact .inr (.inr ⟨h₂, a, hhit, h₃, md, hset, faulted.trans faulted', hmalloc⟩)
  rcases searchFrom_cases h.Faulted _ _ (h.Gives size) h.heap.heapTrunkCount 0 h
      (.refl sound.pages.inv) turn with
    ⟨e, hfail, rfl, hleft⟩ | ⟨h', hmiss, faulted, hnone⟩ |
      ⟨k, h', a, -, hk, hbefore, hhit, gives⟩
  · exact .inl ⟨hfail, hleft⟩
  · exact .inr (.inl ⟨h', hmiss, faulted, fun k hk => hnone k (Nat.zero_le k) (by omega)⟩)
  · exact .inr (.inr ⟨k, h', a, by omega, fun j hj => hbefore j (Nat.zero_le j) hj, hhit, gives⟩)

/-- A block taken from a trunk in use joins the blocks. -/
theorem Sound.gives (sound : h.Sound t limit blocks) (hi : i < h.heap.heapTrunkCount) {a : Nat}
    (gives : h.Gives size i h' a) : h'.Sound t limit (⟨a, size⟩ :: blocks) := by
  obtain ⟨h₁, md, rfl, faulted, hok⟩ := gives
  have sound₁ := sound.faulted faulted
  rw [← faulted.records_eq, sound.trunkBase_eq] at hok
  rw [← faulted.count_eq] at hi
  refine ⟨sound₁.pages, sound₁.init, sound₁.metadataAt, sound₁.pagesAt, sound₁.few, sound₁.fits,
    ?_, sound₁.hold.grow hi hok⟩
  intro j hj hj'
  change h₁.heap.heapTrunkCount ≤ j at hj
  rw [records_setRecord_of_ne _ md (by omega)]
  exact sound₁.blank j hj hj'

theorem Grown.count_eq (more : h.Grown h' t) :
    h'.heap.heapTrunkCount = h.heap.heapTrunkCount + 1 := by
  rw [more.rest]

theorem Grown.records_eq (more : h.Grown h' t) : h'.records = h.records := by
  rw [more.rest]

/-- One more trunk gets the next page of the window, if there is one. -/
theorem Sound.morePage (sound : h.Sound t limit blocks)
    (hcurrent : h.heap.process.current = some t) (more : h.heap.heapTrunkCount < limit) :
    (h.morePage = .error (.panic "swap_out: Swap file is full\n") ∧
      h.heap.process.left ≤ 0) ∨
    ∃ h', h.morePage = .ok h' ∧ h.Grown h'.withTrunk t ∧ h'.withTrunk.Sound t limit blocks := by
  have grown : ∀ {process : Process},
      process.FirstPages t (min (h.heap.heapTrunkCount + 1 + 1) maxVirtualPages) →
      ({ h with heap := { h.heap with process := process } } : RecordHeap).withTrunk.Sound t limit
        blocks := by
    intro process pages
    refine ⟨pages, sound.init, sound.metadataAt, sound.pagesAt, more, sound.fits, ?_,
      sound.hold.extend (sound.blank _ (Nat.le_refl _) more)⟩
    intro i hi
    change h.heap.heapTrunkCount + 1 ≤ i at hi
    exact sound.blank i (by omega)
  have hpages := sound.pages
  by_cases room : h.heap.heapTrunkCount + 1 < maxVirtualPages
  · rw [Nat.min_eq_left (by omega)] at hpages
    rcases hpages.allocatePage hcurrent room with
      ⟨hpanic, hleft⟩ | ⟨process, hok, pages, hcurrent', -, hleft, hmemory⟩
    · exact .inl ⟨by simp only [RecordHeap.morePage, ThreadHeap.morePage, hpanic], hleft⟩
    · right
      refine ⟨{ h with heap := { h.heap with process := process } },
        by simp only [RecordHeap.morePage, ThreadHeap.morePage, hok],
        ⟨rfl, hcurrent', ?_, ?_, hmemory⟩, grown ?_⟩
      · change h.heap.process.left ≤ process.left + 1
        omega
      · intro _
        change process.left + 1 = h.heap.process.left
        omega
      · rw [Nat.min_eq_left (by omega)]
        exact pages
  · rw [Nat.min_eq_right (by omega)] at hpages
    have hnone := hpages.allocatePage_full hcurrent (Nat.le_refl _)
    right
    refine ⟨{ h with heap := { h.heap with process := h.heap.process } },
      by simp only [RecordHeap.morePage, ThreadHeap.morePage, hnone],
      ⟨rfl, hcurrent, Int.le_add_one (Int.le_refl _), fun hroom => absurd hroom room, ?_⟩,
      grown ?_⟩
    · intro j hj
      rw [if_neg (by omega)]
      rfl
    · rw [Nat.min_eq_right (by omega)]
      exact hpages

theorem Grown.of_faulted (faulted : h.Faulted h') {h'' : RecordHeap} (ht : h.heap.process.live t)
    (more : h'.Grown h'' t) : h.Grown h'' t := by
  refine ⟨?_, more.current, faulted.served.left ▸ more.left, ?_, ?_⟩
  · rw [more.rest, faulted.rest]
  · rw [← faulted.count_eq, ← faulted.served.left]
    exact more.spent
  · intro j hj
    rw [more.memory j hj, faulted.count_eq, faulted.served.kept t j ht hj]

/-- `my_malloc` on an initialised heap goes one of these ways. -/
theorem Sound.mallocInitialised (sound : h.Sound t limit blocks)
    (hcurrent : h.heap.process.current = some t) (size : Nat) :
    h.Outcome t limit size blocks (mallocInitialised size h) := by
  rcases sound.mallocFrom_cases hcurrent size with
    ⟨hpanic, hleft⟩ | ⟨h₁, hmiss, faulted, noneFits⟩ | ⟨k, h', a, hk, hbefore, hhit, gives⟩
  · exact .panic (by simp only [RecordHeap.mallocInitialised, hpanic]) (by omega)
  · by_cases more : h.heap.heapTrunkCount < limit
    · have sound₁ := sound.faulted faulted
      have hcurrent₁ := faulted.served.current.trans hcurrent
      rcases sound₁.morePage hcurrent₁ (faulted.count_eq ▸ more) with
        ⟨hpanic, hleft⟩ | ⟨h₂, hmore, grown, sound₂⟩
      · rw [faulted.served.left] at hleft
        exact .panic (by simp only [RecordHeap.mallocInitialised, hmiss, hpanic]) (by omega)
      · have grown' := grown.of_faulted faulted sound.pages.live
        have hlast : h₂.withTrunk.heap.heapTrunkCount - 1 = h.heap.heapTrunkCount := by
          rw [grown'.count_eq]
          rfl
        have hlt : h.heap.heapTrunkCount < h₂.withTrunk.heap.heapTrunkCount := by
          rw [grown'.count_eq]
          exact Nat.lt_succ_self _
        have hcall : RecordHeap.mallocInitialised size h =
            mallocTrunk size h.heap.heapTrunkCount h₂.withTrunk := by
          simp only [RecordHeap.mallocInitialised, hmiss, hmore, hlast]
        rw [hcall]
        rcases sound₂.mallocTrunk_cases grown.current hlt size with
          ⟨hpanic, hleft⟩ | ⟨h', hnull, faulted', null⟩ | ⟨h', a, hok, gives⟩
        · have hspent := grown'.left
          exact .panic hpanic (by omega)
        · exact .refused _ h' hnull noneFits grown' sound₂ faulted' null
        · exact .grown _ h' a hok noneFits grown' sound₂ gives
    · exact .beyond noneFits (Nat.le_of_not_lt more)
  · exact .found k h' a (by simp only [RecordHeap.mallocInitialised, hhit]) hk hbefore gives

/-- No `int` is too narrow for the offset of a live block. -/
theorem Sound.offset_live (sound : h.Sound t limit blocks) (hb : b ∈ blocks) :
    ptrOffset h.heap.gHeapPages b.address = (b.address : Int) - h.heap.gHeapPages := by
  have hmax := maxVirtualPages_eq
  have hfew := sound.few
  have hfits := sound.fits
  change limit * 76 ≤ maxVirtualPages * 4096 at hfits
  have hat : h.heap.gHeapPages = 0x60001000 := sound.pagesAt
  obtain ⟨hlt, -, hstart, hend⟩ := sound.hold.inside hb
  rw [hat]
  exact ptrOffset_eq (by omega) (by omega)

/-- A live block is where the record of its trunk has a slot taken. -/
theorem Sound.slot_live (sound : h.Sound t limit blocks) (hb : b ∈ blocks) :
    ∃ (r : Region) (k : Fin r.slots), b.address = pageAddress (trunkOf b.address + 1) + r.place k ∧
      ptrOffset h.heap.gHeapPages b.address =
        (trunkOf b.address * pageSize + r.place k : Nat) := by
  obtain ⟨r, k, haddress, -⟩ :=
    (sound.hold.held _ (sound.hold.placed b hb).2).placed b (mem_trunkBlocks.mpr ⟨hb, rfl⟩)
  refine ⟨r, k, haddress, ?_⟩
  have hat : h.heap.gHeapPages = 0x60001000 := sound.pagesAt
  rw [TrunksHold.pageAddress_succ] at haddress
  rw [sound.offset_live hb, hat]
  change _ = ((trunkOf b.address * 4096 + r.place k : Nat) : Int)
  omega

theorem Sound.handled_live (sound : h.Sound t limit blocks) (hb : b ∈ blocks) :
    h.heap.Handled blocks b.address := by
  obtain ⟨r, k, -, hoffset⟩ := sound.slot_live hb
  intro i hi
  rw [recordOf_eq_some.mpr ⟨r, k, hoffset⟩] at hi
  refine ⟨Option.some.inj hi ▸ (sound.hold.placed b hb).2, ?_⟩
  intro b' _ same
  rw [sound.offset_live hb] at same
  omega

/-- What `_free` does to the record that `my_free` goes to: it takes the slot of a
live block back, or nothing. -/
theorem Sound.free_cases (sound : h.Sound t limit blocks) {ptr : Nat}
    (handled : h.heap.Handled blocks ptr) (hi : h.heap.recordOf ptr = some i) :
    (∃ b, b ∈ blocks ∧ b.address = ptr ∧ trunkOf ptr = i) ∨
    (∀ b, b ∈ blocks → b.address ≠ ptr) ∧
      (h.records i)._free (h.heap.trunkBase i) ptr = h.records i := by
  obtain ⟨hlt, only⟩ := handled i hi
  obtain ⟨r, k, hoffset, hplace⟩ := place_of_recordOf hi
  by_cases hset : (h.records i).flag r k = 1
  · obtain ⟨b, hb, haddress⟩ := ((sound.hold.held i hlt).held r k).mp hset
    obtain ⟨hmem, htrunk⟩ := mem_trunkBlocks.mp hb
    have hat : b.address = ptr := by
      apply only b hmem
      have hfirst : h.heap.gHeapPages = 0x60001000 := sound.pagesAt
      rw [haddress, hoffset, hfirst, TrunksHold.pageAddress_succ]
      change _ = (0x60001000 : Int) + (i * 4096 + r.place k : Nat)
      omega
    exact .inl ⟨b, hmem, hat, hat ▸ htrunk⟩
  · refine .inr ⟨?_, ?_⟩
    · rintro b hb rfl
      obtain ⟨r', k', haddress, hoffset'⟩ := sound.slot_live hb
      have hrecord := recordOf_eq_some.mpr ⟨r', k', hoffset'⟩
      obtain rfl := Option.some.inj (hi.symm.trans hrecord)
      have hsame : pageAddress (trunkOf b.address + 1) + r.place k =
          pageAddress (trunkOf b.address + 1) + r'.place k' := by omega
      apply hset
      apply ((sound.hold.held _ hlt).held r k).mpr
      exact ⟨b, mem_trunkBlocks.mpr ⟨hb, rfl⟩, haddress.trans hsame.symm⟩
    · rw [HeapMetadataT.free_of_place k hplace, HeapMetadataT.freeIn_of_not_live hset]

theorem myFree_eq (h : RecordHeap) (ptr : Nat) : h.myFree ptr =
    match h.heap.recordOf ptr with
    | none => .ok h
    | some i =>
        match h.openRecord i with
        | .error stop => .error stop
        | .ok h => .ok (h.setRecord i ((h.records i)._free (h.heap.trunkBase i) ptr)) := by
  by_cases hlow : ptrOffset h.heap.gHeapPages ptr < 0
  · simp only [myFree, recordOf, if_pos hlow]
  · simp only [myFree, recordOf, if_neg hlow]
    cases freeTarget (h.heap.trunkBase ((ptrOffset h.heap.gHeapPages ptr).toNat / pageSize)) ptr
    · rfl
    · rfl

/-- The place that a narrowed pointer names has its flag set if a live block is there. -/
theorem Sound.flag_of_live (sound : h.Sound t limit blocks) {ptr : Nat}
    (hrecord : h.heap.recordOf ptr = some i) (hi : i < h.heap.heapTrunkCount) (hb : b ∈ blocks)
    (haddress : (b.address : Int) = h.heap.gHeapPages + ptrOffset h.heap.gHeapPages ptr) :
    ∃ (r : Region) (k : Fin r.slots), (h.records i).flag r k = 1 ∧
      ptrOffset (h.heap.trunkBase i) ptr = r.place k := by
  obtain ⟨r, k, hoffset, hplace⟩ := place_of_recordOf hrecord
  have hfirst : h.heap.gHeapPages = 0x60001000 := sound.pagesAt
  have hlt := r.place_lt k
  have hsize := r.size_pos
  have hplaced : b.address = 0x60001000 + i * 4096 + r.place k := by
    rw [hoffset, hfirst] at haddress
    change (b.address : Int) = 0x60001000 + (i * 4096 + r.place k : Nat) at haddress
    omega
  have htrunk : trunkOf b.address = i := by
    apply trunkOf_eq
    · change 0x60001000 + i * 4096 ≤ b.address
      omega
    · change b.address < 0x60001000 + i * 4096 + 4096
      omega
  refine ⟨r, k, ?_, hplace⟩
  apply ((sound.hold.held i hi).held r k).mpr
  refine ⟨b, mem_trunkBlocks.mpr ⟨hb, htrunk⟩, ?_⟩
  rw [TrunksHold.pageAddress_succ, hplaced]

/-- `my_free` of a pointer that it handles releases the block there, if there is one. -/
theorem Sound.myFree (sound : h.Sound t limit blocks)
    (hcurrent : h.heap.process.current = some t) {ptr : Nat}
    (handled : h.heap.Handled blocks ptr) (taken : h.myFree ptr = .ok h') :
    h'.Sound t limit (release blocks ptr) := by
  rw [myFree_eq] at taken
  cases hrecord : h.heap.recordOf ptr with
  | none =>
      simp only [hrecord, Except.ok.injEq] at taken
      rw [← taken, release_of_absent]
      · exact sound
      · rintro b hb rfl
        obtain ⟨r, k, -, hoffset⟩ := sound.slot_live hb
        rw [recordOf_eq_some.mpr ⟨r, k, hoffset⟩] at hrecord
        cases hrecord
  | some i =>
      have hlt := (handled i hrecord).1
      rcases sound.openRecord_cases hcurrent hlt with ⟨hpanic, -⟩ | ⟨h₁, hopen, faulted⟩
      · simp [hrecord, hpanic] at taken
      · simp only [hrecord, hopen, faulted.records_eq, faulted.trunkBase_eq,
          Except.ok.injEq] at taken
        have sound₁ := sound.faulted faulted
        have hkept : ∀ md j, h₁.heap.heapTrunkCount ≤ j → j < limit →
            (h₁.setRecord i md).records j = .zero := by
          intro md j hj hj'
          rw [faulted.count_eq] at hj
          rw [records_setRecord_of_ne _ md (by omega), faulted.records_eq]
          exact sound.blank j hj hj'
        rw [← taken]
        refine ⟨sound₁.pages, sound₁.init, sound₁.metadataAt, sound₁.pagesAt, sound₁.few,
          sound₁.fits, hkept _, ?_⟩
        change TrunksHold (Function.update h₁.records i _) h₁.heap.heapTrunkCount _
        rw [faulted.records_eq, faulted.count_eq, sound.trunkBase_eq]
        have hcases := sound.free_cases handled hrecord
        rw [sound.trunkBase_eq] at hcases
        rcases hcases with ⟨b, hb, rfl, rfl⟩ | ⟨hnone, hsame⟩
        · exact sound.hold.free hb
        · rw [hsame, Function.update_eq_self, release_of_absent hnone]
          exact sound.hold

end RecordHeap

end OsDesign.Heap
