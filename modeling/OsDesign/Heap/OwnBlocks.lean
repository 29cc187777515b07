import OsDesign.Heap.OwnHeap
import OsDesign.Heap.TrunkLayout

/-!
The blocks of a heap that a thread has for its own. While the records of its trunks lie in
the first page, `my_malloc` and `my_free` write nothing behind that page: there are the
bytes that the thread stored, and zeros.
-/
namespace OsDesign.Heap

open Virt ByteStore

namespace OwnHeap

/-- The byte at an address; a page that is not granted yet will come zeroed. -/
def byteAt (o : OwnHeap) (x : Nat) : UInt8 := if miGetpteindex x < o.pages then o.memory x else 0

/-- `my_malloc` was called, and the records of all trunks lie in the first page. -/
structure Ready (o : OwnHeap) (blocks : List Block) : Prop where
  init : o.heapInit = true
  pages : o.pages = o.heapTrunkCount + 1
  few : o.heapTrunkCount ≤ maxTrunks
  blank : ∀ i, o.heapTrunkCount ≤ i → i < maxTrunks → o.metadata i = .zero
  hold : TrunksHold o.metadata o.heapTrunkCount blocks

/-- The heap has these live blocks. -/
inductive Sound (o : OwnHeap) (blocks : List Block) : Prop
  | unused (init : o.heapInit = false) (pages : o.pages = 0) (none : blocks = [])
  | ready (ready : o.Ready blocks)

/-- The same bytes behind the first page. -/
def SameBytes (o o' : OwnHeap) : Prop :=
  ∀ x, virtualHeapStart + pageSize ≤ x → o'.byteAt x = o.byteAt x

variable {o o' : OwnHeap} {blocks : List Block} {b : Block} {i x size : Nat}

theorem trunkBase_eq (i : Nat) : trunkBase i = pageAddress (i + 1) := by
  rw [TrunksHold.pageAddress_succ]
  rfl

theorem SameBytes.trans {o'' : OwnHeap} (first : o.SameBytes o') (second : o'.SameBytes o'') :
    o.SameBytes o'' :=
  fun x hx => (second x hx).trans (first x hx)

/-- A record of the first page is there once the heap has a page. -/
theorem opens_of_lt (hi : i < maxTrunks) (some : 0 < o.pages) : o.Opens i := by
  change i < 53 at hi
  refine ⟨⟨?_, ?_, ?_⟩, ?_, ?_, ?_⟩
  · exact Nat.le_add_right _ _
  · change 0x60000000 + i * 76 < 0x607FBFFF
    omega
  · change (0x60000000 + i * 76 - 0x60000000) / 4096 < o.pages
    omega
  · change 0x60000000 ≤ 0x60000000 + i * 76 + 75
    omega
  · change 0x60000000 + i * 76 + 75 < 0x607FBFFF
    omega
  · change (0x60000000 + i * 76 + 75 - 0x60000000) / 4096 < o.pages
    omega

theorem metadata_setMetadata (o : OwnHeap) (i : Nat) (md : HeapMetadataT) :
    (o.setMetadata i md).metadata = Function.update o.metadata i md := by
  funext j
  by_cases hji : j = i
  · rw [hji, Function.update_self]
    exact HeapMetadataT.load_store_self md _ _
  · rw [Function.update_of_ne hji]
    apply HeapMetadataT.load_congr
    intro x hlow hhigh
    apply HeapMetadataT.store_apply_of_outside
    change 0x60000000 + j * 76 ≤ x at hlow
    change x < 0x60000000 + j * 76 + 76 at hhigh
    change x < 0x60000000 + i * 76 ∨ 0x60000000 + i * 76 + 76 ≤ x
    omega

/-- A record of the first page lies in front of the trunks. -/
theorem sameBytes_setMetadata (o : OwnHeap) (hi : i < maxTrunks) (md : HeapMetadataT) :
    o.SameBytes (o.setMetadata i md) := by
  intro x hx
  change i < 53 at hi
  change 0x60001000 ≤ x at hx
  have same : md.store (trunkMetadata i) o.memory x = o.memory x := by
    apply HeapMetadataT.store_apply_of_outside
    right
    change 0x60000000 + i * 76 + 76 ≤ x
    omega
  simp only [byteAt, setMetadata, same]

theorem sameBytes_morePage (o : OwnHeap) : o.SameBytes o.morePage := by
  intro x hx
  by_cases room : o.pages < maxVirtualPages
  · have more : o.morePage.pages = o.pages + 1 := by rw [morePage, if_pos room]
    rw [byteAt, byteAt, memory_morePage o ((Nat.le_add_right _ _).trans hx), more]
    by_cases new : miGetpteindex x = o.pages
    · rw [if_pos (by omega), if_pos ⟨room, new⟩, if_neg (by omega)]
    · by_cases old : miGetpteindex x < o.pages
      · rw [if_pos (by omega), if_neg fun both => new both.2, if_pos old]
      · rw [if_neg (by omega), if_neg old]
  · have same : o.morePage = o := if_neg room
    rw [same]

/-- A page behind the first one leaves the records of the first page. -/
theorem metadata_morePage (hi : i < maxTrunks) (some : 0 < o.pages) :
    o.morePage.metadata i = o.metadata i := by
  apply HeapMetadataT.load_congr
  intro x hlow hhigh
  change i < 53 at hi
  change 0x60000000 + i * 76 ≤ x at hlow
  change x < 0x60000000 + i * 76 + 76 at hhigh
  rw [memory_morePage o (show 0x60000000 ≤ x by omega), if_neg]
  rintro ⟨-, new⟩
  change (x - 0x60000000) / 4096 = o.pages at new
  omega

/-- `_malloc` on a trunk whose record lies in the first page. -/
theorem mallocTrunk_cases (hi : i < maxTrunks) (some : 0 < o.pages) (size : Nat) :
    (o.mallocTrunk size i = .some (o, none) ∧
      ((o.metadata i)._malloc (trunkBase i) size).2 = none) ∨
    ∃ md ptr, (o.metadata i)._malloc (trunkBase i) size = (md, .some ptr) ∧
      o.mallocTrunk size i = .some (o.setMetadata i md, .some ptr) := by
  rw [mallocTrunk]
  cases hr : Region.ofSize size with
  | none => exact .inl ⟨rfl, by simp [HeapMetadataT._malloc, hr]⟩
  | some region =>
      rw [if_pos (opens_of_lt hi some)]
      cases hmalloc : (o.metadata i)._malloc (trunkBase i) size with
      | mk md ptr =>
          cases ptr with
          | none => exact .inl ⟨rfl, rfl⟩
          | some ptr => exact .inr ⟨md, ptr, rfl, rfl⟩

/-- The search over the trunks misses, or takes a block of one of them. -/
theorem mallocFrom_cases (size turns i : Nat) (within : i + turns ≤ maxTrunks)
    (some : 0 < o.pages) : mallocFrom size turns i o = .some (o, none) ∨
    ∃ k md ptr, k < i + turns ∧ (o.metadata k)._malloc (trunkBase k) size = (md, .some ptr) ∧
      mallocFrom size turns i o = .some (o.setMetadata k md, .some ptr) := by
  induction turns generalizing i with
  | zero => exact .inl rfl
  | succ turns ih =>
      have hi : i < maxTrunks := by omega
      rw [mallocFrom]
      rcases mallocTrunk_cases hi some size with ⟨misses, -⟩ | ⟨md, ptr, gives, takes⟩
      · rw [misses]
        rcases ih (i + 1) (by omega) with misses' | ⟨k, md, ptr, hk, gives, takes⟩
        · exact .inl misses'
        · exact .inr ⟨k, md, ptr, by omega, gives, takes⟩
      · rw [takes]
        exact .inr ⟨i, md, ptr, by omega, gives, rfl⟩

/-- The record of a trunk in use is replaced. -/
theorem Ready.replace (ready : o.Ready blocks) (hi : i < o.heapTrunkCount) {md : HeapMetadataT}
    {blocks' : List Block}
    (hold : TrunksHold (Function.update o.metadata i md) o.heapTrunkCount blocks') :
    (o.setMetadata i md).Ready blocks' ∧ o.SameBytes (o.setMetadata i md) := by
  refine ⟨⟨ready.init, ready.pages, ready.few, ?_, ?_⟩,
    sameBytes_setMetadata o (Nat.lt_of_lt_of_le hi ready.few) md⟩
  · intro j hj hj'
    change o.heapTrunkCount ≤ j at hj
    rw [metadata_setMetadata, Function.update_of_ne (by omega)]
    exact ready.blank j hj hj'
  · rw [metadata_setMetadata]
    exact hold

/-- A block taken from a trunk in use. -/
theorem Ready.take (ready : o.Ready blocks) (hi : i < o.heapTrunkCount) {md : HeapMetadataT}
    {ptr : Nat} (gives : (o.metadata i)._malloc (trunkBase i) size = (md, some ptr)) :
    (o.setMetadata i md).Ready (⟨ptr, size⟩ :: blocks) ∧ o.SameBytes (o.setMetadata i md) := by
  rw [trunkBase_eq] at gives
  exact ready.replace hi (ready.hold.grow hi gives)

/-- One more trunk. -/
theorem Ready.extend (ready : o.Ready blocks) (more : o.heapTrunkCount < maxTrunks) :
    o.morePage.withTrunk.Ready blocks ∧ o.SameBytes o.morePage.withTrunk := by
  have pages := ready.pages
  have room : o.pages < maxVirtualPages := by
    have hmax := maxVirtualPages_eq
    change o.heapTrunkCount < 53 at more
    omega
  have grown : o.morePage.pages = o.pages + 1 := by rw [morePage, if_pos room]
  have count := heapTrunkCount_morePage o
  have records : ∀ j, j < maxTrunks → o.morePage.withTrunk.metadata j = o.metadata j :=
    fun j hj => metadata_morePage hj (by omega)
  refine ⟨⟨?_, ?_, ?_, ?_, ?_⟩, sameBytes_morePage o⟩
  · exact (heapInit_morePage o).trans ready.init
  · change o.morePage.pages = o.morePage.heapTrunkCount + 1 + 1
    omega
  · change o.morePage.heapTrunkCount + 1 ≤ maxTrunks
    omega
  · intro j hj hj'
    change o.morePage.heapTrunkCount + 1 ≤ j at hj
    rw [records j hj']
    exact ready.blank j (by omega) hj'
  · change TrunksHold _ (o.morePage.heapTrunkCount + 1) blocks
    rw [count]
    refine (ready.hold.extend (ready.blank _ (Nat.le_refl _) more)).congr ?_
    exact fun j hj => records j (Nat.lt_of_lt_of_le hj more)

/-- `my_malloc` on an initialised heap with room for the record of one more trunk. -/
theorem Ready.mallocInitialised (ready : o.Ready blocks) (more : o.heapTrunkCount < maxTrunks)
    (size : Nat) : ∃ o' r, o.mallocInitialised size = some (o', r) ∧
      o'.Ready (grow blocks size r) ∧ o.SameBytes o' := by
  have some : 0 < o.pages := by
    rw [ready.pages]
    exact Nat.succ_pos _
  rw [OwnHeap.mallocInitialised]
  rcases mallocFrom_cases size o.heapTrunkCount 0 (by omega) some with
    misses | ⟨k, md, ptr, hk, gives, takes⟩
  · rw [misses]
    obtain ⟨ready₁, same₁⟩ := ready.extend more
    have last : o.morePage.heapTrunkCount < o.morePage.withTrunk.heapTrunkCount :=
      Nat.lt_succ_self _
    have some₁ : 0 < o.morePage.withTrunk.pages := by
      rw [ready₁.pages]
      exact Nat.succ_pos _
    dsimp only
    rcases mallocTrunk_cases (Nat.lt_of_lt_of_le last ready₁.few) some₁ size with
      ⟨misses', -⟩ | ⟨md, ptr, gives, takes⟩
    · exact ⟨_, none, misses', ready₁, same₁⟩
    · obtain ⟨ready₂, same₂⟩ := ready₁.take last gives
      exact ⟨_, .some ptr, takes, ready₂, same₁.trans same₂⟩
  · rw [takes]
    obtain ⟨ready₁, same₁⟩ := ready.take (by omega) gives
    exact ⟨_, .some ptr, rfl, ready₁, same₁⟩

/-- `my_malloc_init` leaves one trunk with nothing taken, and zero bytes. -/
theorem ready_myMallocInit (pages : o.pages = 0) :
    o.myMallocInit.Ready [] ∧ o.SameBytes o.myMallocInit := by
  have hmax := maxVirtualPages_eq
  have first : o.morePage.pages = 1 := by rw [morePage, if_pos (by omega), pages]
  have second : o.morePage.morePage.pages = 2 := by
    rw [morePage, if_pos (by omega), first]
  have blank : ∀ i, i < maxTrunks → o.myMallocInit.metadata i = .zero := by
    intro i hi
    change HeapMetadataT.load o.morePage.morePage.memory (trunkMetadata i) = .zero
    have kept := metadata_morePage (o := o.morePage) hi (by omega)
    change HeapMetadataT.load o.morePage.morePage.memory (trunkMetadata i) = _ at kept
    rw [kept]
    apply HeapMetadataT.load_of_zero
    intro x hlow hhigh
    change i < 53 at hi
    change 0x60000000 + i * 76 ≤ x at hlow
    change x < 0x60000000 + i * 76 + 76 at hhigh
    rw [memory_morePage o (show 0x60000000 ≤ x by omega), if_pos]
    refine ⟨by omega, ?_⟩
    change (x - 0x60000000) / 4096 = o.pages
    omega
  refine ⟨⟨rfl, second, ?_, fun i _ hi => blank i hi, ?_⟩,
    (sameBytes_morePage o).trans (sameBytes_morePage _)⟩
  · change 1 ≤ 53
    omega
  · refine ⟨?_, fun b hb => absurd hb List.not_mem_nil⟩
    intro i hi
    change i < 1 at hi
    rw [blank i (Nat.lt_trans hi (by decide))]
    exact .zero _

/-- `my_malloc`, while the thread has fewer trunks than the first page has records. -/
theorem Sound.myMalloc (sound : o.Sound blocks)
    (more : o.heapInit = true → o.heapTrunkCount < maxTrunks) (size : Nat) :
    ∃ o' r, o.myMalloc size = some (o', r) ∧ o'.Sound (grow blocks size r) ∧ o.SameBytes o' := by
  cases sound with
  | unused init pages none =>
      obtain ⟨ready, same⟩ := ready_myMallocInit pages
      have one : o.myMallocInit.heapTrunkCount < maxTrunks := by
        change 1 < 53
        omega
      obtain ⟨o', r, call, ready', same'⟩ := ready.mallocInitialised one size
      refine ⟨o', r, ?_, .ready (none ▸ ready'), same.trans same'⟩
      rw [OwnHeap.myMalloc, if_pos init, call]
  | ready ready =>
      obtain ⟨o', r, call, ready', same⟩ := ready.mallocInitialised (more ready.init) size
      refine ⟨o', r, ?_, .ready ready', same⟩
      have init : ¬ o.heapInit = false := by simp [ready.init]
      rw [OwnHeap.myMalloc, if_neg init, call]

/-- A live block is freed in the trunk that it lies in. -/
theorem Ready.recordOf_eq (ready : o.Ready blocks) (hb : b ∈ blocks) :
    recordOf b.address = some (ThreadHeap.trunkOf b.address) := by
  have few := ready.few
  have hlt := (ready.hold.placed b hb).2
  obtain ⟨r, k, hplace, -, -⟩ :=
    (ready.hold.held _ hlt).placed b (ThreadHeap.mem_trunkBlocks.mpr ⟨hb, rfl⟩)
  rw [TrunksHold.pageAddress_succ] at hplace
  have hk := r.place_lt k
  generalize ThreadHeap.trunkOf b.address = i at hlt hplace ⊢
  change o.heapTrunkCount ≤ 53 at few
  have record := OwnHeap.recordOf_eq
    (h := ⟨Process.start 0, true, 0, virtualHeapStart, trunkBase 0⟩) rfl b.address
  rw [← record, ThreadHeap.recordOf_eq_some]
  refine ⟨r, k, ?_⟩
  rw [ptrOffset_eq]
  · change (b.address : Int) - (0x60001000 : Nat) = (i * 4096 + r.place k : Nat)
    omega
  · change 0x60001000 ≤ b.address + 2 ^ 31
    omega
  · change b.address < 0x60001000 + 2 ^ 31
    omega

/-- `my_free` of a live block. -/
theorem Sound.myFree (sound : o.Sound blocks) (hb : b ∈ blocks) :
    ∃ o', o.myFree b.address = some o' ∧ o'.Sound (release blocks b.address) ∧
      o.SameBytes o' := by
  cases sound with
  | unused _ _ none =>
      rw [none] at hb
      cases hb
  | ready ready =>
      have hlt := (ready.hold.placed b hb).2
      have few := Nat.lt_of_lt_of_le hlt ready.few
      have some : 0 < o.pages := by
        rw [ready.pages]
        exact Nat.succ_pos _
      have init : ¬ o.heapInit = false := by simp [ready.init]
      have record := ready.recordOf_eq hb
      have freed := ready.hold.free hb
      rw [← trunkBase_eq] at freed
      generalize ThreadHeap.trunkOf b.address = i at hlt few record freed
      obtain ⟨ready', same⟩ := ready.replace hlt freed
      refine ⟨_, ?_, .ready ready', same⟩
      simp only [OwnHeap.myFree, if_neg init, record, if_pos (opens_of_lt few some)]

/-- The bytes of a live block lie in a page of the heap, behind the records. -/
theorem Sound.reaches (sound : o.Sound blocks) (hb : b ∈ blocks) (hlow : b.address ≤ x)
    (hhigh : x < b.address + b.size) :
    o.Reaches x ∧ virtualHeapStart + pageSize ≤ x := by
  cases sound with
  | unused _ _ none =>
      rw [none] at hb
      cases hb
  | ready ready =>
      obtain ⟨hlt, -, hstart, hend⟩ := ready.hold.inside hb
      have few := ready.few
      have pages := ready.pages
      generalize ThreadHeap.trunkOf b.address = i at hlt hstart hend
      change o.heapTrunkCount ≤ 53 at few
      refine ⟨⟨?_, ?_, ?_⟩, ?_⟩
      · change 0x60000000 ≤ x
        omega
      · change x < 0x607FBFFF
        omega
      · change (x - 0x60000000) / 4096 < o.pages
        omega
      · change 0x60001000 ≤ x
        omega

theorem byteAt_fresh (x : Nat) : fresh.byteAt x = 0 := if_neg (Nat.not_lt_zero _)

theorem byteAt_stored (reaches : o.Reaches x) (byte : UInt8) :
    ({ o with memory := Function.update o.memory x byte } : OwnHeap).byteAt =
      Function.update o.byteAt x byte := by
  funext y
  by_cases same : y = x
  · subst same
    rw [Function.update_self]
    exact (if_pos reaches.2.2).trans (Function.update_self _ _ _)
  · rw [Function.update_of_ne same]
    simp only [byteAt, Function.update_of_ne same]

/-- A byte behind the records that the program writes. -/
theorem Sound.stored (sound : o.Sound blocks) (behind : virtualHeapStart + pageSize ≤ x)
    (byte : UInt8) :
    ({ o with memory := Function.update o.memory x byte } : OwnHeap).Sound blocks := by
  cases sound with
  | unused init pages none => exact .unused init pages none
  | ready ready =>
      have records : ∀ i, i < maxTrunks →
          ({ o with memory := Function.update o.memory x byte } : OwnHeap).metadata i =
            o.metadata i := by
        intro i hi
        apply HeapMetadataT.load_congr
        intro y _ hhigh
        apply Function.update_of_ne
        change i < 53 at hi
        change y < 0x60000000 + i * 76 + 76 at hhigh
        change 0x60001000 ≤ x at behind
        omega
      refine .ready ⟨ready.init, ready.pages, ready.few, ?_, ?_⟩
      · intro i hi hi'
        rw [records i hi']
        exact ready.blank i hi hi'
      · exact ready.hold.congr fun i hi => records i (Nat.lt_of_lt_of_le hi ready.few)

/-- The live blocks do not meet. -/
theorem Sound.apart (sound : o.Sound blocks) : blocks.Pairwise Block.Apart := by
  cases sound with
  | unused _ _ none =>
      rw [none]
      exact .nil
  | ready ready => exact ready.hold.apart

end OwnHeap

end OsDesign.Heap
