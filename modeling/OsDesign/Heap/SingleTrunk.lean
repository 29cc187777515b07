import OsDesign.Heap.OwnBlocks

/-!
The heap of a thread that never needs a second trunk. While no block is live, `my_malloc`
finds one of every class in the first trunk, so that a thread which frees each block before
it asks for the next is always served and keeps its two pages.
-/
namespace OsDesign.Heap

open Virt

namespace OwnHeap

/-- The heap has these live blocks, and one trunk once `my_malloc` was called. -/
structure Single (o : OwnHeap) (blocks : List Block) : Prop where
  sound : o.Sound blocks
  one : o.heapInit = true → o.heapTrunkCount = 1

variable {o o' : OwnHeap} {blocks : List Block} {b : Block} {size ptr x : Nat}

theorem single_fresh : fresh.Single [] := ⟨.unused rfl rfl rfl, fun init => by cases init⟩

theorem Single.pages_le (single : o.Single blocks) : o.pages ≤ 2 := by
  cases single.sound with
  | unused _ pages _ => omega
  | ready ready =>
      have pages := ready.pages
      rw [single.one ready.init] at pages
      omega

/-- A page without live blocks has a free slot of every class. -/
theorem malloc_of_empty {md : HeapMetadataT} {base : Nat} (hold : md.Holds base [])
    (served : 0 < size ∧ size ≤ 512) : ∃ ptr, (md._malloc base size).2 = some ptr := by
  refine Option.ne_none_iff_exists'.mp fun refused => ?_
  rcases hold.malloc_eq_none.mp refused with zero | large | ⟨r, -, full⟩
  · omega
  · omega
  · have first : 0 < r.slots := by cases r <;> decide
    obtain ⟨b, mem, -⟩ := (hold.held r ⟨0, first⟩).mp (full ⟨0, first⟩)
    cases mem

/-- The search begins at the first trunk. -/
theorem Ready.mallocFirst (ready : o.Ready []) (one : o.heapTrunkCount = 1)
    (served : 0 < size ∧ size ≤ 512) : ∃ o' ptr, o.mallocInitialised size = some (o', some ptr) ∧
      o'.Single [⟨ptr, size⟩] ∧ o.SameBytes o' ∧ o'.pages = o.pages := by
  have first : 0 < o.heapTrunkCount := by omega
  have some : 0 < o.pages := by
    rw [ready.pages]
    exact Nat.succ_pos _
  have hold := ready.hold.held 0 first
  rw [← trunkBase_eq] at hold
  obtain ⟨ptr', given⟩ := malloc_of_empty hold served
  rcases mallocTrunk_cases (Nat.lt_of_lt_of_le first ready.few) some size with
    ⟨-, refused⟩ | ⟨md, ptr, gives, takes⟩
  · rw [refused] at given
    cases given
  · obtain ⟨taken, same⟩ := ready.take first gives
    refine ⟨_, ptr, ?_, ⟨.ready taken, fun _ => one⟩, same, rfl⟩
    rw [OwnHeap.mallocInitialised, one, mallocFrom, takes]

/-- A block of every class, while none is live. -/
theorem Single.malloc (single : o.Single []) (served : 0 < size ∧ size ≤ 512) :
    ∃ o' ptr, o.myMalloc size = some (o', some ptr) ∧ o'.Single [⟨ptr, size⟩] ∧
      o.SameBytes o' ∧ o.pages ≤ o'.pages := by
  cases single.sound with
  | unused init pages none =>
      obtain ⟨ready, same⟩ := ready_myMallocInit pages
      obtain ⟨o', ptr, call, single', same', kept⟩ := ready.mallocFirst rfl served
      refine ⟨o', ptr, ?_, single', same.trans same', ?_⟩
      · rw [myMalloc, if_pos init, call]
      · rw [pages]
        exact Nat.zero_le _
  | ready ready =>
      obtain ⟨o', ptr, call, single', same, kept⟩ :=
        ready.mallocFirst (single.one ready.init) served
      have init : ¬ o.heapInit = false := by simp [ready.init]
      refine ⟨o', ptr, ?_, single', same, kept.ge⟩
      rw [myMalloc, if_neg init, call]

/-- `my_free` writes bytes and nothing else. -/
theorem myFree_rest (freed : o.myFree ptr = some o') :
    ∃ memory, o' = { o with memory := memory } := by
  rw [OwnHeap.myFree] at freed
  split at freed
  · cases freed
  split at freed
  · cases freed
    exact ⟨_, rfl⟩
  split at freed
  · cases freed
    exact ⟨_, rfl⟩
  · cases freed

theorem Single.free (single : o.Single blocks) (hb : b ∈ blocks) :
    ∃ o', o.myFree b.address = some o' ∧ o'.Single (release blocks b.address) ∧
      o.pages ≤ o'.pages := by
  obtain ⟨o', freed, sound, -⟩ := single.sound.myFree hb
  refine ⟨o', freed, ⟨sound, ?_⟩, ?_⟩ <;> obtain ⟨memory, rfl⟩ := myFree_rest freed
  · exact single.one
  · exact Nat.le_refl _

/-- A byte of a live block is read. -/
theorem Single.load (single : o.Single blocks) (hb : b ∈ blocks) (hlow : b.address ≤ x)
    (hhigh : x < b.address + b.size) : o.load x = some (o.byteAt x) := by
  have reaches := (single.sound.reaches hb hlow hhigh).1
  rw [OwnHeap.load, if_pos reaches, byteAt, if_pos reaches.2.2]

/-- A byte of a live block is written, and no other byte. -/
theorem Single.store (single : o.Single blocks) (hb : b ∈ blocks) (hlow : b.address ≤ x)
    (hhigh : x < b.address + b.size) (byte : UInt8) :
    ∃ o', o.store x byte = some o' ∧ o'.Single blocks ∧
      o'.byteAt = Function.update o.byteAt x byte ∧ o'.pages = o.pages := by
  obtain ⟨reaches, behind⟩ := single.sound.reaches hb hlow hhigh
  exact ⟨_, if_pos reaches, ⟨single.sound.stored behind byte, single.one⟩,
    byteAt_stored reaches byte, rfl⟩

end OwnHeap

end OsDesign.Heap
