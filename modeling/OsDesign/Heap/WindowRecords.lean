import OsDesign.Heap.FirstFit

/-!
The records in the bytes of a thread's pages, wherever these lie. While the
program leaves those bytes alone, `my_malloc` and `my_free` on the bytes do to the
records what they do to records kept apart.
-/
namespace OsDesign.Heap

open Loops Virt ByteStore

namespace ThreadHeap

/-- The `i`-th record in the private memory of thread `t`. -/
def seen (h : ThreadHeap) (t : ThreadId) (i : Nat) : HeapMetadataT :=
  HeapMetadataT.load (h.process.privateMemory.shown t) (h.trunkMetadata i)

/-- The heap with the first `limit` records that its bytes stand for. -/
def recorded (h : ThreadHeap) (t : ThreadId) (limit : Nat) : RecordHeap :=
  ⟨h, fun i => if i < limit then h.seen t i else .zero⟩

/-- The first `limit` records lie in the window. -/
structure InWindow (h : ThreadHeap) (limit : Nat) : Prop where
  metadataAt : h.gMetadata = virtualHeapStart
  fits : limit * metadataSize ≤ maxVirtualPages * pageSize

variable {h h' : ThreadHeap} {t : ThreadId} {limit i j : Nat}

theorem InWindow.page_lt (window : h.InWindow limit) {x : Nat}
    (hx : x < virtualHeapStart + limit * metadataSize) : miGetpteindex x < maxVirtualPages := by
  have hfits := window.fits
  change limit * 76 ≤ maxVirtualPages * 4096 at hfits
  change x < 0x60000000 + limit * 76 at hx
  change (x - 0x60000000) / 4096 < maxVirtualPages
  have hmax := maxVirtualPages_eq
  omega

theorem records_of_lt (hi : i < limit) : (h.recorded t limit).records i = h.seen t i := by
  simp only [recorded, hi, if_true]

/-- Heaps that show the same bytes below the end of the records have the same records. -/
theorem InWindow.records_congr (window : h.InWindow limit) (hmetadata : h'.gMetadata = h.gMetadata)
    (same : ∀ x, virtualHeapStart ≤ x → x < virtualHeapStart + limit * metadataSize →
      h'.process.privateMemory.shown t x = h.process.privateMemory.shown t x) :
    (h'.recorded t limit).records = (h.recorded t limit).records := by
  funext i
  by_cases hi : i < limit
  · rw [records_of_lt hi, records_of_lt hi, seen, seen, trunkMetadata, hmetadata, ← trunkMetadata]
    apply HeapMetadataT.load_congr
    intro x hlow hhigh
    rw [trunkMetadata, window.metadataAt] at hlow hhigh
    change 0x60000000 + i * 76 ≤ x at hlow
    change x < 0x60000000 + i * 76 + 76 at hhigh
    apply same
    · change 0x60000000 ≤ x
      omega
    · change x < 0x60000000 + limit * 76
      omega
  · simp only [recorded, hi, if_false]

/-- Page faults of the running thread leave its records as they are. -/
theorem InWindow.records_served (window : h.InWindow limit) (ht : h.process.live t = true)
    {process : Process} (served : h.process.Served process) :
    (({ h with process := process } : ThreadHeap).recorded t limit).records =
      (h.recorded t limit).records := by
  refine window.records_congr rfl ?_
  intro x _ hx
  simp only [PrivateMemory.shown, served.kept t _ ht (window.page_lt hx)]

/-- A page that is granted shows what was shown before: zero bytes. -/
theorem InWindow.shown_granted (window : h.InWindow limit) {process : Process} {n : Nat}
    (unused : n < maxVirtualPages → h.process.privateMemory t n = none)
    (granted : ∀ j, j < maxVirtualPages → process.privateMemory t j =
      if j = n then some (fun _ => 0) else h.process.privateMemory t j) :
    ∀ x, virtualHeapStart ≤ x → x < virtualHeapStart + limit * metadataSize →
      process.privateMemory.shown t x = h.process.privateMemory.shown t x := by
  intro x _ hx
  have hj := window.page_lt hx
  simp only [PrivateMemory.shown, granted _ hj]
  by_cases hn : miGetpteindex x = n
  · rw [if_pos hn, hn, unused (hn ▸ hj)]
  · rw [if_neg hn]

/-- A record that was opened is read in the window. -/
theorem Opened.metadata_eq (opened : h.Opened t i) (hcurrent : h.process.current = some t)
    (metadataAt : h.gMetadata = virtualHeapStart) : h.metadata i = h.seen t i := by
  obtain ⟨⟨p, hfirst⟩, q, hlast⟩ := opened
  apply HeapMetadataT.load_congr
  intro x hlow hhigh
  rw [trunkMetadata, metadataAt] at hfirst hlast hlow hhigh
  change 0x60000000 + i * 76 ≤ x at hlow
  change x < 0x60000000 + i * 76 + 76 at hhigh
  have hstart : virtualHeapStart ≤ x := by
    change 0x60000000 ≤ x
    omega
  -- a record reaches over one page boundary at most
  have hpage : miGetpteindex x = miGetpteindex (virtualHeapStart + i * metadataSize) ∨
      miGetpteindex x =
        miGetpteindex (virtualHeapStart + i * metadataSize + (metadataSize - 1)) := by
    change (x - 0x60000000) / 4096 = (0x60000000 + i * 76 - 0x60000000) / 4096 ∨
      (x - 0x60000000) / 4096 = (0x60000000 + i * 76 + 75 - 0x60000000) / 4096
    omega
  rcases hpage with hpage | hpage
  · exact (Process.shown_eq_memory hcurrent hstart (hpage.symm ▸ hfirst)).symm
  · exact (Process.shown_eq_memory hcurrent hstart (hpage.symm ▸ hlast)).symm

/-- A record written where it was opened replaces the one that was there. -/
theorem InWindow.records_setMetadata (window : h.InWindow limit) (opened : h.Opened t i)
    (hcurrent : h.process.current = some t) (hi : i < limit) (md : HeapMetadataT) :
    ((h.setMetadata i md).recorded t limit).records =
      Function.update (h.recorded t limit).records i md := by
  have hself : (h.setMetadata i md).seen t i = md := by
    have opened' : (h.setMetadata i md).Opened t i := opened
    rw [← opened'.metadata_eq hcurrent window.metadataAt]
    exact metadata_setMetadata_self h i md
  funext j
  by_cases hji : j = i
  · rw [hji, records_of_lt hi, hself, Function.update_self]
  · rw [Function.update_of_ne hji]
    by_cases hj : j < limit
    · rw [records_of_lt hj, records_of_lt hj]
      apply HeapMetadataT.load_congr
      intro x hlow hhigh
      change h.trunkMetadata j ≤ x at hlow
      change x < h.trunkMetadata j + 76 at hhigh
      rw [trunkMetadata, window.metadataAt] at hlow hhigh
      change 0x60000000 + j * 76 ≤ x at hlow
      change x < 0x60000000 + j * 76 + 76 at hhigh
      apply Process.shown_stored hcurrent
      · change 0x60000000 ≤ x
        omega
      · apply HeapMetadataT.store_apply_of_outside
        rw [trunkMetadata, window.metadataAt]
        change x < 0x60000000 + i * 76 ∨ 0x60000000 + i * 76 + 76 ≤ x
        omega
    · simp only [recorded, hj, if_false]

end ThreadHeap

end OsDesign.Heap
