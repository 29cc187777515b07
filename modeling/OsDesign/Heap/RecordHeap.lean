import OsDesign.Heap.LiveSlots
import OsDesign.Heap.TrunkLayout
import OsDesign.Virt.ThreadPages

/-!
The heap of one thread with its trunk metadata kept apart from the pages.
`my_malloc` and `my_free` use the `i`-th record where `tmp2/my_malloc.c` uses
`g_metadata[i]`; the page faults on the way to it are the same.
-/
namespace OsDesign.Heap

open Loops Virt

/-- The heap with a record for each trunk, whatever the bytes of its pages. -/
structure RecordHeap where
  heap : ThreadHeap
  records : Nat → HeapMetadataT

namespace RecordHeap

def setRecord (h : RecordHeap) (i : Nat) (md : HeapMetadataT) : RecordHeap :=
  { h with records := Function.update h.records i md }

theorem records_setRecord_self (h : RecordHeap) (i : Nat) (md : HeapMetadataT) :
    (h.setRecord i md).records i = md := by
  simp only [setRecord, Function.update_self]

theorem records_setRecord_of_ne (h : RecordHeap) {i j : Nat} (md : HeapMetadataT) (hne : j ≠ i) :
    (h.setRecord i md).records j = h.records j := by
  simp only [setRecord, Function.update_of_ne hne]

def openRecord (h : RecordHeap) (i : Nat) : Except Stop RecordHeap :=
  match h.heap.openRecord i with
  | .error stop => .error stop
  | .ok heap => .ok { h with heap := heap }

def mallocTrunk (size i : Nat) (h : RecordHeap) : Except Stop (RecordHeap × Option Nat) :=
  match Region.ofSize size with
  | none => .ok (h, none)
  | some _ =>
      match h.openRecord i with
      | .error stop => .error stop
      | .ok h =>
          match (h.records i)._malloc (h.heap.trunkBase i) size with
          | (_, none) => .ok (h, none)
          | (md, some ptr) => .ok (h.setRecord i md, some ptr)

def mallocFrom (size : Nat) : Nat → Nat → RecordHeap → Except Stop (RecordHeap × Option Nat) :=
  searchFrom (mallocTrunk size)

def morePage (h : RecordHeap) : Except Stop RecordHeap :=
  match h.heap.morePage with
  | .error stop => .error stop
  | .ok heap => .ok { h with heap := heap }

def myMallocInit (h : RecordHeap) : Except Stop RecordHeap :=
  match h.heap.myMallocInit with
  | .error stop => .error stop
  | .ok heap => .ok { h with heap := heap }

def withTrunk (h : RecordHeap) : RecordHeap := { h with heap := h.heap.withTrunk }

def mallocInitialised (size : Nat) (h : RecordHeap) : Except Stop (RecordHeap × Option Nat) :=
  match mallocFrom size h.heap.heapTrunkCount 0 h with
  | .error stop => .error stop
  | .ok (h, some ptr) => .ok (h, some ptr)
  | .ok (h, none) =>
      match h.morePage with
      | .error stop => .error stop
      | .ok h => h.withTrunk.mallocTrunk size (h.withTrunk.heap.heapTrunkCount - 1)

def myMalloc (size : Nat) (h : RecordHeap) : Except Stop (RecordHeap × Option Nat) :=
  match h.heap.process.current with
  | none => .error .nullDereference
  | some _ =>
      if h.heap.heapInit = false then
        match h.myMallocInit with
        | .error stop => .error stop
        | .ok h => h.mallocInitialised size
      else h.mallocInitialised size

def myFree (ptr : Nat) (h : RecordHeap) : Except Stop RecordHeap :=
  if ptrOffset h.heap.gHeapPages ptr < 0 then .ok h
  else
    let trunk := (ptrOffset h.heap.gHeapPages ptr).toNat / pageSize
    match freeTarget (h.heap.trunkBase trunk) ptr with
    | none => .ok h
    | some _ =>
        match h.openRecord trunk with
        | .error stop => .error stop
        | .ok h => .ok (h.setRecord trunk ((h.records trunk)._free (h.heap.trunkBase trunk) ptr))

end RecordHeap

namespace ThreadHeap

variable {h h' : ThreadHeap} {t : ThreadId} {i : Nat}

/-- The one or two pages of the `i`-th record are in memory. -/
def Opened (h : ThreadHeap) (t : ThreadId) (i : Nat) : Prop :=
  (∃ p, h.process.vm.view t (miGetpteindex (h.trunkMetadata i)) = .inMemory p) ∧
    ∃ p, h.process.vm.view t (miGetpteindex (h.trunkMetadata i + (metadataSize - 1))) = .inMemory p

/-- Opening a record serves page faults and does nothing else. -/
theorem served_of_openRecord (inv : h.process.Inv) (taken : h.openRecord i = .ok h') :
    h.process.Served h'.process ∧ h' = { h with process := h'.process } := by
  obtain ⟨_, process, hfirst, hlast, rfl⟩ := openRecord_ok taken
  have first := inv.served_of_access hfirst
  exact ⟨first.trans (first.inv.served_of_access hlast), rfl⟩

/-- A record in the pages that the thread has is found in memory, brought back, or
its access ends in `swap_out`'s panic. -/
theorem openRecord_cases {n : Nat} (pages : h.process.FirstPages t n)
    (hcurrent : h.process.current = some t) (metadataAt : h.gMetadata = virtualHeapStart)
    (fits : (i + 1) * metadataSize ≤ n * pageSize) (few : n ≤ maxVirtualPages) :
    (h.openRecord i = .error (.panic "swap_out: Swap file is full\n") ∧
      h.process.left ≤ 0) ∨
    ∃ process, h.openRecord i = .ok { h with process := process } ∧ h.process.Served process ∧
      ({ h with process := process } : ThreadHeap).Opened t i := by
  have hmax := maxVirtualPages_eq
  have inside : ∀ k, k < metadataSize → virtualHeapStart ≤ h.trunkMetadata i + k ∧
      h.trunkMetadata i + k < virtualHeapEnd ∧ miGetpteindex (h.trunkMetadata i + k) < n := by
    intro k hk
    change k < 76 at hk
    change (i + 1) * 76 ≤ n * 4096 at fits
    rw [trunkMetadata, metadataAt]
    refine ⟨?_, ?_, ?_⟩
    · change 0x60000000 ≤ 0x60000000 + i * 76 + k
      omega
    · change 0x60000000 + i * 76 + k < 0x607FBFFF
      omega
    · change (0x60000000 + i * 76 + k - 0x60000000) / 4096 < n
      omega
  obtain ⟨hlow, hhigh, hpage⟩ := inside 0 (by decide)
  obtain ⟨hlow', hhigh', hpage'⟩ := inside (metadataSize - 1) (by decide)
  rcases pages.access hcurrent hlow hhigh hpage with
    ⟨hpanic, full⟩ | ⟨process, p, hfirst, served, hview⟩
  · rw [Nat.add_zero] at hpanic
    exact .inl ⟨by simp only [openRecord, hpanic], full⟩
  · rw [Nat.add_zero] at hfirst hview
    have hcurrent' : process.current = some t := served.current.trans hcurrent
    rcases (pages.served served).access hcurrent' hlow' hhigh' hpage' with
      ⟨hpanic, full⟩ | ⟨process', p', hlast, served', hview'⟩
    · exact .inl ⟨by simp only [openRecord, hfirst, hpanic], served.left ▸ full⟩
    · refine .inr ⟨process', by simp only [openRecord, hfirst, hlast], served.trans served', ?_,
        p', hview'⟩
      exact ⟨p, served'.resident t _ p hcurrent' hview⟩

end ThreadHeap

end OsDesign.Heap
