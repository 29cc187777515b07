import OsDesign.Heap.Records
import OsDesign.Heap.Trunk
import OsDesign.Virt.Process

/-!
`tmp2/my_malloc.c`: the heap of one thread. Its trunks are the pages from the
second one of the window on; the metadata of all of them lie side by side from
the beginning of the first page. A full heap takes one more page.
-/
namespace OsDesign.Heap

open Virt

/-- The globals of `my_malloc.c` and the two words of `CURRENT` that belong to its
heap, with the process that provides the pages. -/
structure ThreadHeap where
  process : Process
  heapInit : Bool
  heapTrunkCount : Nat
  gMetadata : Nat
  gHeapPages : Nat

namespace ThreadHeap

def trunkMetadata (h : ThreadHeap) (i : Nat) : Nat := h.gMetadata + i * metadataSize

def trunkBase (h : ThreadHeap) (i : Nat) : Nat := h.gHeapPages + i * pageSize

/-- The bytes of the `i`-th record, read where the window has them. -/
def metadata (h : ThreadHeap) (i : Nat) : HeapMetadataT :=
  HeapMetadataT.load h.process.vm.memory (h.trunkMetadata i)

def setMetadata (h : ThreadHeap) (i : Nat) (md : HeapMetadataT) : ThreadHeap :=
  { h with
    process := { h.process with
      vm := { h.process.vm with
        memory := md.store (h.trunkMetadata i) h.process.vm.memory } } }

/-- The page faults on the way to the `i`-th record, which lies in one page or
in two. -/
def openRecord (h : ThreadHeap) (i : Nat) : Except Stop ThreadHeap :=
  match h.process.access (h.trunkMetadata i) with
  | .error stop => .error stop
  | .ok process =>
      match process.access (h.trunkMetadata i + (metadataSize - 1)) with
      | .error stop => .error stop
      | .ok process => .ok { h with process := process }

theorem openRecord_ok {h h' : ThreadHeap} {i : Nat} (taken : h.openRecord i = .ok h') :
    ∃ p p', h.process.access (h.trunkMetadata i) = .ok p ∧
      p.access (h.trunkMetadata i + (metadataSize - 1)) = .ok p' ∧
        h' = { h with process := p' } := by
  rw [openRecord] at taken
  split at taken
  · cases taken
  · rename_i p first
    split at taken
    · cases taken
    · rename_i p' last
      exact ⟨p, p', first, last, (Except.ok.inj taken).symm⟩

/-- `_malloc` on the `i`-th trunk. It returns before any access when no region
has slots of the size, and writes only if it returns a block. -/
def mallocTrunk (h : ThreadHeap) (i size : Nat) : Except Stop (ThreadHeap × Option Nat) :=
  match Region.ofSize size with
  | none => .ok (h, none)
  | some _ =>
      match h.openRecord i with
      | .error stop => .error stop
      | .ok h =>
          match (h.metadata i)._malloc (h.trunkBase i) size with
          | (_, none) => .ok (h, none)
          | (md, some ptr) => .ok (h.setMetadata i md, some ptr)

/-- Go through the trunks from `i` on until one of them returns a block. -/
def mallocFrom (size : Nat) : Nat → Nat → ThreadHeap → Except Stop (ThreadHeap × Option Nat)
  | 0, _, h => .ok (h, none)
  | turns + 1, i, h =>
      match h.mallocTrunk i size with
      | .error stop => .error stop
      | .ok (h, some ptr) => .ok (h, some ptr)
      | .ok (h, none) => mallocFrom size turns (i + 1) h

/-- A call of `mm_allocate_page` that ignores the address. -/
def morePage (h : ThreadHeap) : Except Stop ThreadHeap :=
  match h.process.allocatePage with
  | .error stop => .error stop
  | .ok (process, _) => .ok { h with process := process }

def myMallocInit (h : ThreadHeap) : Except Stop ThreadHeap :=
  match h.morePage with
  | .error stop => .error stop
  | .ok h =>
      match h.morePage with
      | .error stop => .error stop
      | .ok h =>
          .ok { h with
            gMetadata := virtualHeapStart
            gHeapPages := virtualHeapStart + pageSize
            heapTrunkCount := 1
            heapInit := true }

/-- `my_malloc` once the heap is initialised. -/
def mallocInitialised (size : Nat) (h : ThreadHeap) : Except Stop (ThreadHeap × Option Nat) :=
  match mallocFrom size h.heapTrunkCount 0 h with
  | .error stop => .error stop
  | .ok (h, some ptr) => .ok (h, some ptr)
  | .ok (h, none) =>
      match h.morePage with
      | .error stop => .error stop
      | .ok h =>
          let h := { h with heapTrunkCount := h.heapTrunkCount + 1 }
          h.mallocTrunk (h.heapTrunkCount - 1) size

/-- `get_heap_init` reads `CURRENT`. -/
def myMalloc (size : Nat) (h : ThreadHeap) : Except Stop (ThreadHeap × Option Nat) :=
  match h.process.current with
  | none => .error .nullDereference
  | some _ =>
      if h.heapInit = false then
        match h.myMallocInit with
        | .error stop => .error stop
        | .ok h => h.mallocInitialised size
      else h.mallocInitialised size

/-- `my_free`; a pointer below the trunks is left alone. -/
def myFree (ptr : Nat) (h : ThreadHeap) : Except Stop ThreadHeap :=
  if ptrOffset h.gHeapPages ptr < 0 then .ok h
  else
    let trunk := (ptrOffset h.gHeapPages ptr).toNat / pageSize
    match freeTarget (h.trunkBase trunk) ptr with
    | none => .ok h
    | some _ =>
        match h.openRecord trunk with
        | .error stop => .error stop
        | .ok h => .ok (h.setMetadata trunk ((h.metadata trunk)._free (h.trunkBase trunk) ptr))

end ThreadHeap

end OsDesign.Heap
