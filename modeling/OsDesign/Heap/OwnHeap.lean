import OsDesign.Heap.FreedRecords
import OsDesign.Virt.PrivateMemory

/-!
The heap of a thread that has the machine to itself. It has the first pages of the window
for its own, and the calls of `tmp2/my_malloc.c` work on their bytes: there are no frames,
no swap file and no other threads. A call that touches a byte outside the pages has no
outcome.
-/
namespace OsDesign.Heap

open Virt ByteStore

structure OwnHeap where
  memory : Nat → UInt8
  pages : Nat
  heapInit : Bool
  heapTrunkCount : Nat

namespace OwnHeap

/-- No page is allocated and `my_malloc` was not called. -/
def fresh : OwnHeap := ⟨fun _ => 0, 0, false, 0⟩

/-- The byte is in a page of the heap, and the page-fault handler knows its address. -/
def Reaches (o : OwnHeap) (address : Nat) : Prop :=
  virtualHeapStart ≤ address ∧ address < virtualHeapEnd ∧ miGetpteindex address < o.pages

instance (o : OwnHeap) (address : Nat) : Decidable (o.Reaches address) :=
  inferInstanceAs (Decidable (_ ∧ _ ∧ _))

def trunkMetadata (i : Nat) : Nat := virtualHeapStart + i * metadataSize

def trunkBase (i : Nat) : Nat := virtualHeapStart + pageSize + i * pageSize

/-- A record lies in one page or in two. -/
def Opens (o : OwnHeap) (i : Nat) : Prop :=
  o.Reaches (trunkMetadata i) ∧ o.Reaches (trunkMetadata i + (metadataSize - 1))

instance (o : OwnHeap) (i : Nat) : Decidable (o.Opens i) :=
  inferInstanceAs (Decidable (_ ∧ _))

def metadata (o : OwnHeap) (i : Nat) : HeapMetadataT :=
  HeapMetadataT.load o.memory (trunkMetadata i)

def setMetadata (o : OwnHeap) (i : Nat) (md : HeapMetadataT) : OwnHeap :=
  { o with memory := md.store (trunkMetadata i) o.memory }

/-- `mm_allocate_page`: the next page of the window, zeroed, if there is one. -/
def morePage (o : OwnHeap) : OwnHeap :=
  if o.pages < maxVirtualPages then
    { o with
      memory := write o.memory (pageAddress o.pages) fun _ : Fin pageSize => 0
      pages := o.pages + 1 }
  else o

def mallocTrunk (size i : Nat) (o : OwnHeap) : Option (OwnHeap × Option Nat) :=
  match Region.ofSize size with
  | none => some (o, none)
  | some _ =>
      if o.Opens i then
        match (o.metadata i)._malloc (trunkBase i) size with
        | (_, none) => some (o, none)
        | (md, some ptr) => some (o.setMetadata i md, some ptr)
      else none

/-- Go through the trunks from `i` on until one of them returns a block. -/
def mallocFrom (size : Nat) : Nat → Nat → OwnHeap → Option (OwnHeap × Option Nat)
  | 0, _, o => some (o, none)
  | turns + 1, i, o =>
      match o.mallocTrunk size i with
      | none => none
      | some (o, some ptr) => some (o, some ptr)
      | some (o, none) => mallocFrom size turns (i + 1) o

def myMallocInit (o : OwnHeap) : OwnHeap :=
  { o.morePage.morePage with heapInit := true, heapTrunkCount := 1 }

def withTrunk (o : OwnHeap) : OwnHeap := { o with heapTrunkCount := o.heapTrunkCount + 1 }

def mallocInitialised (size : Nat) (o : OwnHeap) : Option (OwnHeap × Option Nat) :=
  match mallocFrom size o.heapTrunkCount 0 o with
  | none => none
  | some (o, some ptr) => some (o, some ptr)
  | some (o, none) => o.morePage.withTrunk.mallocTrunk size o.morePage.heapTrunkCount

def myMalloc (size : Nat) (o : OwnHeap) : Option (OwnHeap × Option Nat) :=
  if o.heapInit = false then o.myMallocInit.mallocInitialised size
  else o.mallocInitialised size

/-- The record that `my_free` works on; none for a pointer that it leaves alone. -/
def recordOf (ptr : Nat) : Option Nat :=
  if ptrOffset (trunkBase 0) ptr < 0 then none
  else
    (freeTarget (trunkBase ((ptrOffset (trunkBase 0) ptr).toNat / pageSize)) ptr).map
      fun _ => (ptrOffset (trunkBase 0) ptr).toNat / pageSize

/-- A thread that has not called `my_malloc` has nothing to free. -/
def myFree (ptr : Nat) (o : OwnHeap) : Option OwnHeap :=
  if o.heapInit = false then none
  else
    match recordOf ptr with
    | none => some o
    | some trunk =>
        if o.Opens trunk then
          some (o.setMetadata trunk ((o.metadata trunk)._free (trunkBase trunk) ptr))
        else none

def load (address : Nat) (o : OwnHeap) : Option UInt8 :=
  if o.Reaches address then some (o.memory address) else none

def store (address : Nat) (byte : UInt8) (o : OwnHeap) : Option OwnHeap :=
  if o.Reaches address then some { o with memory := Function.update o.memory address byte }
  else none

variable {o : OwnHeap} {x i : Nat}

/-- `my_free` goes to the same record wherever the heap lies. -/
theorem recordOf_eq {h : ThreadHeap} (base : h.gHeapPages = trunkBase 0) (ptr : Nat) :
    h.recordOf ptr = recordOf ptr := by
  have trunks : h.trunkBase = trunkBase := by
    funext i
    rw [ThreadHeap.trunkBase, base, trunkBase, trunkBase]
    omega
  rw [ThreadHeap.recordOf, recordOf, base, trunks]

theorem heapTrunkCount_morePage (o : OwnHeap) : o.morePage.heapTrunkCount = o.heapTrunkCount := by
  rw [morePage]
  split <;> rfl

theorem heapInit_morePage (o : OwnHeap) : o.morePage.heapInit = o.heapInit := by
  rw [morePage]
  split <;> rfl

theorem pages_morePage_le (o : OwnHeap) : o.morePage.pages ≤ o.pages + 1 := by
  rw [morePage]
  split
  · exact Nat.le_refl _
  · exact Nat.le_succ _

/-- The bytes of a page that is granted are zero; the others are as before. -/
theorem memory_morePage (o : OwnHeap) (hlow : virtualHeapStart ≤ x) :
    o.morePage.memory x =
      if o.pages < maxVirtualPages ∧ miGetpteindex x = o.pages then 0 else o.memory x := by
  have place := Process.pageAddress_offset hlow
  by_cases room : o.pages < maxVirtualPages
  · rw [morePage, if_pos room]
    by_cases new : miGetpteindex x = o.pages
    · rw [if_pos ⟨room, new⟩]
      dsimp only
      rw [← place, new]
      exact congrFun (read_write_self o.memory (pageAddress o.pages) fun _ : Fin pageSize => 0)
        (PrivateMemory.offset x)
    · rw [if_neg fun both => new both.2]
      have old := congrFun (read_write_of_ne o.memory virtualHeapStart o.pages
        (miGetpteindex x) (fun _ : Fin pageSize => (0 : UInt8)) (Ne.symm new))
        (PrivateMemory.offset x)
      change write o.memory (pageAddress o.pages) (fun _ : Fin pageSize => 0)
        (pageAddress (miGetpteindex x) + (PrivateMemory.offset x).val) =
          o.memory (pageAddress (miGetpteindex x) + (PrivateMemory.offset x).val) at old
      rwa [place] at old
  · rw [morePage, if_neg room, if_neg fun both => room both.1]

/-- `_malloc` on a trunk writes bytes and nothing else. -/
theorem mallocTrunk_rest {o' : OwnHeap} {size : Nat} {r : Option Nat}
    (own : o.mallocTrunk size i = some (o', r)) : ∃ memory, o' = { o with memory := memory } := by
  rw [mallocTrunk] at own
  split at own
  · cases own
    exact ⟨_, rfl⟩
  split at own
  · split at own <;> cases own <;> exact ⟨_, rfl⟩
  · cases own

theorem mallocFrom_rest {o' : OwnHeap} {size turns : Nat} {r : Option Nat}
    (own : mallocFrom size turns i o = some (o', r)) :
    ∃ memory, o' = { o with memory := memory } := by
  induction turns generalizing i o with
  | zero =>
      cases own
      exact ⟨_, rfl⟩
  | succ turns ih =>
      rw [mallocFrom] at own
      cases hcall : o.mallocTrunk size i with
      | none =>
          rw [hcall] at own
          cases own
      | some outcome =>
          obtain ⟨o₁, ptr⟩ := outcome
          obtain ⟨memory, rfl⟩ := mallocTrunk_rest hcall
          rw [hcall] at own
          cases ptr with
          | none =>
              have rest : mallocFrom size turns (i + 1) { o with memory := memory } =
                some (o', r) := own
              obtain ⟨memory', same⟩ := ih rest
              exact ⟨memory', same⟩
          | some a =>
              cases own
              exact ⟨_, rfl⟩

/-- The bytes of a record that opens are in the pages of the heap. -/
theorem Opens.reaches (opens : o.Opens i) (hlow : trunkMetadata i ≤ x)
    (hhigh : x < trunkMetadata i + metadataSize) : o.Reaches x := by
  obtain ⟨⟨hstart, -, -⟩, -, hend, hpage⟩ := opens
  generalize trunkMetadata i = a at hstart hend hpage hlow hhigh
  change 0x60000000 ≤ a at hstart
  change a + 75 < 0x607FBFFF at hend
  change (a + 75 - 0x60000000) / 4096 < o.pages at hpage
  change x < a + 76 at hhigh
  refine ⟨?_, ?_, ?_⟩
  · change 0x60000000 ≤ x
    omega
  · change x < 0x607FBFFF
    omega
  · have hle : x - 0x60000000 ≤ a + 75 - 0x60000000 := by omega
    exact Nat.lt_of_le_of_lt (Nat.div_le_div_right hle) hpage

end OwnHeap

end OsDesign.Heap
