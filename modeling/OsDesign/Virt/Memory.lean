import OsDesign.Lib.Loops
import OsDesign.Lib.ByteStore
import OsDesign.Virt.PageTable

/-!
The paging layer: `virt.c` and `swap.c`. All threads share one window of
virtual pages; a thread that is not running has its pages in frames or in
slots of the swap file. Functions that read `CURRENT` take it as `current`.
A call that ends the process is an error.
-/
namespace OsDesign.Virt

open Loops ByteStore

/-- Threads are told apart by the address of their `thread_info_t`. -/
abbrev ThreadId := Nat

abbrev pageSize : Nat := 0x1000

abbrev virtualHeapStart : Nat := 0x60000000
abbrev virtualHeapEnd : Nat := 0x607FBFFF
abbrev virtualShareStart : Nat := 0x607FC000
abbrev virtualShareEnd : Nat := 0x607FFFFF

/-- `MI_ROUND_TO_SIZE`, in 64-bit arithmetic. -/
def miRoundToSize (length alignment : BitVec 64) : BitVec 64 :=
  (length + (alignment - 1)) &&& ~~~(alignment - 1)

/-- `MAX_VIRTUAL_PAGES` -/
@[irreducible] def maxVirtualPages : Nat :=
  (miRoundToSize (BitVec.ofNat 64 (virtualHeapEnd - virtualHeapStart))
    (BitVec.ofNat 64 pageSize)).toNat / pageSize

/-- `MAX_PHYSICAL_MEMORY / PAGE_SIZE` -/
@[irreducible] def maxPhysicalPages : Nat := 1024 * 1024 * 8 / pageSize

/-- `SWAP_FILE_SIZE / PAGE_SIZE` -/
@[irreducible] def maxSwapSlots : Nat := 16 * 1024 * 1024 / pageSize

theorem maxVirtualPages_eq : maxVirtualPages = 2044 := by
  rw [maxVirtualPages]
  decide

theorem maxPhysicalPages_eq : maxPhysicalPages = 2048 := by
  rw [maxPhysicalPages]
  decide

theorem maxSwapSlots_eq : maxSwapSlots = 4096 := by
  rw [maxSwapSlots]
  decide

/-- The ways a call ends the process instead of returning. -/
inductive Stop
  | panic (errormsg : String)
  | segv
  | assertion
  | nullDereference
  deriving DecidableEq

/-- `struct _pfn_t` -/
structure PfnT where
  used : Bool
  thread : Option ThreadId

/-- The globals of `virt.c` and `swap.c`, the page tables of the threads, the
bytes of the window by virtual address, and the last `mprotect` of each virtual
page number. -/
structure Vm where
  pagetables : ThreadId → Nat → Mmpte
  gPfn : Nat → PfnT
  gPfnCount : Int
  physicalMemory : Nat → UInt8
  memory : Nat → UInt8
  accessible : Nat → Bool
  gSwap : Nat → Bool
  gSwapCount : Int
  swapFile : Nat → UInt8

/-- The pages that `mm_init` maps: the window, and the share section behind it. -/
def isMapped (page : Nat) : Bool :=
  decide (virtualHeapStart / pageSize ≤ page ∧ page ≤ virtualShareEnd / pageSize)

/-- The state `mm_init` leaves: no frame and no slot used, the window and the share
section mapped readable and writable and zeroed. -/
def mmInit : Vm where
  pagetables := fun _ _ => Mmpte.zero
  gPfn := fun _ => ⟨false, none⟩
  gPfnCount := 0
  physicalMemory := fun _ => 0
  memory := fun _ => 0
  accessible := isMapped
  gSwap := fun _ => false
  gSwapCount := 0
  swapFile := fun _ => 0

/-- The virtual address of window page `i`. -/
abbrev pageAddress (i : Nat) : Nat := virtualHeapStart + i * pageSize

/-- `mi_getpteindex` -/
abbrev miGetpteindex (va : Nat) : Nat := (va - virtualHeapStart) / pageSize

namespace Vm

def setEntry (s : Vm) (t : ThreadId) (j : Nat) (e : Mmpte) : Vm :=
  { s with pagetables := Function.update s.pagetables t (Function.update (s.pagetables t) j e) }

def mprotect (s : Vm) (address : Nat) (access : Bool) : Vm :=
  { s with accessible := Function.update s.accessible (address / pageSize) access }

/-- The search leaves `i` at the end of the table when no slot is free; `assert`
then reads past it. -/
def swapOut (s : Vm) (addr : Nat) : Except Stop (Vm × Nat) :=
  if (maxSwapSlots : Int) ≤ s.gSwapCount then
    .error (.panic "swap_out: Swap file is full\n")
  else
    match firstIndex maxSwapSlots (fun i => !s.gSwap i) with
    | none => .error .assertion
    | some i =>
        .ok ({ s with
          gSwap := Function.update s.gSwap i true
          gSwapCount := s.gSwapCount + 1
          swapFile := write s.swapFile (i * pageSize) (read pageSize s.physicalMemory addr) },
          i * pageSize)

def swapIn (s : Vm) (offset : Nat) (buffer : Nat) : Except Stop Vm :=
  if offset % pageSize ≠ 0 then .error .assertion
  else if s.gSwap (offset / pageSize) = true then
    .ok { s with
      gSwap := Function.update s.gSwap (offset / pageSize) false
      gSwapCount := s.gSwapCount - 1
      memory := write s.memory buffer (read pageSize s.swapFile offset) }
  else .error .assertion

/-- The first used frame that is not `CURRENT`'s goes to the swap file and is
counted on `CURRENT`. With no such frame the loop falls through and the number
of frames is returned. -/
def evictPage (current : ThreadId) (s : Vm) : Except Stop (Vm × Nat) :=
  match firstIndex maxPhysicalPages
      (fun i => (s.gPfn i).used && (s.gPfn i).thread != some current) with
  | none => .ok (s, maxPhysicalPages)
  | some i =>
      match s.swapOut (i * pageSize) with
      | .error stop => .error stop
      | .ok (s, offset) =>
          match (s.gPfn i).thread with
          | none => .error .nullDereference
          | some thread =>
              match firstIndex maxVirtualPages (fun j =>
                  (s.pagetables thread j).hardValid == 1#1 &&
                    (s.pagetables thread j).hardPageframenumber == i) with
              | none => .ok (s, i)
              | some j =>
                  let s := s.setEntry thread j ((s.pagetables thread j).evicted offset)
                  .ok ({ s with
                    gPfn := Function.update s.gPfn i { s.gPfn i with thread := some current } }, i)

def allocatePhysicalPage (current : ThreadId) (s : Vm) : Except Stop (Vm × Nat) :=
  if (maxPhysicalPages : Int) ≤ s.gPfnCount then evictPage current s
  else
    match firstIndex maxPhysicalPages (fun i => !(s.gPfn i).used) with
    | some i =>
        .ok ({ s with
          gPfn := Function.update s.gPfn i ⟨true, some current⟩
          gPfnCount := s.gPfnCount + 1 }, i)
    | none => .error (.panic "allocate_physical_page\n")

def freePhysicalPage (pfn : Nat) (s : Vm) : Vm :=
  if maxPhysicalPages ≤ pfn then s
  else if (s.gPfn pfn).used = false then s
  else
    { s with
      gPfn := Function.update s.gPfn pfn { s.gPfn pfn with used := false }
      gPfnCount := s.gPfnCount - 1 }

/-- `none` is `NULL`: no page-table entry is unused. -/
def mmAllocatePage (current : ThreadId) (s : Vm) : Except Stop (Vm × Option Nat) :=
  match firstIndex maxVirtualPages (fun i => (s.pagetables current i).long == 0#64) with
  | none => .ok (s, none)
  | some i =>
      match allocatePhysicalPage current s with
      | .error stop => .error stop
      | .ok (s, pfn) =>
          let s := s.setEntry current i ((s.pagetables current i).granted pfn)
          let s := s.mprotect (pageAddress i) true
          .ok ({ s with memory := write s.memory (pageAddress i) (fun _ : Fin pageSize => 0) },
            some (pageAddress i))

/-- The handler of `SIGSEGV` for a fault at `address`. Restoring the default
action and raising the signal again ends the process. `allocate_physical_page`
never returns -1, so its failure branch has no counterpart. -/
def pagefaultHandler (current : ThreadId) (address : Nat) (s : Vm) : Except Stop Vm :=
  let pageva := address / pageSize * pageSize
  if virtualHeapStart ≤ address ∧ address < virtualHeapEnd then
    let pteIndex := miGetpteindex address
    if (s.pagetables current pteIndex).hardValid = 0#1 then
      if (s.pagetables current pteIndex).softSwapout = 1#1 then
        match allocatePhysicalPage current s with
        | .error stop => .error stop
        | .ok (s, pfn) =>
            let offset := (s.pagetables current pteIndex).softGefileaPos
            let s := s.setEntry current pteIndex (Mmpte.faultedIn pfn)
            let s := s.mprotect pageva true
            s.swapIn offset pageva
      else .error .segv
    else .error (.panic "pagefault_handler\n")
  else .error .segv

def mmStoreVirtualPagesBack (current : ThreadId) (s : Vm) : Vm :=
  forRange maxVirtualPages (fun i s =>
    if (s.pagetables current i).hardValid = 1#1 then
      let pfn := (s.pagetables current i).hardPageframenumber
      { s with physicalMemory :=
          write s.physicalMemory (pfn * pageSize) (read pageSize s.memory (pageAddress i)) }
    else s) s

def mmSwitchVirtualPages (current : ThreadId) (s : Vm) : Vm :=
  forRange maxVirtualPages (fun i s =>
    if (s.pagetables current i).hardValid = 1#1 then
      let pfn := (s.pagetables current i).hardPageframenumber
      let s := s.mprotect (pageAddress i) true
      { s with memory :=
          write s.memory (pageAddress i) (read pageSize s.physicalMemory (pfn * pageSize)) }
    else s.mprotect (pageAddress i) false) s

def freeThreadPages (ti : ThreadId) (s : Vm) : Vm :=
  forRange maxVirtualPages (fun i s =>
    if (s.pagetables ti i).hardValid = 1#1 then
      (freePhysicalPage (s.pagetables ti i).hardPageframenumber s).setEntry ti i Mmpte.zero
    else s) s

/-- `alloc_thread_info` zeroes the page table of a new thread. -/
def clearPagetable (ti : ThreadId) (s : Vm) : Vm :=
  { s with pagetables := Function.update s.pagetables ti fun _ => Mmpte.zero }

end Vm

end OsDesign.Virt
