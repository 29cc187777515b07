import OsDesign.Lib.Outcome
import OsDesign.Lib.Runs
import OsDesign.Pthread.Calls

/-!
`alloc_mutex`, `mm_allocate_page` and `allocate_physical_page` one statement at a
time, in any interleaving of any number of threads. A statement of thread `t`
runs with `CURRENT` = `t`. The window itself is not followed: what is mapped and
stored in it decides no test of these functions.
-/
namespace OsDesign.Alloc

open Pthread Virt

/-- The statements of `allocate_physical_page` and `evict_page`, and those of
`mm_allocate_page` behind the call. `i` is the frame, `k` the index in the page
table of the frame's thread and `offset` what `swap_out` returned. -/
inductive Stage
  | pfnCount
  | frameUsed (i : Nat)
  | setUsed (i : Nat)
  | setThread (i : Nat)
  | addCount (i : Nat)
  | evictUsed (i : Nat)
  | evictThread (i : Nat)
  | swapOut (i : Nat)
  | findEntry (i offset k : Nat)
  | clearValid (i offset k : Nat)
  | setSwapout (i offset k : Nat)
  | setPos (i offset k : Nat)
  | takeThread (i : Nat)
  | setPfn (pfn : Nat)
  | setValid (pfn : Nat)
  deriving DecidableEq

/-- The next statement of a thread. `page j` is in `mm_allocate_page` with the
unused entry `j`. -/
inductive Pc
  | idle
  | mutexUsed (i : Nat)
  | setMutexUsed (i : Nat)
  | setMutexCount (i : Nat)
  | mutexReturn (i : Nat)
  | entryUnused (j : Nat)
  | page (j : Nat) (stage : Stage)
  deriving DecidableEq

/-- `handed` says which entries of `g_mutex_table` a call of `alloc_mutex` has
returned and nobody has freed since. -/
structure Tables where
  vm : Vm
  gMutexTable : MutexTable
  live : ThreadId → Bool
  pc : ThreadId → Pc
  handed : Nat → Bool

namespace Tables

def goto (s : Tables) (t : ThreadId) (pc : Pc) : Tables :=
  { s with pc := Function.update s.pc t pc }

def setPfn (s : Tables) (i : Nat) (pfn : PfnT) : Tables :=
  { s with vm := { s.vm with gPfn := Function.update s.vm.gPfn i pfn } }

def setEntry (s : Tables) (t : ThreadId) (j : Nat) (e : Mmpte) : Tables :=
  { s with vm := s.vm.setEntry t j e }

/-- Code that dereferences `g_pfn[i].thread`. -/
def withOwner (s : Tables) (i : Nat) (k : ThreadId → Tables) : Except Stop Tables :=
  match (s.vm.gPfn i).thread with
  | none => .error .nullDereference
  | some owner => .ok (k owner)

/-- A statement of `t` in `mm_allocate_page` for entry `j`. `evict_page` returns the
number of frames when it runs off the table, and a frame without an entry in its
thread's page table is returned as it is. -/
def pageStatement (s : Tables) (t : ThreadId) (j : Nat) : Stage → Except Stop Tables
  | .pfnCount =>
      .ok (s.goto t (.page j (if (maxPhysicalPages : Int) ≤ s.vm.gPfnCount then .evictUsed 0
        else .frameUsed 0)))
  | .frameUsed i =>
      if maxPhysicalPages ≤ i then .error (.panic "allocate_physical_page\n")
      else .ok (s.goto t (.page j (if (s.vm.gPfn i).used = false then .setUsed i
        else .frameUsed (i + 1))))
  | .setUsed i =>
      .ok ((s.setPfn i { s.vm.gPfn i with used := true }).goto t (.page j (.setThread i)))
  | .setThread i =>
      .ok ((s.setPfn i { s.vm.gPfn i with thread := some t }).goto t (.page j (.addCount i)))
  | .addCount i =>
      .ok ({ s with vm := { s.vm with gPfnCount := s.vm.gPfnCount + 1 } }.goto t
        (.page j (.setPfn i)))
  | .evictUsed i =>
      .ok (s.goto t (.page j (if maxPhysicalPages ≤ i then .setPfn i
        else if (s.vm.gPfn i).used = false then .evictUsed (i + 1) else .evictThread i)))
  | .evictThread i =>
      .ok (s.goto t (.page j (if (s.vm.gPfn i).thread ≠ some t then .swapOut i
        else .evictUsed (i + 1))))
  | .swapOut i =>
      match s.vm.swapOut (i * pageSize) with
      | .error stop => .error stop
      | .ok (vm, offset) => .ok ({ s with vm := vm }.goto t (.page j (.findEntry i offset 0)))
  | .findEntry i offset k =>
      if maxVirtualPages ≤ k then .ok (s.goto t (.page j (.setPfn i)))
      else s.withOwner i fun owner => s.goto t (.page j
        (if (s.vm.pagetables owner k).hardValid = 1#1 ∧
            (s.vm.pagetables owner k).hardPageframenumber = i then .clearValid i offset k
          else .findEntry i offset (k + 1)))
  | .clearValid i offset k => s.withOwner i fun owner =>
      (s.setEntry owner k ((s.vm.pagetables owner k).setSoftValid 0#1)).goto t
        (.page j (.setSwapout i offset k))
  | .setSwapout i offset k => s.withOwner i fun owner =>
      (s.setEntry owner k ((s.vm.pagetables owner k).setSoftSwapout 1#1)).goto t
        (.page j (.setPos i offset k))
  | .setPos i offset k => s.withOwner i fun owner =>
      (s.setEntry owner k ((s.vm.pagetables owner k).setSoftGefileaPos offset)).goto t
        (.page j (.takeThread i))
  | .takeThread i =>
      .ok ((s.setPfn i { s.vm.gPfn i with thread := some t }).goto t (.page j (.setPfn i)))
  | .setPfn pfn =>
      .ok ((s.setEntry t j ((s.vm.pagetables t j).setHardPageframenumber pfn)).goto t
        (.page j (.setValid pfn)))
  | .setValid _ =>
      .ok ((s.setEntry t j ((s.vm.pagetables t j).setHardValid 1#1)).goto t .idle)

/-- The next statement of `t`. -/
def statement (s : Tables) (t : ThreadId) : Except Stop Tables :=
  match s.pc t with
  | .idle => .ok s
  | .mutexUsed i =>
      .ok (s.goto t (if maxMutexNum ≤ i then .idle
        else if (s.gMutexTable i).used = false then .setMutexUsed i else .mutexUsed (i + 1)))
  | .setMutexUsed i =>
      .ok ({ s with gMutexTable :=
        Function.update s.gMutexTable i { s.gMutexTable i with used := true } }.goto t
        (.setMutexCount i))
  | .setMutexCount i =>
      .ok ({ s with gMutexTable :=
        Function.update s.gMutexTable i { s.gMutexTable i with count := 0 } }.goto t
        (.mutexReturn i))
  | .mutexReturn i =>
      .ok ({ s with handed := Function.update s.handed i true }.goto t .idle)
  | .entryUnused j =>
      .ok (s.goto t (if maxVirtualPages ≤ j then .idle
        else if (s.vm.pagetables t j).long = 0#64 then .page j .pfnCount
        else .entryUnused (j + 1)))
  | .page j stage => s.pageStatement t j stage

end Tables

/-- What a thread can do. `freeMutex` is `free_mutex` or `my_pthread_mutex_destroy`,
`exit` gives back the pages of the thread, and `create` makes a thread with an
empty page table; these are uninterrupted. -/
inductive Action
  | statement
  | allocMutex
  | allocatePage
  | freeMutex (i : Nat)
  | exit
  | create (u : ThreadId)
  deriving DecidableEq

namespace Tables

def act (s : Tables) (t : ThreadId) : Action → Except Stop Tables
  | .statement => s.statement t
  | .allocMutex => .ok (s.goto t (.mutexUsed 1))
  | .allocatePage => .ok (s.goto t (.entryUnused 0))
  | .freeMutex i =>
      .ok { s with
        gMutexTable := s.gMutexTable.freeMutex i
        handed := Function.update s.handed i false }
  | .exit =>
      .ok { s with
        vm := s.vm.freeThreadPages t
        live := Function.update s.live t false }
  | .create u =>
      .ok { s with
        vm := s.vm.clearPagetable u
        live := Function.update s.live u true }

/-- Any live thread may be the one that goes on; a call starts outside the others. -/
def Enabled (s : Tables) (e : ThreadId × Action) : Prop :=
  s.live e.1 = true ∧
    match e.2 with
    | .statement => True
    | .allocMutex | .allocatePage | .freeMutex _ | .exit => s.pc e.1 = .idle
    | .create u => s.pc e.1 = .idle ∧ s.live u = false

instance (s : Tables) : DecidablePred s.Enabled
  | (t, .statement) => inferInstanceAs (Decidable (s.live t = true ∧ True))
  | (t, .allocMutex) | (t, .allocatePage) | (t, .freeMutex _) | (t, .exit) =>
      inferInstanceAs (Decidable (s.live t = true ∧ s.pc t = .idle))
  | (t, .create u) =>
      inferInstanceAs (Decidable (s.live t = true ∧ s.pc t = .idle ∧ s.live u = false))

def next (s : Tables) (e : ThreadId × Action) : Option Tables := (s.act e.1 e.2).toOption

def Step (s : Tables) (e : ThreadId × Action) (s' : Tables) : Prop := s.next e = some s'

theorem step_iff {s s' : Tables} {e : ThreadId × Action} :
    s.Step e s' ↔ s.act e.1 e.2 = .ok s' := by
  rw [Step, next, Outcome.toOption_eq_some_iff]

/-- Behind `my_pthread_init`, with some threads created: nothing is allocated. -/
structure Init (s : Tables) : Prop where
  idle : ∀ t, s.pc t = .idle
  pagetables : ∀ t, s.live t = true → ∀ j, s.vm.pagetables t j = Mmpte.zero
  frames : ∀ i, (s.vm.gPfn i).used = false
  mutexes : ∀ i, (s.gMutexTable i).used = false
  handed : ∀ i, s.handed i = false

abbrev Reachable (allowed : Tables → ThreadId × Action → Prop) : Tables → Prop :=
  Runs.Reachable Init (fun s e => s.Enabled e ∧ allowed s e) Step

/-- No call returns an index that an earlier one returned and nobody freed. -/
def HandlesDistinct (s : Tables) : Prop :=
  ∀ t i, s.pc t = .mutexReturn i → s.handed i = false

/-- No two valid entries of live threads name one frame. -/
def FramesDistinct (s : Tables) : Prop :=
  ∀ t j u k p, s.live t = true → j < maxVirtualPages → s.live u = true → k < maxVirtualPages →
    s.vm.view t j = .inMemory p → s.vm.view u k = .inMemory p → t = u ∧ j = k

end Tables

end OsDesign.Alloc
