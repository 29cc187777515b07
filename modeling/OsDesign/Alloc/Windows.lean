import OsDesign.Alloc.Machine

/-!
The windows of the allocators. Behind a test that finds a slot free, or a frame
evictable, a thread stands on this slot until the last assignment for it is made.
`Exclusive` keeps everybody else off the slot for that long.
-/
namespace OsDesign.Alloc

open Pthread Virt

/-- At most one thread stands on each slot. -/
def Apart (claim : ThreadId → Option Nat) : Prop :=
  ∀ t u i, claim t = some i → claim u = some i → t = u

/-- A thread moves only to a slot that no other thread stands on. -/
theorem Apart.move {claim claim' : ThreadId → Option Nat} {t : ThreadId} (apart : Apart claim)
    (others : ∀ u, u ≠ t → claim' u = claim u)
    (fresh : ∀ i, claim' t = some i → claim t = some i ∨ ∀ u, u ≠ t → claim u ≠ some i) :
    Apart claim' := by
  have mine : ∀ u i, u ≠ t → claim' t = some i → claim' u ≠ some i := by
    intro u i hu hi hui
    rw [others u hu] at hui
    cases fresh i hi with
    | inl same => exact hu (apart u t i hui same)
    | inr free => exact free u hu hui
  intro u v i hui hvi
  by_cases hu : u = t
  · by_cases hv : v = t
    · rw [hu, hv]
    · exact absurd hvi (mine v i hv (hu ▸ hui))
  · by_cases hv : v = t
    · exact absurd hui (mine u i hu (hv ▸ hvi))
    · rw [others u hu] at hui
      rw [others v hv] at hvi
      exact apart u v i hui hvi

namespace Stage

/-- The frame a thread stands on: between the test of `g_pfn[i].used`, or of
`g_pfn[i].thread` in `evict_page`, and the valid bit of its new entry. -/
def frame : Stage → Option Nat
  | .setUsed i | .setThread i | .addCount i | .swapOut i | .findEntry i _ _ | .clearValid i _ _
  | .setSwapout i _ _ | .setPos i _ _ | .takeThread i | .setPfn i | .setValid i => some i
  | .pfnCount | .frameUsed _ | .evictUsed _ | .evictThread _ => none

/-- The frame that a thread is about to evict, its entry being valid as yet. -/
def evicts : Stage → Option Nat
  | .swapOut i | .findEntry i _ _ | .clearValid i _ _ => some i
  | _ => none

/-- The tests of the scan of `evict_page`. -/
def scans : Stage → Bool
  | .evictUsed _ | .evictThread _ => true
  | _ => false

/-- The frame and the entry of its thread between the bits that `evict_page` writes. -/
def rewrites : Stage → Option (Nat × Nat)
  | .setSwapout i _ k | .setPos i _ k => some (i, k)
  | _ => none

end Stage

namespace Pc

/-- The mutex a thread stands on: between the test of `used` and the return. -/
def mutex : Pc → Option Nat
  | .setMutexUsed i | .setMutexCount i | .mutexReturn i => some i
  | _ => none

/-- The mutex that is marked and not returned yet. -/
def marked : Pc → Option Nat
  | .setMutexCount i | .mutexReturn i => some i
  | _ => none

def stage : Pc → Option Stage
  | .page _ stage => some stage
  | _ => none

def frame (pc : Pc) : Option Nat := pc.stage.bind Stage.frame

def evicts (pc : Pc) : Option Nat := pc.stage.bind Stage.evicts

def rewrites (pc : Pc) : Option (Nat × Nat) := pc.stage.bind Stage.rewrites

/-- The entry that `mm_allocate_page` has found unused. -/
def own : Pc → Option Nat
  | .page j _ => some j
  | _ => none

end Pc

namespace Tables

/-- A valid entry of a live thread names the frame. -/
def Names (s : Tables) (t : ThreadId) (j i : Nat) : Prop :=
  s.live t = true ∧ j < maxVirtualPages ∧ s.vm.view t j = .inMemory i

def Unnamed (s : Tables) (i : Nat) : Prop := ∀ t j, ¬ s.Names t j i

/-- A test of `t` does not pass on a slot that another thread stands on. The test of
an entry counts too, since `evict_page` clears the valid bit of the entry for frame 0
before it sets the swapout bit; and so does the end of the table in `evict_page`,
where one frame number is returned to everybody. -/
def ExclusiveTest (s : Tables) (t : ThreadId) : Pc → Prop
  | .mutexUsed i =>
      (s.gMutexTable i).used = false → ∀ u, u ≠ t → (s.pc u).mutex ≠ some i
  | .entryUnused j =>
      (s.vm.pagetables t j).long = 0#64 →
        ∀ u i, (s.pc u).rewrites = some (i, j) → (s.vm.gPfn i).thread ≠ some t
  | .page _ (.frameUsed i) =>
      (s.vm.gPfn i).used = false → ∀ u, u ≠ t → (s.pc u).frame ≠ some i
  | .page _ (.evictThread i) =>
      (s.vm.gPfn i).thread ≠ some t →
        (s.vm.gPfn i).used = true ∧ ∀ u, u ≠ t → (s.pc u).frame ≠ some i
  | .page _ (.evictUsed i) =>
      maxPhysicalPages ≤ i → s.Unnamed i ∧ ∀ u, u ≠ t → (s.pc u).frame ≠ some i
  | _ => True

/-- Nobody gives back a slot that another thread stands on. -/
def Exclusive (s : Tables) : ThreadId × Action → Prop
  | (t, .statement) => s.ExclusiveTest t (s.pc t)
  | (_, .freeMutex i) => ∀ u, (s.pc u).marked ≠ some i
  | (t, .exit) => ∀ u i, (s.pc u).evicts = some i → (s.vm.gPfn i).thread ≠ some t
  | _ => True

end Tables

end OsDesign.Alloc
