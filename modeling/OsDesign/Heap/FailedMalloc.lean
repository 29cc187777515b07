import OsDesign.Heap.HeapRuns

/-!
What a request that cannot be served does to the heap. `my_malloc` finds no slot
in the trunks, takes a page more without looking at the outcome and counts the
trunk before it asks the new one, so that no refused request leaves the heap as
it was.
-/
namespace OsDesign.Heap

open Virt

namespace ThreadHeap

/-- No trunk has a free slot in the class of the size. -/
def NoSlot (h : ThreadHeap) (size : Nat) : Prop :=
  ∀ i r, i < h.heapTrunkCount → Region.ofSize size = some r → ∀ k, (h.metadata i).flag r k ≠ 0

/-- `mm_allocate_page` finds no unused entry. -/
def NoPage (h : ThreadHeap) : Prop :=
  ∀ t j, h.process.current = some t → j < maxVirtualPages → h.process.vm.view t j ≠ .unused

/-- The requests that cannot be served. -/
def Unservable (h : ThreadHeap) (size : Nat) : Prop :=
  size = 0 ∨ 512 < size ∨ h.NoSlot size ∧ h.NoPage

/-- What a refused request should leave alone. -/
structure SameHeap (h h' : ThreadHeap) : Prop where
  trunks : h'.heapTrunkCount = h.heapTrunkCount
  metadata : ∀ i, h'.metadata i = h.metadata i
  pagetable : ∀ t, h.process.current = some t →
    h'.process.vm.pagetables t = h.process.vm.pagetables t
  frames : h'.process.vm.gPfn = h.process.vm.gPfn
  count : h'.process.vm.gPfnCount = h.process.vm.gPfnCount

/-- A request that cannot be served gets `NULL`, and the heap is as it was. -/
def FailsCleanly (h : ThreadHeap) (size : Nat) : Prop :=
  h.Unservable size → ∃ h', h.myMalloc size = .ok (h', none) ∧ h.SameHeap h'

variable {h h' : ThreadHeap} {i size : Nat} {result : Option Nat}

/-! No step on the way to the last line counts a trunk. -/

theorem heapTrunkCount_openRecord (taken : h.openRecord i = .ok h') :
    h'.heapTrunkCount = h.heapTrunkCount := by
  obtain ⟨_, process, -, -, rfl⟩ := openRecord_ok taken
  rfl

theorem heapTrunkCount_mallocTrunk (taken : h.mallocTrunk i size = .ok (h', result)) :
    h'.heapTrunkCount = h.heapTrunkCount := by
  rw [mallocTrunk] at taken
  cases hr : Region.ofSize size with
  | none =>
      simp only [hr, Except.ok.injEq, Prod.mk.injEq] at taken
      rw [← taken.1]
  | some r =>
      simp only [hr] at taken
      cases hopen : h.openRecord i with
      | error stop => simp [hopen] at taken
      | ok h₁ =>
          simp only [hopen] at taken
          rw [← heapTrunkCount_openRecord hopen]
          cases hmalloc : (h₁.metadata i)._malloc (h₁.trunkBase i) size with
          | mk md ptr =>
              cases ptr with
              | none =>
                  simp only [hmalloc, Except.ok.injEq, Prod.mk.injEq] at taken
                  rw [← taken.1]
              | some ptr =>
                  simp only [hmalloc, Except.ok.injEq, Prod.mk.injEq] at taken
                  rw [← taken.1, heapTrunkCount_setMetadata]

theorem heapTrunkCount_mallocFrom {turns : Nat}
    (taken : mallocFrom size turns i h = .ok (h', result)) :
    h'.heapTrunkCount = h.heapTrunkCount := by
  induction turns generalizing i h with
  | zero =>
      simp only [mallocFrom, Except.ok.injEq, Prod.mk.injEq] at taken
      rw [← taken.1]
  | succ turns ih =>
      rw [mallocFrom] at taken
      cases htrunk : h.mallocTrunk i size with
      | error stop => simp [htrunk] at taken
      | ok outcome =>
          obtain ⟨h₁, ptr⟩ := outcome
          rw [← heapTrunkCount_mallocTrunk htrunk]
          cases ptr with
          | none =>
              simp only [htrunk] at taken
              exact ih taken
          | some ptr =>
              simp only [htrunk, Except.ok.injEq, Prod.mk.injEq] at taken
              rw [← taken.1]

theorem heapTrunkCount_morePage (taken : h.morePage = .ok h') :
    h'.heapTrunkCount = h.heapTrunkCount := by
  rw [morePage] at taken
  cases hpage : h.process.allocatePage with
  | error stop => simp [hpage] at taken
  | ok outcome =>
      simp only [hpage, Except.ok.injEq] at taken
      rw [← taken]

/-- `NULL` comes from the last line only, behind `set_heap_trunk_count`. -/
theorem heapTrunkCount_of_null (taken : h.mallocInitialised size = .ok (h', none)) :
    h'.heapTrunkCount = h.heapTrunkCount + 1 := by
  rw [mallocInitialised] at taken
  cases hfrom : mallocFrom size h.heapTrunkCount 0 h with
  | error stop => simp [hfrom] at taken
  | ok outcome =>
      obtain ⟨h₁, ptr⟩ := outcome
      rw [← heapTrunkCount_mallocFrom hfrom]
      cases ptr with
      | some ptr => simp [hfrom] at taken
      | none =>
          simp only [hfrom] at taken
          cases hpage : h₁.morePage with
          | error stop => simp [hpage] at taken
          | ok h₂ =>
              simp only [hpage] at taken
              rw [heapTrunkCount_mallocTrunk taken, heapTrunkCount_morePage hpage]

/-- A request that cannot be served never leaves the heap as it was. -/
theorem not_failsCleanly {t : ThreadId} (current : h.process.current = some t)
    (initialised : h.heapInit = true) (unservable : h.Unservable size) :
    ¬ h.FailsCleanly size := by
  intro clean
  obtain ⟨h', taken, same⟩ := clean unservable
  simp only [myMalloc, current, initialised, Bool.true_eq_false, if_false] at taken
  have hgrown := heapTrunkCount_of_null taken
  have hkept := same.trunks
  omega

end ThreadHeap

namespace HeapRun

/-- Behind its first block a thread has an initialised heap and two pages. -/
theorem exists_initialised :
    ∃ s : HeapRun, Runs.Reachable Uninitialised Permitted Step s ∧ s.heap.heapInit = true ∧
      s.heap.process.current = some 0 ∧ HasPages s.heap 2 := by
  obtain ⟨heap, taken, has, ready, -⟩ := first_malloc first_slot
  have permitted : created.Permitted (.malloc 32) := trivial
  exact ⟨_, ⟨created, _, created_uninitialised, .single permitted taken⟩, ready.init,
    ready.filled.current, has⟩

theorem not_failsCleanly_zero :
    ∃ s : HeapRun, Runs.Reachable Uninitialised Permitted Step s ∧ ¬ s.heap.FailsCleanly 0 := by
  obtain ⟨s, reach, hinit, hcurrent, -⟩ := exists_initialised
  exact ⟨s, reach, ThreadHeap.not_failsCleanly hcurrent hinit (.inl rfl)⟩

/-- `malloc(0)` on an initialised heap returns `NULL`, with a trunk, a page and a
frame more than before. -/
theorem refused_request_grows_heap :
    ¬ ∀ (s : HeapRun) (size : Nat), Runs.Reachable Uninitialised Permitted Step s →
      s.heap.heapInit = true → s.heap.FailsCleanly size := by
  intro clean
  have hpages := maxVirtualPages_eq
  obtain ⟨s, reach, hinit, -, has⟩ := exists_initialised
  obtain ⟨heap, hmalloc, -, -, hcount, -⟩ := myMalloc_zero s.heap has (by omega) hinit
  obtain ⟨h', taken, same⟩ := clean s 0 reach hinit (.inl rfl)
  rw [hmalloc, Except.ok.injEq, Prod.mk.injEq] at taken
  have hkept := same.trunks
  rw [← taken.1] at hkept
  omega

end HeapRun

end OsDesign.Heap
