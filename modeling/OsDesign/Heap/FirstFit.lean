import OsDesign.Heap.RecordCalls
import OsDesign.Virt.Exhaustion

/-!
Runs of `my_malloc` and `my_free` by one thread, with the steps of the other
threads in between. A request is served from the first trunk with a free slot of
its class, and a trunk is added only when no trunk has one.
-/
namespace OsDesign.Heap

open Loops Virt ThreadHeap HeapMetadataT

namespace RecordHeap

/-- What `my_malloc(size)` returning `a` to thread `t` did to the records and to
the thread's pages. -/
inductive FirstFit (h h' : RecordHeap) (t : ThreadId) (size a : Nat) : Prop
  | found (k : Nat) (inUse : k < h.heap.heapTrunkCount)
      (full : ∀ i, i < k → (h.records i).ClassFull size)
      (taken : (h.records k).TakesLowest (h'.records k) (pageAddress (k + 1)) size a)
      (others : ∀ i, i ≠ k → h'.records i = h.records i)
      (trunks : h'.heap.heapTrunkCount = h.heap.heapTrunkCount)
      (pages : ∀ j, j < maxVirtualPages →
        h'.heap.process.privateMemory t j = h.heap.process.privateMemory t j)
  | grown (r : Region) (i : Fin r.slots) (smallest : r.Smallest size) (first : i.val = 0)
      (full : ∀ i, i < h.heap.heapTrunkCount → (h.records i).ClassFull size)
      (address : a = pageAddress (h.heap.heapTrunkCount + 1) + r.place i)
      (taken : h'.records h.heap.heapTrunkCount = HeapMetadataT.zero.occupy r i)
      (others : ∀ i, i ≠ h.heap.heapTrunkCount → h'.records i = h.records i)
      (trunks : h'.heap.heapTrunkCount = h.heap.heapTrunkCount + 1)
      (pages : ∀ j, j < maxVirtualPages → h'.heap.process.privateMemory t j =
        if j = h.heap.heapTrunkCount + 1 then some (fun _ => 0)
        else h.heap.process.privateMemory t j)

/-- The pages in use are the first one and one for each trunk. -/
def TrunkPages (h : RecordHeap) (t : ThreadId) : Prop :=
  ∀ j, j < maxVirtualPages →
    (h.heap.process.vm.view t j ≠ .unused ↔ j ≤ h.heap.heapTrunkCount)

/-- No page was granted to the thread yet. -/
structure Fresh (h : RecordHeap) (t : ThreadId) : Prop where
  pages : h.heap.process.FirstPages t 0
  init : h.heap.heapInit = false
  trunks : h.heap.heapTrunkCount = 0
  blank : ∀ i, h.records i = .zero

/-- Every page of the running thread's window is in use. -/
structure Full (h : RecordHeap) (t : ThreadId) : Prop where
  pages : h.heap.process.FirstPages t maxVirtualPages
  current : h.heap.process.current = some t

/-- The number of pages behind the first one. -/
def trunkLimit : Nat := maxVirtualPages - 1

variable {h h' : RecordHeap} {t : ThreadId} {limit i size a : Nat} {blocks : List Block}
  {result : Option Nat}

theorem trunkLimit_succ : trunkLimit + 1 = maxVirtualPages := by
  rw [trunkLimit, maxVirtualPages_eq]

/-- `my_malloc_init` takes two pages and leaves one trunk with nothing taken. -/
theorem Fresh.myMallocInit (fresh : h.Fresh t) (hcurrent : h.heap.process.current = some t) :
    ((∃ stop, h.myMallocInit = .error stop) ∧ h.heap.process.left ≤ 1) ∨
    ∃ h', h.myMallocInit = .ok h' ∧ h'.Sound t trunkLimit [] ∧
      h'.heap.process.current = some t ∧ h'.heap.process.live = h.heap.process.live ∧
      h'.heap.process.left = h.heap.process.left - 2 ∧ h'.heap.heapTrunkCount = 1 ∧
      h'.records = h.records ∧ ∀ j, j < maxVirtualPages →
        h'.heap.process.privateMemory t j = if j < 2 then some (fun _ => 0) else none := by
  have hmax := maxVirtualPages_eq
  have hlimit := trunkLimit_succ
  rcases fresh.pages.allocatePage hcurrent (by omega) with
    ⟨hpanic, hnone⟩ | ⟨process₁, hfirst, pages₁, hcurrent₁, hlive₁, hleft₁, hmemory₁⟩
  · left
    refine ⟨?_, by omega⟩
    simp [RecordHeap.myMallocInit, ThreadHeap.myMallocInit, ThreadHeap.morePage, hpanic]
  · rcases pages₁.allocatePage hcurrent₁ (by omega) with
      ⟨hpanic, hnone⟩ | ⟨process₂, hsecond, pages₂, hcurrent₂, hlive₂, hleft₂, hmemory₂⟩
    · left
      refine ⟨?_, by omega⟩
      simp [RecordHeap.myMallocInit, ThreadHeap.myMallocInit, ThreadHeap.morePage, hfirst, hpanic]
    · right
      refine ⟨{ h with heap := ⟨process₂, true, 1, virtualHeapStart, virtualHeapStart + pageSize⟩ },
        by simp only [RecordHeap.myMallocInit, ThreadHeap.myMallocInit, ThreadHeap.morePage, hfirst,
          hsecond], ⟨?_, rfl, rfl, rfl, ?_, ?_, fun i _ _ => fresh.blank i, ?_⟩, hcurrent₂,
        hlive₂.trans hlive₁, ?_, rfl, rfl, ?_⟩
      · rw [Nat.min_eq_left (by change 2 ≤ _; omega)]
        exact pages₂
      · change 1 ≤ trunkLimit
        omega
      · change trunkLimit * 76 ≤ maxVirtualPages * 4096
        omega
      · refine ⟨?_, fun b hb => absurd hb List.not_mem_nil⟩
        intro i _
        rw [fresh.blank i]
        exact .zero _
      · change process₂.left = _
        omega
      · intro j hj
        change process₂.privateMemory t j = _
        have hunused := Process.privateMemory_of_unused (fresh.pages.rest j (Nat.zero_le j) hj)
        rw [hmemory₂ j hj, hmemory₁ j hj, hunused]
        rcases j with - | - | j <;> rfl

theorem Full.served (full : h.Full t) {h' : ThreadHeap} (served : h.heap.process.Served h'.process)
    (records : Nat → HeapMetadataT) : (⟨h', records⟩ : RecordHeap).Full t :=
  ⟨full.pages.served served, served.current.trans full.current⟩

theorem Full.openRecord (full : h.Full t) (taken : h.openRecord i = .ok h') : h'.Full t := by
  rw [RecordHeap.openRecord] at taken
  cases hopen : h.heap.openRecord i with
  | error stop => simp [hopen] at taken
  | ok heap =>
      simp only [hopen, Except.ok.injEq] at taken
      rw [← taken]
      exact full.served (served_of_openRecord full.pages.inv hopen).1 _

theorem Full.mallocTrunk (full : h.Full t) (taken : mallocTrunk size i h = .ok (h', result)) :
    h'.Full t := by
  rw [RecordHeap.mallocTrunk] at taken
  cases hr : Region.ofSize size with
  | none =>
      simp only [hr, Except.ok.injEq, Prod.mk.injEq] at taken
      rw [← taken.1]
      exact full
  | some r =>
      simp only [hr] at taken
      cases hopen : h.openRecord i with
      | error stop => simp [hopen] at taken
      | ok h₁ =>
          have full₁ := full.openRecord hopen
          simp only [hopen] at taken
          cases hmalloc : (h₁.records i)._malloc (h₁.heap.trunkBase i) size with
          | mk md ptr =>
              cases ptr with
              | none =>
                  simp only [hmalloc, Except.ok.injEq, Prod.mk.injEq] at taken
                  rw [← taken.1]
                  exact full₁
              | some ptr =>
                  simp only [hmalloc, Except.ok.injEq, Prod.mk.injEq] at taken
                  rw [← taken.1]
                  exact ⟨full₁.pages, full₁.current⟩

theorem Full.morePage (full : h.Full t) : h.morePage = .ok h := by
  have hnone := full.pages.allocatePage_full full.current (Nat.le_refl _)
  simp only [RecordHeap.morePage, ThreadHeap.morePage, hnone]

theorem Full.mallocInitialised (full : h.Full t)
    (taken : mallocInitialised size h = .ok (h', result)) : h'.Full t := by
  rw [RecordHeap.mallocInitialised] at taken
  cases hfrom : mallocFrom size h.heap.heapTrunkCount 0 h with
  | error stop => simp [hfrom] at taken
  | ok outcome =>
      obtain ⟨h₁, ptr⟩ := outcome
      have full₁ : h₁.Full t := searchFrom_preserves (fun h => h.Full t)
        (fun _ _ _ _ one full => full.mallocTrunk one) hfrom full
      cases ptr with
      | some ptr =>
          simp only [hfrom, Except.ok.injEq, Prod.mk.injEq] at taken
          rw [← taken.1]
          exact full₁
      | none =>
          simp only [hfrom, full₁.morePage] at taken
          have full₂ : h₁.withTrunk.Full t := ⟨full₁.pages, full₁.current⟩
          exact full₂.mallocTrunk taken

/-- A window with no unused page stays so. -/
theorem Full.myMalloc (full : h.Full t) (taken : h.myMalloc size = .ok (h', result)) :
    h'.Full t := by
  simp only [RecordHeap.myMalloc, full.current] at taken
  by_cases hinit : h.heap.heapInit = false
  · have hmore := full.pages.allocatePage_full full.current (Nat.le_refl _)
    simp only [if_pos hinit, RecordHeap.myMallocInit, ThreadHeap.myMallocInit, ThreadHeap.morePage,
      hmore] at taken
    have full₁ : ({ h with heap := ⟨h.heap.process, true, 1, virtualHeapStart,
        virtualHeapStart + pageSize⟩ } : RecordHeap).Full t := ⟨full.pages, full.current⟩
    exact full₁.mallocInitialised taken
  · simp only [if_neg hinit] at taken
    exact full.mallocInitialised taken

theorem Full.myFree (full : h.Full t) {ptr : Nat} (taken : h.myFree ptr = .ok h') : h'.Full t := by
  rw [myFree_eq] at taken
  cases hrecord : h.heap.recordOf ptr with
  | none =>
      simp only [hrecord, Except.ok.injEq] at taken
      rw [← taken]
      exact full
  | some i =>
      cases hopen : h.openRecord i with
      | error stop => simp [hrecord, hopen] at taken
      | ok h₁ =>
          simp only [hrecord, hopen, Except.ok.injEq] at taken
          have full₁ := full.openRecord hopen
          rw [← taken]
          exact ⟨full₁.pages, full₁.current⟩

/-- With a size of some class, a trunk with no slot is full in the smallest one. -/
theorem Sound.classFull (sound : h.Sound t limit blocks) (hi : i < h.heap.heapTrunkCount)
    (positive : 0 < size) (small : size ≤ 512)
    (hnull : ((h.records i)._malloc (h.heap.trunkBase i) size).2 = none) :
    (h.records i).ClassFull size := by
  rw [sound.trunkBase_eq] at hnull
  rcases (sound.hold.held i hi).malloc_eq_none.mp hnull with hzero | hlarge | hfull
  · omega
  · omega
  · exact hfull

/-- A trunk with nothing taken serves every size of some class, from slot 0. -/
theorem malloc_zero_record (base : Nat) (positive : 0 < size) (small : size ≤ 512) :
    ∃ (r : Region) (i : Fin r.slots), r.Smallest size ∧ i.val = 0 ∧
      HeapMetadataT.zero._malloc base size =
        (HeapMetadataT.zero.occupy r i, some (base + r.place i)) := by
  rcases malloc_cases .zero base size with hnull | ⟨r, i, hr, -, hbefore, hok⟩
  · have hnone : (HeapMetadataT.zero._malloc base size).2 = none := by rw [hnull]
    rcases (Holds.zero base).malloc_eq_none.mp hnone with hzero | hlarge | ⟨r, -, hall⟩
    · omega
    · omega
    · have hslot : 0 < r.slots := by cases r <;> decide
      exact absurd (hall ⟨0, hslot⟩) (zero_flag_ne r _)
  · refine ⟨r, i, (Region.ofSize_eq_some.mp hr).2, ?_, hok⟩
    by_contra hpos
    exact hbefore ⟨0, Nat.lt_of_le_of_lt (Nat.zero_le _) i.isLt⟩ (Nat.pos_of_ne_zero hpos) rfl

theorem Sound.myMalloc_eq (sound : h.Sound t limit blocks)
    (hcurrent : h.heap.process.current = some t) (size : Nat) :
    h.myMalloc size = RecordHeap.mallocInitialised size h := by
  simp only [RecordHeap.myMalloc, hcurrent, sound.init, Bool.true_eq_false, if_false]

/-- On an initialised heap a request of some class is served first-fit, or ends in
`swap_out`'s panic. -/
theorem Sound.firstFit (sound : h.Sound t trunkLimit blocks)
    (hcurrent : h.heap.process.current = some t) (room : h.heap.heapTrunkCount < trunkLimit)
    (positive : 0 < size) (small : size ≤ 512) :
    (h.myMalloc size = .error (.panic "swap_out: Swap file is full\n") ∧
      h.heap.process.left ≤ 1) ∨
    ∃ h' a, h.myMalloc size = .ok (h', some a) ∧ h.FirstFit h' t size a := by
  rw [sound.myMalloc_eq hcurrent]
  cases sound.mallocInitialised hcurrent size with
  | panic taken left => exact .inl ⟨taken, left⟩
  | found k h' a taken inUse before gives =>
      obtain ⟨h₁, md, rfl, faulted, hmalloc⟩ := gives
      refine .inr ⟨_, a, taken, .found k inUse ?_ ?_ ?_ ?_ ?_⟩
      · intro j hj
        exact sound.classFull (Nat.lt_trans hj inUse) positive small (before j hj)
      · rw [sound.trunkBase_eq] at hmalloc
        have hlowest := (sound.hold.held k inUse).takesLowest (by rw [hmalloc])
        rw [hmalloc] at hlowest
        rw [records_setRecord_self]
        exact hlowest
      · intro i hi
        rw [records_setRecord_of_ne _ md hi, faulted.records_eq]
      · exact faulted.count_eq
      · intro j hj
        exact faulted.served.kept t j sound.pages.live hj
  | grown h₁ h' a taken noneFits more sound₁ gives =>
      obtain ⟨h₂, md, rfl, faulted, hmalloc⟩ := gives
      obtain ⟨r, i, smallest, first, hok⟩ :=
        malloc_zero_record (pageAddress (h.heap.heapTrunkCount + 1)) positive small
      rw [sound₁.trunkBase_eq, more.records_eq, sound.blank _ (Nat.le_refl _) room, hok,
        Prod.mk.injEq, Option.some.injEq] at hmalloc
      refine .inr ⟨_, a, taken, .grown r i smallest first ?_ hmalloc.2.symm ?_ ?_ ?_ ?_⟩
      · intro j hj
        exact sound.classFull hj positive small (noneFits j hj)
      · rw [records_setRecord_self, hmalloc.1]
      · intro j hj
        rw [records_setRecord_of_ne _ md hj, faulted.records_eq, more.records_eq]
      · exact faulted.count_eq.trans more.count_eq
      · intro j hj
        exact (faulted.served.kept t j sound₁.pages.live hj).trans (more.memory j hj)
  | refused h₁ h' taken noneFits more sound₁ faulted null =>
      obtain ⟨r, i, -, -, hok⟩ :=
        malloc_zero_record (pageAddress (h.heap.heapTrunkCount + 1)) positive small
      rw [sound₁.trunkBase_eq, more.records_eq, sound.blank _ (Nat.le_refl _) room, hok] at null
      cases null
  | beyond noneFits full => omega

/-- A trunk more needs a frame or a slot. -/
theorem Sound.malloc_panics (sound : h.Sound t trunkLimit blocks)
    (hcurrent : h.heap.process.current = some t) (room : h.heap.heapTrunkCount < trunkLimit)
    (spent : h.heap.process.left ≤ 0) (noneFits : h.NoneFits size) :
    h.myMalloc size = .error (.panic "swap_out: Swap file is full\n") := by
  have hlimit := trunkLimit_succ
  have unpaid : ∀ {h₁ : RecordHeap}, h.Grown h₁ t → h₁.Sound t trunkLimit blocks → False := by
    intro h₁ more sound₁
    have hpaid := more.spent (by omega)
    have hleft := sound₁.pages.inv.left_nonneg
    omega
  rw [sound.myMalloc_eq hcurrent]
  cases sound.mallocInitialised hcurrent size with
  | panic taken left => exact taken
  | found k h' a taken inUse before gives =>
      obtain ⟨h₁, md, -, -, hmalloc⟩ := gives
      have hnull := noneFits k inUse
      rw [hmalloc] at hnull
      cases hnull
  | grown h₁ h' a taken noneFits more sound₁ gives => exact absurd sound₁ (unpaid more)
  | refused h₁ h' taken noneFits more sound₁ faulted null => exact absurd sound₁ (unpaid more)
  | beyond noneFits bound => omega

theorem Sound.trunkPages (sound : h.Sound t trunkLimit blocks) : h.TrunkPages t := by
  have hlimit := trunkLimit_succ
  have hfew := sound.few
  have hpages := sound.pages
  rw [Nat.min_eq_left (by omega)] at hpages
  intro j hj
  constructor
  · intro used
    by_contra hlt
    exact used (hpages.rest j (by omega) hj)
  · intro hle
    exact hpages.used j (by omega) hj

end RecordHeap

end OsDesign.Heap
