import OsDesign.Heap.MyMalloc
import OsDesign.Virt.Pointers

/-!
`my_malloc` and `my_free` of a running thread do not end at a NULL pointer. `my_malloc`
without a `CURRENT` does.
-/
namespace OsDesign.Heap.ThreadHeap

open Virt Outcome

/-- The thread runs, and the paging layer can follow its pointers. -/
structure Running (t : ThreadId) (h : ThreadHeap) : Prop where
  owned : Owned h.process.vm
  current : h.process.current = some t

variable {h : ThreadHeap} {t : ThreadId}

theorem Running.openRecord (running : h.Running t) (i : Nat) :
    Ensures NotNull (Running t) (h.openRecord i) := by
  rw [ThreadHeap.openRecord]
  have first := Process.access_ensures running.owned running.current (h.trunkMetadata i)
  split
  · exact .error (first.of_error ‹_›)
  · rename_i p hp
    obtain ⟨owned, moved⟩ := first.of_ok hp
    have current : p.current = some t := by
      rw [moved]
      exact running.current
    have last := Process.access_ensures owned current (h.trunkMetadata i + (metadataSize - 1))
    split
    · exact .error (last.of_error ‹_›)
    · rename_i p' hp'
      obtain ⟨owned', moved'⟩ := last.of_ok hp'
      refine .ok ⟨owned', ?_⟩
      rw [moved']
      exact current

theorem Running.setMetadata (running : h.Running t) (i : Nat) (md : HeapMetadataT) :
    (h.setMetadata i md).Running t :=
  ⟨running.owned.congr rfl, running.current⟩

theorem Running.mallocTrunk (running : h.Running t) (i size : Nat) :
    Ensures NotNull (fun r => r.1.Running t) (h.mallocTrunk i size) := by
  rw [ThreadHeap.mallocTrunk]
  split
  · exact .ok running
  · have opened := running.openRecord i
    split
    · exact .error (opened.of_error ‹_›)
    · rename_i h₁ hopen
      have running₁ : h₁.Running t := opened.of_ok hopen
      split
      · exact .ok running₁
      · exact .ok (running₁.setMetadata _ _)

theorem Running.mallocFrom {size turns i : Nat} (running : h.Running t) :
    Ensures NotNull (fun r => r.1.Running t) (mallocFrom size turns i h) := by
  induction turns generalizing i h with
  | zero => exact .ok running
  | succ turns ih =>
      rw [ThreadHeap.mallocFrom]
      have turn := running.mallocTrunk i size
      split
      · exact .error (turn.of_error ‹_›)
      · rename_i found
        exact .ok (turn.of_ok found)
      · rename_i missed
        exact ih (turn.of_ok missed)

theorem Running.morePage (running : h.Running t) :
    Ensures NotNull (Running t) h.morePage := by
  rw [ThreadHeap.morePage]
  have page := Process.allocatePage_ensures running.owned running.current
  split
  · exact .error (page.of_error ‹_›)
  · rename_i p address hp
    obtain ⟨owned, moved⟩ := page.of_ok hp
    refine .ok ⟨owned, ?_⟩
    change p.current = some t
    rw [show p = { h.process with vm := p.vm } from moved]
    exact running.current

theorem Running.myMallocInit (running : h.Running t) :
    Ensures NotNull (Running t) h.myMallocInit := by
  rw [ThreadHeap.myMallocInit]
  have first := running.morePage
  split
  · exact .error (first.of_error ‹_›)
  · rename_i h₁ hfirst
    have second := (first.of_ok hfirst : h₁.Running t).morePage
    split
    · exact .error (second.of_error ‹_›)
    · rename_i h₂ hsecond
      have running₂ : h₂.Running t := second.of_ok hsecond
      exact .ok ⟨running₂.owned, running₂.current⟩

theorem Running.mallocInitialised (running : h.Running t) (size : Nat) :
    Ensures NotNull (fun r => r.1.Running t) (h.mallocInitialised size) := by
  rw [ThreadHeap.mallocInitialised]
  have searched : Ensures NotNull (fun r => r.1.Running t)
      (ThreadHeap.mallocFrom size h.heapTrunkCount 0 h) := running.mallocFrom
  split
  · exact .error (searched.of_error ‹_›)
  · rename_i found
    exact .ok (searched.of_ok found)
  · rename_i h₁ missed
    have page := (searched.of_ok missed : h₁.Running t).morePage
    split
    · exact .error (page.of_error ‹_›)
    · rename_i h₂ hpage
      have running₂ : h₂.Running t := page.of_ok hpage
      have grown : ({ h₂ with heapTrunkCount := h₂.heapTrunkCount + 1 } : ThreadHeap).Running t :=
        ⟨running₂.owned, running₂.current⟩
      exact grown.mallocTrunk _ size

theorem Running.myMalloc (running : h.Running t) (size : Nat) :
    Ensures NotNull (fun r => r.1.Running t) (h.myMalloc size) := by
  simp only [ThreadHeap.myMalloc, running.current]
  split
  · have ready := running.myMallocInit
    split
    · exact .error (ready.of_error ‹_›)
    · rename_i h₁ hready
      exact (ready.of_ok hready : h₁.Running t).mallocInitialised size
  · exact running.mallocInitialised size

theorem Running.myFree (running : h.Running t) (ptr : Nat) :
    Ensures NotNull (Running t) (h.myFree ptr) := by
  simp only [ThreadHeap.myFree]
  split
  · exact .ok running
  · split
    · exact .ok running
    · have opened := running.openRecord ((ptrOffset h.gHeapPages ptr).toNat / pageSize)
      split
      · exact .error (opened.of_error ‹_›)
      · rename_i h₁ hopen
        exact .ok ((opened.of_ok hopen : h₁.Running t).setMetadata _ _)

end OsDesign.Heap.ThreadHeap
