import OsDesign.Virt.SlotConservation

/-!
The frame table between the steps of a run, in the terms of the code: the
counter, the frames and the valid page-table entries of the live threads.
-/
namespace OsDesign.Virt

open Loops Tally

/-- Entry `j` of live thread `t` is valid and names frame `i`. -/
def Process.Maps (s : Process) (t : ThreadId) (j i : Nat) : Prop :=
  s.live t = true ∧ j < maxVirtualPages ∧ (s.vm.pagetables t j).hardValid = 1#1 ∧
    (s.vm.pagetables t j).hardPageframenumber = i

/-- The two records of ownership agree, and `allocate_physical_page`, called by
`CURRENT`, cannot leave its searches at the end of a table. -/
structure Process.FramesAgree (s : Process) : Prop where
  counted : s.vm.gPfnCount = tally maxPhysicalPages fun i => (s.vm.gPfn i).used
  named : ∀ i, i < maxPhysicalPages → (s.vm.gPfn i).used = true →
    ∃ t j, s.Maps t j i ∧ (s.vm.gPfn i).thread = some t ∧
      ∀ t' j', s.Maps t' j' i → t' = t ∧ j' = j
  backed : ∀ t j i, s.Maps t j i → i < maxPhysicalPages ∧ (s.vm.gPfn i).used = true
  frameReturned : ∀ current vm i, s.current = some current →
    s.vm.allocatePhysicalPage current = .ok (vm, i) → i < maxPhysicalPages
  victimFound : ∀ current, s.current = some current → (maxPhysicalPages : Int) ≤ s.vm.gPfnCount →
    ∃ i thread j, firstIndex maxPhysicalPages (s.vm.isVictim current) = some i ∧
      (s.vm.gPfn i).thread = some thread ∧
      firstIndex maxVirtualPages (s.vm.names thread i) = some j
  neverHere : ∀ current, s.current = some current →
    s.vm.allocatePhysicalPage current ≠ .error (.panic "allocate_physical_page\n")

variable {s : Process}

theorem Process.maps_iff {t : ThreadId} {j i : Nat} :
    s.Maps t j i ↔ s.live t = true ∧ j < maxVirtualPages ∧ s.vm.view t j = .inMemory i := by
  simp only [Process.Maps, Mmpte.view_eq_inMemory]

theorem Process.Inv.framesAgree (inv : s.Inv) : s.FramesAgree := by
  refine ⟨inv.frames.count, ?_, ?_, ?_, ?_, ?_⟩
  · intro i hi hused
    obtain ⟨t, j, ht, hj, hv, hthread⟩ := inv.frames.owned i hi hused
    refine ⟨t, j, Process.maps_iff.mpr ⟨ht, hj, hv⟩, hthread, ?_⟩
    intro t' j' hmaps
    obtain ⟨ht', hj', hv'⟩ := Process.maps_iff.mp hmaps
    exact inv.frames.owner_unique ht' hj' ht hj hv' hv
  · intro t j i hmaps
    obtain ⟨ht, hj, hv⟩ := Process.maps_iff.mp hmaps
    exact ⟨(inv.frames.backed t j i ht hj hv).1, (inv.frames.backed t j i ht hj hv).2.1⟩
  · intro current vm i _ hok
    rcases allocatePhysicalPage_cases current inv.frames inv.swaps.count with
      h | ⟨vm', p, h, alloc⟩
    · rw [h] at hok
      cases hok
    · rw [h] at hok
      cases hok
      exact alloc.frame_lt
  · intro current _ bound
    obtain ⟨i, thread, j, hvictim, hthread, -, hentry⟩ :=
      inv.frames.victim_found (inv.frames.full bound) current
    exact ⟨i, thread, j, hvictim, hthread, hentry⟩
  · intro current _ hpanic
    rcases allocatePhysicalPage_cases current inv.frames inv.swaps.count with
      h | ⟨vm', p, h, alloc⟩
    · rw [h] at hpanic
      simp at hpanic
    · rw [h] at hpanic
      cases hpanic

/-- In every state of every run the frame table and the page tables of the live
threads agree. -/
theorem Process.framesAgree_of_reachable (main : ThreadId)
    (reach : Runs.Reachable (fun s => s = Process.start main) Process.Enabled Process.Step s) :
    s.FramesAgree :=
  (Process.Inv.reachable (fun _ _ h => h) reach).framesAgree

/-- Every frame is used, by two threads, and thread 1 has taken one from the main thread. -/
theorem Process.framesAgree_after_eviction :
    ∃ s : Process, s.current = some 1 ∧ s.vm.gPfnCount = 2048 ∧
      (∃ j o, j < maxVirtualPages ∧ s.vm.view 0 j = .swappedOut o) ∧ s.FramesAgree := by
  obtain ⟨s, pages, j, o, run, layout, hj, hentry⟩ := Process.evictingRun_steps
  have full : s.vm.gPfnCount = 2048 := by
    rw [layout.frames, maxPhysicalPages_eq]
    rfl
  have reach : Runs.Reachable (fun s => s = Process.start 0) Process.Enabled Process.Step s :=
    ⟨Process.start 0, _, rfl, run.mono fun s e untouched => untouched.1⟩
  exact ⟨s, layout.current, full, ⟨j, o, hj, hentry⟩, Process.framesAgree_of_reachable 0 reach⟩

end OsDesign.Virt
