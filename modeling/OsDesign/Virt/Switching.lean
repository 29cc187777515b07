import OsDesign.Virt.Slots

/-!
The loops over a page table: the two halves of a context switch, which copy
between the window and the frames, and the release of an exiting thread's
frames.
-/
namespace OsDesign.Virt

open Loops ByteStore Tally

variable {live : ThreadId → Bool} {s s' : Vm} {current t : ThreadId} {i j k p : Nat}

theorem pageAddress_div (j : Nat) : pageAddress j / pageSize = 0x60000 + j := by
  change (0x60000000 + j * 4096) / 4096 = 0x60000 + j
  omega

/-- `mm_store_virtual_pages_back` changes only the frames `CURRENT` names, and
leaves in each of them its window page. -/
theorem mmStoreVirtualPagesBack_spec (frames : FrameTable live s) (hlive : live current = true) :
    ∃ frameBytes, s.mmStoreVirtualPagesBack current = { s with physicalMemory := frameBytes } ∧
      (∀ j p, j < maxVirtualPages → s.view current j = .inMemory p →
        read pageSize frameBytes (p * pageSize) = read pageSize s.memory (pageAddress j)) ∧
      (∀ q, (∀ j, j < maxVirtualPages → s.view current j ≠ .inMemory q) →
        read pageSize frameBytes (q * pageSize) =
          read pageSize s.physicalMemory (q * pageSize)) := by
  refine forRange_induct (fun n u => n ≤ maxVirtualPages → ∃ m, u = { s with physicalMemory := m } ∧
      (∀ j p, j < n → s.view current j = .inMemory p →
        read pageSize m (p * pageSize) = read pageSize s.memory (pageAddress j)) ∧
      (∀ q, (∀ j, j < n → s.view current j ≠ .inMemory q) →
        read pageSize m (q * pageSize) = read pageSize s.physicalMemory (q * pageSize)))
    _ maxVirtualPages s ?_ ?_ (Nat.le_refl _)
  · exact fun _ => ⟨s.physicalMemory, rfl, fun j p hj => absurd hj (Nat.not_lt_zero j),
      fun _ _ => rfl⟩
  · intro i u hi ih hle
    obtain ⟨m, rfl, hcopied, hkept⟩ := ih (Nat.le_of_succ_le hle)
    by_cases hvalid : (s.pagetables current i).hardValid = 1#1
    · have hv : s.view current i = .inMemory (s.pagetables current i).hardPageframenumber :=
        Mmpte.hardValid_eq_one_iff.mp hvalid
      refine ⟨write m ((s.pagetables current i).hardPageframenumber * pageSize)
        (read pageSize s.memory (pageAddress i)), if_pos hvalid, ?_, ?_⟩
      · intro j p hj hvj
        by_cases hji : j = i
        · subst hji
          obtain rfl := Mmpte.View.inMemory.inj (hv.symm.trans hvj)
          exact read_write_self m _ _
        · have hne : (s.pagetables current i).hardPageframenumber ≠ p := by
            intro same
            subst same
            exact hji (frames.injective current j i _ hlive (by omega) hi hvj hv)
          rw [read_write_block_of_ne m _ _ _ hne]
          exact hcopied j p (by omega) hvj
      · intro q hq
        have hne : (s.pagetables current i).hardPageframenumber ≠ q := by
          intro same
          subst same
          exact hq i (Nat.lt_succ_self i) hv
        rw [read_write_block_of_ne m _ _ _ hne]
        exact hkept q fun j hj => hq j (Nat.lt_succ_of_lt hj)
    · refine ⟨m, if_neg hvalid, ?_, fun q hq => hkept q fun j hj => hq j (Nat.lt_succ_of_lt hj)⟩
      intro j p hj hvj
      have hji : j ≠ i := by
        intro same
        subst same
        exact hvalid (Mmpte.view_eq_inMemory.mp hvj).1
      exact hcopied j p (by omega) hvj

/-- `mm_switch_virtual_pages` opens exactly the window pages `CURRENT` has in
memory and fills them from their frames. -/
theorem mmSwitchVirtualPages_spec (s : Vm) (current : ThreadId) :
    ∃ windowBytes access, s.mmSwitchVirtualPages current =
        { s with memory := windowBytes, accessible := access } ∧
      (∀ j p, j < maxVirtualPages → s.view current j = .inMemory p →
        read pageSize windowBytes (pageAddress j) =
          read pageSize s.physicalMemory (p * pageSize)) ∧
      (∀ j p, j < maxVirtualPages → s.view current j = .inMemory p →
        access (pageAddress j / pageSize) = true) ∧
      (∀ j, j < maxVirtualPages → (∀ p, s.view current j ≠ .inMemory p) →
        access (pageAddress j / pageSize) = false) := by
  refine forRange_induct (fun n u => n ≤ maxVirtualPages → ∃ m a,
      u = { s with memory := m, accessible := a } ∧
      (∀ j p, j < n → s.view current j = .inMemory p →
        read pageSize m (pageAddress j) = read pageSize s.physicalMemory (p * pageSize)) ∧
      (∀ j p, j < n → s.view current j = .inMemory p → a (pageAddress j / pageSize) = true) ∧
      (∀ j, j < n → (∀ p, s.view current j ≠ .inMemory p) →
        a (pageAddress j / pageSize) = false))
    _ maxVirtualPages s ?_ ?_ (Nat.le_refl _)
  · exact fun _ => ⟨s.memory, s.accessible, rfl, fun j p hj => absurd hj (Nat.not_lt_zero j),
      fun j p hj => absurd hj (Nat.not_lt_zero j), fun j hj => absurd hj (Nat.not_lt_zero j)⟩
  · intro i u hi ih hle
    obtain ⟨m, a, rfl, hcopied, hopen, hclosed⟩ := ih (Nat.le_of_succ_le hle)
    have hpage : ∀ {j}, j ≠ i → pageAddress j / pageSize ≠ pageAddress i / pageSize := by
      intro j hji
      rw [pageAddress_div, pageAddress_div]
      omega
    by_cases hvalid : (s.pagetables current i).hardValid = 1#1
    · have hv : s.view current i = .inMemory (s.pagetables current i).hardPageframenumber :=
        Mmpte.hardValid_eq_one_iff.mp hvalid
      refine ⟨write m (pageAddress i) (read pageSize s.physicalMemory
          ((s.pagetables current i).hardPageframenumber * pageSize)),
        Function.update a (pageAddress i / pageSize) true, if_pos hvalid, ?_, ?_, ?_⟩
      · intro j p hj hvj
        by_cases hji : j = i
        · subst hji
          obtain rfl := Mmpte.View.inMemory.inj (hv.symm.trans hvj)
          exact read_write_self m _ _
        · rw [read_write_of_ne m virtualHeapStart i j _ (Ne.symm hji)]
          exact hcopied j p (by omega) hvj
      · intro j p hj hvj
        by_cases hji : j = i
        · simp [hji]
        · rw [Function.update_of_ne (hpage hji)]
          exact hopen j p (by omega) hvj
      · intro j hj hvj
        have hji : j ≠ i := by
          intro same
          subst same
          exact hvj _ hv
        rw [Function.update_of_ne (hpage hji)]
        exact hclosed j (by omega) hvj
    · refine ⟨m, Function.update a (pageAddress i / pageSize) false, if_neg hvalid, ?_, ?_, ?_⟩
      · intro j p hj hvj
        have hji : j ≠ i := by
          intro same
          subst same
          exact hvalid (Mmpte.view_eq_inMemory.mp hvj).1
        exact hcopied j p (by omega) hvj
      · intro j p hj hvj
        have hji : j ≠ i := by
          intro same
          subst same
          exact hvalid (Mmpte.view_eq_inMemory.mp hvj).1
        rw [Function.update_of_ne (hpage hji)]
        exact hopen j p (by omega) hvj
      · intro j hj hvj
        by_cases hji : j = i
        · simp [hji]
        · rw [Function.update_of_ne (hpage hji)]
          exact hclosed j (by omega) hvj

namespace Vm

theorem freePhysicalPage_of_used (s : Vm) (hp : p < maxPhysicalPages)
    (hused : (s.gPfn p).used = true) :
    s.freePhysicalPage p =
      { s with
        gPfn := Function.update s.gPfn p { s.gPfn p with used := false }
        gPfnCount := s.gPfnCount - 1 } := by
  rw [freePhysicalPage, if_neg (Nat.not_le.mpr hp), if_neg (by simp [hused])]

theorem pagetables_freePhysicalPage (p : Nat) (s : Vm) :
    (s.freePhysicalPage p).pagetables = s.pagetables := by
  rw [freePhysicalPage]
  split
  · rfl
  · split <;> rfl

theorem gPfn_freePhysicalPage_of_ne (s : Vm) {q : Nat} (h : q ≠ p) :
    (s.freePhysicalPage p).gPfn q = s.gPfn q := by
  rw [freePhysicalPage]
  split
  · rfl
  · split
    · rfl
    · exact Function.update_of_ne h _ _

theorem used_freePhysicalPage (s : Vm) (hp : p < maxPhysicalPages) :
    ((s.freePhysicalPage p).gPfn p).used = false := by
  rw [freePhysicalPage, if_neg (Nat.not_le.mpr hp)]
  split
  · assumption
  · exact congrArg PfnT.used (Function.update_self p _ s.gPfn)

end Vm

/-- One turn of `free_thread_pages` on a valid entry. -/
theorem FrameTable.freeEntry (frames : FrameTable live s) (ht : live t = true)
    (hj : j < maxVirtualPages) (entry : s.view t j = .inMemory p) :
    FrameTable live ((s.freePhysicalPage p).setEntry t j Mmpte.zero) := by
  obtain ⟨hp, hused, hthread⟩ := frames.backed t j p ht hj entry
  rw [s.freePhysicalPage_of_used hp hused]
  -- the entries that still name a frame named another one
  have hold : ∀ {t' j' q}, live t' = true → j' < maxVirtualPages →
      (s.setEntry t j Mmpte.zero).view t' j' = .inMemory q →
        s.view t' j' = .inMemory q ∧ q ≠ p := by
    intro t' j' q ht' hj' hv
    by_cases hsame : t' = t ∧ j' = j
    · obtain ⟨rfl, rfl⟩ := hsame
      rw [Vm.view_setEntry_self, Mmpte.view_zero] at hv
      cases hv
    · rw [Vm.view_setEntry_of_ne _ _ (by tauto)] at hv
      refine ⟨hv, ?_⟩
      intro same
      subst same
      exact hsame (frames.owner_unique ht' hj' ht hj hv entry)
  refine ⟨?_, ?_, ?_, ?_⟩
  · have h : (fun i => (Function.update s.gPfn p { s.gPfn p with used := false } i).used) =
        Function.update (fun i => (s.gPfn i).used) p false := by
      funext i
      by_cases hi : i = p <;> simp [hi]
    change s.gPfnCount - 1 = (tally maxPhysicalPages fun i =>
      (Function.update s.gPfn p { s.gPfn p with used := false } i).used : Nat)
    have fewer : tally maxPhysicalPages (Function.update (fun i => (s.gPfn i).used) p false) + 1 =
        tally maxPhysicalPages fun i => (s.gPfn i).used := tally_clear hp hused
    rw [h, frames.count]
    omega
  · intro i hi hi'
    change (Function.update s.gPfn p { s.gPfn p with used := false } i).used = true at hi'
    have hip : i ≠ p := by
      intro same
      subst same
      simp at hi'
    rw [Function.update_of_ne hip] at hi'
    obtain ⟨t', j', ht', hj', hv, hown⟩ := frames.owned i hi hi'
    refine ⟨t', j', ht', hj', ?_, ?_⟩
    · change (s.setEntry t j Mmpte.zero).view t' j' = _
      rw [Vm.view_setEntry_of_ne]
      · exact hv
      · by_contra hsame
        obtain ⟨rfl, rfl⟩ : t' = t ∧ j' = j := by tauto
        rw [entry] at hv
        exact hip (Mmpte.View.inMemory.inj hv).symm
    · change (Function.update s.gPfn p { s.gPfn p with used := false } i).thread = _
      rw [Function.update_of_ne hip, hown]
  · intro t' j' q ht' hj' hv
    obtain ⟨hv, hqp⟩ := hold ht' hj' hv
    change q < maxPhysicalPages ∧
      (Function.update s.gPfn p { s.gPfn p with used := false } q).used = true ∧
      (Function.update s.gPfn p { s.gPfn p with used := false } q).thread = some t'
    rw [Function.update_of_ne hqp]
    exact frames.backed t' j' q ht' hj' hv
  · exact fun t' j₁ j₂ q ht' hj₁ hj₂ hv₁ hv₂ =>
      frames.injective t' j₁ j₂ q ht' hj₁ hj₂ (hold ht' hj₁ hv₁).1 (hold ht' hj₂ hv₂).1

theorem SwapTable.freePhysicalPage (swaps : SwapTable live s) (p : Nat) :
    SwapTable live (s.freePhysicalPage p) := by
  unfold Vm.freePhysicalPage
  split
  · exact swaps
  · split
    · exact swaps
    · exact ⟨swaps.count, swaps.held, swaps.injective, swaps.regular⟩

/-- `free_thread_pages` clears every entry in memory and releases its frame;
swapped-out entries, the other threads' tables and all bytes stay. -/
theorem freeThreadPages_spec (frames : FrameTable live s) (swaps : SwapTable live s)
    (ht : live t = true) :
    ∃ tables pfn count, s.freeThreadPages t =
        { s with pagetables := tables, gPfn := pfn, gPfnCount := count } ∧
      FrameTable live (s.freeThreadPages t) ∧ SwapTable live (s.freeThreadPages t) ∧
      (∀ t' j, t' ≠ t → tables t' j = s.pagetables t' j) ∧
      (∀ j, j < maxVirtualPages → ∀ q, (tables t j).view ≠ .inMemory q) ∧
      (∀ i, i < maxPhysicalPages → (s.gPfn i).thread ≠ some t → pfn i = s.gPfn i) ∧
      (∀ i, (pfn i).used = true → (s.gPfn i).used = true) := by
  have h := forRange_induct (fun n u => n ≤ maxVirtualPages → ∃ tables pfn count,
      u = { s with pagetables := tables, gPfn := pfn, gPfnCount := count } ∧
      FrameTable live u ∧ SwapTable live u ∧
      (∀ t' j, t' ≠ t → tables t' j = s.pagetables t' j) ∧
      (∀ j, j < n → ∀ q, (tables t j).view ≠ .inMemory q) ∧
      (∀ i, i < maxPhysicalPages → (s.gPfn i).thread ≠ some t → pfn i = s.gPfn i) ∧
      (∀ i, (pfn i).used = true → (s.gPfn i).used = true))
    (fun i s => if (s.pagetables t i).hardValid = 1#1 then
      (s.freePhysicalPage (s.pagetables t i).hardPageframenumber).setEntry t i Mmpte.zero
    else s) maxVirtualPages s ?_ ?_ (Nat.le_refl _)
  · exact h
  · exact fun _ => ⟨s.pagetables, s.gPfn, s.gPfnCount, rfl, frames, swaps, fun _ _ _ => rfl,
      fun j hj => absurd hj (Nat.not_lt_zero j), fun _ _ _ => rfl, fun _ h => h⟩
  · intro i u hi ih hle
    obtain ⟨tables, pfn, count, hu, hframes, hswaps, hothers, hcleared, hpfn, hused⟩ :=
      ih (Nat.le_of_succ_le hle)
    by_cases hvalid : (u.pagetables t i).hardValid = 1#1
    · have hv : u.view t i = .inMemory (u.pagetables t i).hardPageframenumber :=
        Mmpte.hardValid_eq_one_iff.mp hvalid
      generalize hp : (u.pagetables t i).hardPageframenumber = p at hv
      obtain ⟨hplt, hpused, hpthread⟩ := hframes.backed t i p ht hi hv
      simp only [hvalid, if_true]
      refine ⟨Function.update tables t (Function.update (tables t) i Mmpte.zero),
        Function.update pfn p { pfn p with used := false }, count - 1, ?_,
        hframes.freeEntry ht hi hv, ?_, ?_, ?_, ?_, ?_⟩
      · rw [u.freePhysicalPage_of_used hplt hpused, hu]
        rfl
      · exact (hswaps.freePhysicalPage p).setEntry (by simp) (by simp)
      · intro t' j' hne
        rw [Function.update_of_ne hne]
        exact hothers t' j' hne
      · intro j' hj' q
        rw [Function.update_self]
        by_cases hji : j' = i
        · simp [hji]
        · rw [Function.update_of_ne hji]
          exact hcleared j' (by omega) q
      · intro q hq hthread
        have hqp : q ≠ p := by
          intro same
          subst same
          apply hthread
          rw [← hpfn q hq hthread]
          rw [hu] at hpthread
          exact hpthread
        rw [Function.update_of_ne hqp]
        exact hpfn q hq hthread
      · intro q hq
        by_cases hqp : q = p
        · simp [hqp] at hq
        · rw [Function.update_of_ne hqp] at hq
          exact hused q hq
    · simp only [hvalid]
      refine ⟨tables, pfn, count, hu, hframes, hswaps, hothers, ?_, hpfn, hused⟩
      intro j' hj' q
      by_cases hji : j' = i
      · subst hji
        intro hv
        rw [hu] at hvalid
        exact hvalid (Mmpte.view_eq_inMemory.mp hv).1
      · exact hcleared j' (by omega) q

theorem live_of_update_false {t' : ThreadId} (h : Function.update live t false t' = true) :
    live t' = true := by
  by_cases ht : t' = t
  · simp [ht] at h
  · simpa [ht] using h

/-- A thread without frames may leave the live threads. -/
theorem FrameTable.exit (frames : FrameTable live s)
    (cleared : ∀ j, j < maxVirtualPages → ∀ q, s.view t j ≠ .inMemory q) :
    FrameTable (Function.update live t false) s := by
  refine ⟨frames.count, ?_, fun t' j q h => frames.backed t' j q (live_of_update_false h),
    fun t' j j' q h => frames.injective t' j j' q (live_of_update_false h)⟩
  intro i hi hused
  obtain ⟨t', j, ht', hj, hv, hown⟩ := frames.owned i hi hused
  have hne : t' ≠ t := by
    intro same
    subst same
    exact cleared j hj i hv
  exact ⟨t', j, by simpa [hne] using ht', hj, hv, hown⟩

theorem SwapTable.exit (swaps : SwapTable live s) :
    SwapTable (Function.update live t false) s := by
  exact ⟨swaps.count, fun t' j o h => swaps.held t' j o (live_of_update_false h),
    fun t₁ j₁ t₂ j₂ o h₁ hj₁ h₂ => swaps.injective t₁ j₁ t₂ j₂ o (live_of_update_false h₁) hj₁
      (live_of_update_false h₂),
    fun t' j h => swaps.regular t' j (live_of_update_false h)⟩

theorem view_clearPagetable_self (s : Vm) (t : ThreadId) (j : Nat) :
    (s.clearPagetable t).view t j = .unused := by
  simp [Vm.clearPagetable, Vm.view]

theorem view_clearPagetable_of_ne (s : Vm) {t t' : ThreadId} (j : Nat) (h : t' ≠ t) :
    (s.clearPagetable t).view t' j = s.view t' j := by
  simp [Vm.clearPagetable, Vm.view, h]

/-- The entries in use behind a creation are those of the live threads before it. -/
theorem used_of_create {t' : ThreadId} {j : Nat} {v : Mmpte.View} (used : v ≠ .unused)
    (h : Function.update live t true t' = true) (hv : (s.clearPagetable t).view t' j = v) :
    live t' = true ∧ s.view t' j = v := by
  by_cases ht : t' = t
  · subst ht
    rw [view_clearPagetable_self] at hv
    exact absurd hv.symm used
  · rw [view_clearPagetable_of_ne s j ht] at hv
    exact ⟨by simpa [ht] using h, hv⟩

/-- A thread that is created joins the live threads with an empty table. -/
theorem FrameTable.create (frames : FrameTable live s) (new : live t = false) :
    FrameTable (Function.update live t true) (s.clearPagetable t) := by
  have hold : ∀ {t' j q}, Function.update live t true t' = true →
      (s.clearPagetable t).view t' j = .inMemory q →
        live t' = true ∧ s.view t' j = .inMemory q := used_of_create (by simp)
  refine ⟨frames.count, ?_, ?_, ?_⟩
  · intro i hi hused
    obtain ⟨t', j, ht', hj, hv, hown⟩ := frames.owned i hi hused
    have hne : t' ≠ t := by
      intro same
      subst same
      simp [new] at ht'
    exact ⟨t', j, by simpa [hne] using ht', hj, by rw [view_clearPagetable_of_ne s j hne, hv], hown⟩
  · intro t' j q h hj hv
    exact frames.backed t' j q (hold h hv).1 hj (hold h hv).2
  · intro t' j j' q h hj hj' hv hv'
    exact frames.injective t' j j' q (hold h hv).1 hj hj' (hold h hv).2 (hold h hv').2

theorem SwapTable.create (swaps : SwapTable live s) :
    SwapTable (Function.update live t true) (s.clearPagetable t) := by
  have hold : ∀ {t' j o}, Function.update live t true t' = true →
      (s.clearPagetable t).view t' j = .swappedOut o →
        live t' = true ∧ s.view t' j = .swappedOut o := used_of_create (by simp)
  refine ⟨swaps.count, ?_, ?_, ?_⟩
  · intro t' j o h hj hv
    exact swaps.held t' j o (hold h hv).1 hj (hold h hv).2
  · intro t₁ j₁ t₂ j₂ o h₁ hj₁ h₂ hj₂ hv₁ hv₂
    exact swaps.injective t₁ j₁ t₂ j₂ o (hold h₁ hv₁).1 hj₁ (hold h₂ hv₂).1 hj₂
      (hold h₁ hv₁).2 (hold h₂ hv₂).2
  · intro t' j h hj
    by_cases ht : t' = t
    · subst ht
      simp [view_clearPagetable_self]
    · rw [view_clearPagetable_of_ne s j ht]
      exact swaps.regular t' j (by simpa [ht] using h) hj

end OsDesign.Virt
