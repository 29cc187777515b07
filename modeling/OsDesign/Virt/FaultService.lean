import OsDesign.Virt.LastByte

/-!
What `pagefault_handler` does for a swapped-out page of `CURRENT`, in every state
in which the frames and the slots agree with the page tables. Serving the fault may
send a page of another thread to the swap file first.
-/
namespace OsDesign.Virt

open Loops ByteStore Tally

/-- The frames and the slots agree with the page tables of the live threads. -/
structure TablesAgree (live : ThreadId → Bool) (s : Vm) : Prop where
  frames : FrameTable live s
  counted : s.gSwapCount = tally maxSwapSlots s.gSwap
  held : ∀ t j o, live t = true → j < maxVirtualPages → s.view t j = .swappedOut o →
    ∃ k, k < maxSwapSlots ∧ o = k * pageSize ∧ s.gSwap k = true
  injective : ∀ t j t' j' o, live t = true → j < maxVirtualPages → live t' = true →
    j' < maxVirtualPages → s.view t j = .swappedOut o → s.view t' j' = .swappedOut o →
    t = t' ∧ j = j'

/-- No page-table entry of another thread changed, or one did: its page went from a
frame to a free slot, which holds the bytes of the frame. -/
def EvictsAtMostOne (s s' : Vm) (current : ThreadId) : Prop :=
  (∀ t j, t ≠ current → s'.pagetables t j = s.pagetables t j) ∨
  ∃ t j p k, t ≠ current ∧ s.view t j = .inMemory p ∧ s'.view t j = .swappedOut (k * pageSize) ∧
    s.gSwap k = false ∧ s'.gSwap k = true ∧
    read pageSize s'.swapFile (k * pageSize) = read pageSize s.physicalMemory (p * pageSize) ∧
    ∀ t' j', t' ≠ current → (t' ≠ t ∨ j' ≠ j) → s'.pagetables t' j' = s.pagetables t' j'

/-- The fault of `CURRENT` at the address is served from the slot at offset `o`. -/
structure Served (s s' : Vm) (current : ThreadId) (address o : Nat) : Prop where
  valid : ∃ p, p < maxPhysicalPages ∧ s'.view current (miGetpteindex address) = .inMemory p ∧
    s'.gPfn p = ⟨true, some current⟩
  bytes : read pageSize s'.memory (address / pageSize * pageSize) = read pageSize s.swapFile o
  released : s'.gSwap (o / pageSize) = false
  own : ∀ j, j ≠ miGetpteindex address → s'.pagetables current j = s.pagetables current j
  others : EvictsAtMostOne s s' current

variable {live : ThreadId → Bool} {s s' : Vm} {current : ThreadId} {address o k p : Nat}

/-- Giving a page of another thread to the swap file changes its entry only. -/
theorem Allocated.evictsAtMostOne (alloc : Allocated live current s s' p) :
    EvictsAtMostOne s s' current := by
  cases alloc with
  | free => exact .inl fun _ _ _ => rfl
  | evicted _ hp t j k used owner other ht hj entry hk slot =>
      refine .inr ⟨t, j, p, k, other, entry, ?_, slot, ?_, ?_, ?_⟩
      · change (s.setEntry t j _).view t j = _
        rw [Vm.view_setEntry_self, Mmpte.view_evicted _ (slot_offset_lt hk)]
      · simp
      · exact read_write_self _ _ _
      · intro t' j' _ hne
        exact s.pagetables_setEntry_of_ne _ hne

/-- What the handler leaves when it was given a frame. -/
theorem Allocated.served (alloc : Allocated live current s s' p)
    (hlow : virtualHeapStart ≤ address) (hused : s.gSwap k = true) :
    Served s (s'.faultServed current (miGetpteindex address) p k) current address
      (k * pageSize) := by
  have hdiv : k * pageSize / pageSize = k := Nat.mul_div_cancel k (by decide)
  have hkept : ∀ t j, t ≠ current →
      (s'.faultServed current (miGetpteindex address) p k).pagetables t j = s'.pagetables t j :=
    fun t j hne => s'.pagetables_setEntry_of_ne _ (.inl hne)
  refine ⟨⟨p, alloc.frame_lt, ?_, alloc.owned⟩, ?_, ?_, ?_, ?_⟩
  · change (s'.setEntry current (miGetpteindex address) (Mmpte.faultedIn p)).view current _ = _
    rw [Vm.view_setEntry_self, Mmpte.view_faultedIn (frame_number_lt alloc.frame_lt)]
  · rw [pageBase_eq hlow]
    refine (read_write_self _ _ _).trans ?_
    -- the slot of the evicted page is another one
    cases alloc with
    | free => rfl
    | evicted _ _ t j k' used owner other ht hj entry hk slot =>
        have hne : k' ≠ k := by
          intro same
          rw [same, hused] at slot
          cases slot
        exact read_write_block_of_ne _ _ _ _ hne
  · rw [hdiv]
    exact Function.update_self k false s'.gSwap
  · intro j hj
    exact (s'.pagetables_setEntry_of_ne _ (.inr hj)).trans (alloc.pagetables_current j)
  · rcases alloc.evictsAtMostOne with hsame | ⟨t, j, q, k', hne, hfrom, hto, hclear, hslot, hbytes,
      hrest⟩
    · exact .inl fun t j hne => (hkept t j hne).trans (hsame t j hne)
    · have hslots : k' ≠ k := by
        intro same
        rw [same, hused] at hclear
        cases hclear
      have hview : (s'.faultServed current (miGetpteindex address) p k).view t j = s'.view t j :=
        congrArg Mmpte.view (hkept t j hne)
      refine .inr ⟨t, j, q, k', hne, hfrom, hview.trans hto, hclear, ?_, hbytes, ?_⟩
      · exact (Function.update_of_ne hslots false s'.gSwap).trans hslot
      · exact fun t' j' ht' hother => (hkept t' j' ht').trans (hrest t' j' ht' hother)

/-- With a clear slot left, `swap_out` has room. -/
theorem TablesAgree.room (agree : TablesAgree live s)
    (free : ∃ k, k < maxSwapSlots ∧ s.gSwap k = false) : s.gSwapCount < maxSwapSlots := by
  obtain ⟨k, hk, hclear⟩ := free
  have hset := tally_set hk hclear
  have hle := tally_le maxSwapSlots (Function.update s.gSwap k true)
  have hcount := agree.counted
  omega

/-- With a clear slot left, a frame is found. -/
theorem TablesAgree.allocatePhysicalPage (agree : TablesAgree live s) (current : ThreadId)
    (free : ∃ k, k < maxSwapSlots ∧ s.gSwap k = false) :
    ∃ s' p, s.allocatePhysicalPage current = .ok (s', p) ∧ Allocated live current s s' p := by
  by_cases hcount : (maxPhysicalPages : Int) ≤ s.gPfnCount
  · have found := evictPage_of_room current agree.frames agree.counted
      (agree.frames.full hcount) (agree.room free)
    simpa [Vm.allocatePhysicalPage, hcount] using found
  · obtain ⟨p, hp, hunused, hfirst, hok⟩ :=
      allocatePhysicalPage_of_room current agree.frames (Int.not_le.mp hcount)
    exact ⟨_, p, hok, .free p hp hunused hfirst⟩

/-- With a clear slot left, the handler serves a swapped-out entry of `CURRENT` exactly
below the last byte of the window: its test `address < VIRTUAL_HEAP_END` leaves that
byte out. -/
theorem TablesAgree.serves_iff (agree : TablesAgree live s) (hcurrent : live current = true)
    (free : ∃ k, k < maxSwapSlots ∧ s.gSwap k = false) (hlow : virtualHeapStart ≤ address)
    (hhigh : address ≤ virtualHeapEnd)
    (entry : s.view current (miGetpteindex address) = .swappedOut o) :
    (∃ s', s.pagefaultHandler current address = .ok s' ∧ Served s s' current address o) ↔
      address < virtualHeapEnd := by
  refine ⟨fun ⟨s', hok, _⟩ => (swappedOut_of_pagefaultHandler_ok hok).2.1, fun hbelow => ?_⟩
  obtain ⟨k, hk, hoffset, hused⟩ :=
    agree.held current _ o hcurrent (miGetpteindex_lt hhigh) entry
  rw [hoffset] at entry ⊢
  obtain ⟨s₁, p₁, hfound, -⟩ := agree.allocatePhysicalPage current free
  rcases pagefaultHandler_cases agree.frames agree.counted hlow hbelow hused entry with
    ⟨hpanic, -⟩ | ⟨s', p, -, alloc, hok⟩
  · rw [hfound] at hpanic
    cases hpanic
  · exact ⟨_, hok, alloc.served hlow hused⟩

/-- The agreement of the tables is an invariant of the process. -/
theorem Process.Inv.tablesAgree {s : Process} (inv : s.Inv) : TablesAgree s.live s.vm :=
  ⟨inv.frames, inv.swaps.count, inv.swaps.held, inv.swaps.injective⟩

/-- A state of a run with two pages in the swap file, one of them the page of the last
byte of the window, owned by `CURRENT`. -/
theorem lastByte_swappedOut :
    ∃ live s o, TablesAgree live s ∧ live 0 = true ∧
      (∃ k, k < maxSwapSlots ∧ s.gSwap k = false) ∧ s.view 0 2043 = .swappedOut o := by
  have hslots := maxSwapSlots_eq
  obtain ⟨s, o, run, hcurrent, hentry, hcount⟩ := Process.lastByteRun_steps
  have inv : s.Inv := Process.Inv.reachable (fun _ _ h => h.1) ⟨_, _, rfl, run⟩
  have agree := inv.tablesAgree
  have hroom : tally maxSwapSlots s.vm.gSwap < maxSwapSlots := by
    have := agree.counted
    omega
  exact ⟨s.live, s.vm, o, agree, inv.currentLive 0 hcurrent, exists_clear hroom, hentry⟩

/-- The fault at the first byte of that page is served. -/
theorem serves_lastPage :
    ∃ live s o, TablesAgree live s ∧ s.view 0 (miGetpteindex (pageAddress 2043)) = .swappedOut o ∧
      ∃ s', s.pagefaultHandler 0 (pageAddress 2043) = .ok s' ∧
        Served s s' 0 (pageAddress 2043) o := by
  obtain ⟨live, s, o, agree, hlive, free, hentry⟩ := lastByte_swappedOut
  have hindex : miGetpteindex (pageAddress 2043) = 2043 := by decide
  rw [← hindex] at hentry
  exact ⟨live, s, o, agree, hentry, (agree.serves_iff hlive free (by decide) (by decide)
    hentry).mpr (by decide)⟩

/-- The fault at its last byte ends the process. -/
theorem lastByte_not_served :
    ∃ live s o, TablesAgree live s ∧ live 0 = true ∧
      (∃ k, k < maxSwapSlots ∧ s.gSwap k = false) ∧
      s.view 0 (miGetpteindex virtualHeapEnd) = .swappedOut o ∧
      s.pagefaultHandler 0 virtualHeapEnd = .error .segv := by
  obtain ⟨live, s, o, agree, hlive, free, hentry⟩ := lastByte_swappedOut
  have hindex : miGetpteindex virtualHeapEnd = 2043 := by decide
  have hsegv : s.pagefaultHandler 0 virtualHeapEnd = .error .segv := by
    rw [Vm.pagefaultHandler, if_neg fun h => Nat.lt_irrefl _ h.2]
  exact ⟨live, s, o, agree, hlive, free, hindex.symm ▸ hentry, hsegv⟩

end OsDesign.Virt
