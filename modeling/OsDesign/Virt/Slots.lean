import OsDesign.Virt.Frames

/-!
The swap slots against the page tables, and the page-fault handler, which takes
a frame, reads a slot into the window and gives the slot back.
-/
namespace OsDesign.Virt

open Loops ByteStore Tally

variable {live : ThreadId → Bool} {s s' : Vm} {current t : ThreadId} {i j k p : Nat}

/-- Writing the victim takes a clear slot and names it in the victim's entry. -/
theorem SwapTable.allocated (swaps : SwapTable live s) (alloc : Allocated live current s s' p) :
    SwapTable live s' := by
  cases alloc with
  | free _ hp => exact ⟨swaps.count, swaps.held, swaps.injective, swaps.regular⟩
  | evicted _ hp t jv k used owner other ht hjv entry hk slot =>
      have hself : (s.setEntry t jv ((s.pagetables t jv).evicted (k * pageSize))).view t jv =
          .swappedOut (k * pageSize) := by
        rw [Vm.view_setEntry_self, Mmpte.view_evicted _ (slot_offset_lt hk)]
      have hother : ∀ {t' j'}, ¬ (t' = t ∧ j' = jv) →
          (s.setEntry t jv ((s.pagetables t jv).evicted (k * pageSize))).view t' j' =
            s.view t' j' :=
        fun h => s.view_setEntry_of_ne _ (by tauto)
      have hfresh : ∀ {t' j'}, live t' = true → j' < maxVirtualPages →
          s.view t' j' ≠ .swappedOut (k * pageSize) := by
        intro t' j' ht' hj' hv
        obtain ⟨k', _, hoff, hused⟩ := swaps.held t' j' _ ht' hj' hv
        obtain rfl : k = k' := Nat.eq_of_mul_eq_mul_right (by decide : 0 < pageSize) hoff
        simp [slot] at hused
      refine ⟨?_, ?_, ?_, ?_⟩
      · change s.gSwapCount + 1 = (tally maxSwapSlots (Function.update s.gSwap k true) : Nat)
        rw [tally_set hk slot, swaps.count]
        simp
      · intro t' j' o ht' hj' hv
        change (s.setEntry t jv _).view t' j' = _ at hv
        change ∃ k', k' < maxSwapSlots ∧ o = k' * pageSize ∧
          Function.update s.gSwap k true k' = true
        by_cases hsame : t' = t ∧ j' = jv
        · obtain ⟨rfl, rfl⟩ := hsame
          rw [hself] at hv
          obtain rfl := Mmpte.View.swappedOut.inj hv
          exact ⟨k, hk, rfl, by simp⟩
        · rw [hother hsame] at hv
          obtain ⟨k', hk', hoff, hused⟩ := swaps.held t' j' o ht' hj' hv
          refine ⟨k', hk', hoff, ?_⟩
          by_cases hkk : k' = k
          · simp [hkk]
          · simpa [hkk] using hused
      · intro t₁ j₁ t₂ j₂ o ht₁ hj₁ ht₂ hj₂ hv₁ hv₂
        change (s.setEntry t jv _).view t₁ j₁ = _ at hv₁
        change (s.setEntry t jv _).view t₂ j₂ = _ at hv₂
        by_cases h₁ : t₁ = t ∧ j₁ = jv
        · obtain ⟨rfl, rfl⟩ := h₁
          rw [hself] at hv₁
          obtain rfl := Mmpte.View.swappedOut.inj hv₁
          by_cases h₂ : t₂ = t₁ ∧ j₂ = j₁
          · exact ⟨h₂.1.symm, h₂.2.symm⟩
          · rw [hother h₂] at hv₂
            exact absurd hv₂ (hfresh ht₂ hj₂)
        · rw [hother h₁] at hv₁
          by_cases h₂ : t₂ = t ∧ j₂ = jv
          · obtain ⟨rfl, rfl⟩ := h₂
            rw [hself] at hv₂
            obtain rfl := Mmpte.View.swappedOut.inj hv₂
            exact absurd hv₁ (hfresh ht₁ hj₁)
          · rw [hother h₂] at hv₂
            exact swaps.injective t₁ j₁ t₂ j₂ o ht₁ hj₁ ht₂ hj₂ hv₁ hv₂
      · intro t' j' ht' hj'
        change (s.setEntry t jv _).view t' j' ≠ _
        by_cases hsame : t' = t ∧ j' = jv
        · obtain ⟨rfl, rfl⟩ := hsame
          rw [hself]
          simp
        · rw [hother hsame]
          exact swaps.regular t' j' ht' hj'

/-- An entry that stops naming a slot, or never did, leaves the other names. -/
theorem SwapTable.setEntry (swaps : SwapTable live s) {e : Mmpte}
    (named : ∀ o, e.view ≠ .swappedOut o) (regular : e.view ≠ .stray) :
    SwapTable live (s.setEntry t j e) := by
  have hcase : ∀ t' j', (s.setEntry t j e).view t' j' = s.view t' j' ∨
      (s.setEntry t j e).view t' j' = e.view := by
    intro t' j'
    by_cases hsame : t' = t ∧ j' = j
    · obtain ⟨rfl, rfl⟩ := hsame
      exact .inr (s.view_setEntry_self t' j' e)
    · exact .inl (s.view_setEntry_of_ne e (by tauto))
  have hold : ∀ {t' j' o}, (s.setEntry t j e).view t' j' = .swappedOut o →
      s.view t' j' = .swappedOut o := by
    intro t' j' o hv
    rcases hcase t' j' with h | h
    · rw [← h, hv]
    · rw [h] at hv
      exact absurd hv (named o)
  refine ⟨swaps.count, ?_, ?_, ?_⟩
  · exact fun t' j' o ht' hj' hv => swaps.held t' j' o ht' hj' (hold hv)
  · exact fun t₁ j₁ t₂ j₂ o ht₁ hj₁ ht₂ hj₂ hv₁ hv₂ =>
      swaps.injective t₁ j₁ t₂ j₂ o ht₁ hj₁ ht₂ hj₂ (hold hv₁) (hold hv₂)
  · intro t' j' ht' hj'
    rcases hcase t' j' with h | h
    · rw [h]
      exact swaps.regular t' j' ht' hj'
    · rw [h]
      exact regular

/-- `swap_in` gives back a slot that no entry names any more. -/
theorem SwapTable.release (swaps : SwapTable live s) (hk : k < maxSwapSlots)
    (used : s.gSwap k = true)
    (unnamed : ∀ t j, live t = true → j < maxVirtualPages →
      s.view t j ≠ .swappedOut (k * pageSize)) :
    SwapTable live
      { s with
        gSwap := Function.update s.gSwap k false
        gSwapCount := s.gSwapCount - 1 } := by
  refine ⟨?_, ?_, swaps.injective, swaps.regular⟩
  · change s.gSwapCount - 1 = (tally maxSwapSlots (Function.update s.gSwap k false) : Nat)
    have := tally_clear hk used
    rw [swaps.count]
    omega
  · intro t j o ht hj hv
    obtain ⟨k', hk', hoff, hused⟩ := swaps.held t j o ht hj hv
    refine ⟨k', hk', hoff, ?_⟩
    have hne : k' ≠ k := by
      intro same
      subst same
      exact unnamed t j ht hj (hoff ▸ hv)
    simpa [hne] using hused

/-- An entry of `CURRENT` written, its page opened and given the bytes of `block`. -/
def Vm.pageFilled (s : Vm) (current j : Nat) (e : Mmpte) (block : Fin pageSize → UInt8) : Vm :=
  { (s.setEntry current j e).mprotect (pageAddress j) true with
    memory := write s.memory (pageAddress j) block }

/-- The state a served page fault leaves: the entry names the frame taken, the
page is open and holds the slot's bytes, and the slot is free. -/
def Vm.faultServed (s : Vm) (current j p k : Nat) : Vm :=
  { s.pageFilled current j (Mmpte.faultedIn p) (read pageSize s.swapFile (k * pageSize)) with
    gSwap := Function.update s.gSwap k false
    gSwapCount := s.gSwapCount - 1 }

theorem Allocated.gSwap_of_used (alloc : Allocated live current s s' p)
    (used : s.gSwap k = true) : s'.gSwap k = true := by
  cases alloc with
  | free => exact used
  | evicted _ _ t j k' =>
      change Function.update s.gSwap k' true k = true
      by_cases hkk : k = k' <;> simp [hkk, used]

theorem miGetpteindex_lt {address : Nat} (hhigh : address ≤ virtualHeapEnd) :
    miGetpteindex address < maxVirtualPages := by
  rw [maxVirtualPages_eq]
  change address ≤ 0x607FBFFF at hhigh
  change (address - 0x60000000) / 4096 < 2044
  omega

/-- `pageva` is the address of the page the index names. -/
theorem pageBase_eq {address : Nat} (hlow : virtualHeapStart ≤ address) :
    address / pageSize * pageSize = pageAddress (miGetpteindex address) := by
  change 0x60000000 ≤ address at hlow
  change address / 4096 * 4096 = 0x60000000 + (address - 0x60000000) / 4096 * 4096
  omega

/-- For a swapped-out page of the window below its last byte the handler
returns with the page served, or ends in `swap_out`'s panic. -/
theorem pagefaultHandler_cases (frames : FrameTable live s)
    (slots : s.gSwapCount = tally maxSwapSlots s.gSwap) {address k : Nat}
    (hlow : virtualHeapStart ≤ address) (hhigh : address < virtualHeapEnd)
    (hused : s.gSwap k = true)
    (entry : s.view current (miGetpteindex address) = .swappedOut (k * pageSize)) :
    (s.allocatePhysicalPage current = .error (.panic "swap_out: Swap file is full\n") ∧
      s.pagefaultHandler current address = .error (.panic "swap_out: Swap file is full\n")) ∨
      ∃ s' p, s.allocatePhysicalPage current = .ok (s', p) ∧ Allocated live current s s' p ∧
        s.pagefaultHandler current address =
          .ok (s'.faultServed current (miGetpteindex address) p k) := by
  obtain ⟨hvalid, hswap, hpos⟩ := Mmpte.view_eq_swappedOut.mp entry
  rw [← Mmpte.hardValid_eq_zero_iff] at hvalid
  rcases allocatePhysicalPage_cases current frames slots with
    hpanic | ⟨s', p, hok, alloc⟩
  · left
    refine ⟨hpanic, ?_⟩
    unfold Vm.pagefaultHandler
    rw [if_pos ⟨hlow, hhigh⟩, if_pos hvalid, if_pos hswap, hpanic]
  · right
    refine ⟨s', p, hok, alloc, ?_⟩
    have hused' : s'.gSwap k = true := alloc.gSwap_of_used hused
    unfold Vm.pagefaultHandler
    rw [if_pos ⟨hlow, hhigh⟩, if_pos hvalid, if_pos hswap, hok]
    simp only [alloc.pagetables_current, hpos, pageBase_eq hlow]
    have hmod : k * pageSize % pageSize = 0 := Nat.mul_mod_left k pageSize
    have hdiv : k * pageSize / pageSize = k := Nat.mul_div_cancel k (by decide)
    unfold Vm.swapIn
    rw [if_neg (by simp [hmod]), hdiv]
    exact if_pos hused'

theorem pagefaultHandler_swappedOut (frames : FrameTable live s) (swaps : SwapTable live s)
    (hlive : live current = true) {address : Nat} (hlow : virtualHeapStart ≤ address)
    (hhigh : address < virtualHeapEnd) {o : Nat}
    (entry : s.view current (miGetpteindex address) = .swappedOut o) :
    (s.allocatePhysicalPage current = .error (.panic "swap_out: Swap file is full\n") ∧
      s.pagefaultHandler current address = .error (.panic "swap_out: Swap file is full\n")) ∨
      ∃ s' p k, k < maxSwapSlots ∧ o = k * pageSize ∧ s.gSwap k = true ∧
        Allocated live current s s' p ∧
        s.pagefaultHandler current address =
          .ok (s'.faultServed current (miGetpteindex address) p k) := by
  obtain ⟨k, hk, rfl, hused⟩ := swaps.held current _ o hlive (miGetpteindex_lt hhigh.le) entry
  rcases pagefaultHandler_cases frames swaps.count hlow hhigh hused entry with
    hpanic | ⟨s', p, -, alloc, hok⟩
  · exact .inl hpanic
  · exact .inr ⟨s', p, k, hk, rfl, hused, alloc, hok⟩

/-- A page fault is served only for a swapped-out page of the window. -/
theorem swappedOut_of_pagefaultHandler_ok {address : Nat}
    (h : s.pagefaultHandler current address = .ok s') :
    virtualHeapStart ≤ address ∧ address < virtualHeapEnd ∧
      ∃ o, s.view current (miGetpteindex address) = .swappedOut o := by
  by_cases hwindow : virtualHeapStart ≤ address ∧ address < virtualHeapEnd
  · by_cases hvalid : (s.pagetables current (miGetpteindex address)).hardValid = 0#1
    · by_cases hswap : (s.pagetables current (miGetpteindex address)).softSwapout = 1#1
      · exact ⟨hwindow.1, hwindow.2, _, Mmpte.view_eq_swappedOut.mpr
          ⟨Mmpte.hardValid_eq_zero_iff.mp hvalid, hswap, rfl⟩⟩
      · rw [Vm.pagefaultHandler, if_pos hwindow, if_pos hvalid, if_neg hswap] at h
        cases h
    · rw [Vm.pagefaultHandler, if_pos hwindow, if_neg hvalid] at h
      cases h
  · rw [Vm.pagefaultHandler, if_neg hwindow] at h
    cases h

end OsDesign.Virt
