import OsDesign.Virt.Isolation

/-!
The pages of one thread in a run of all threads. Other threads may evict its
pages and its own accesses bring them back; both leave its private memory, and
so the entries it has in use, as they are. A call that needs a frame ends the
process only when no frame and no slot of the swap file is left.
-/
namespace OsDesign.Virt

open Loops ByteStore

namespace Process

/-- The number of frames and of slots of the swap file that are not in use. -/
def left (s : Process) : Int := maxPhysicalPages + maxSwapSlots - s.vm.gPfnCount - s.vm.gSwapCount

/-- A step that neither allocates, stores nor ends as thread `t`. -/
def Spares (s : Process) (t : ThreadId) : Event → Prop
  | .allocatePage | .store _ _ | .exit _ => s.current ≠ some t
  | .load _ | .switchTo _ | .create _ => True

/-- A step that neither allocates nor ends as thread `t`. -/
def Keeps (s : Process) (t : ThreadId) : Event → Prop
  | .allocatePage | .exit _ => s.current ≠ some t
  | .load _ | .store _ _ | .switchTo _ | .create _ => True

variable {s s' : Process} {t current : ThreadId} {n i j p : Nat} {address : Nat}

/-- `allocate_physical_page` fails only when no frame and no slot is left. -/
theorem Inv.left_of_error (inv : s.Inv) {stop : Stop}
    (h : s.vm.allocatePhysicalPage current = .error stop) : s.left ≤ 0 := by
  by_cases hframes : (maxPhysicalPages : Int) ≤ s.vm.gPfnCount
  · have hslots : (maxSwapSlots : Int) ≤ s.vm.gSwapCount := by
      by_contra hroom
      obtain ⟨vm, p, hok, -⟩ := evictPage_of_room current inv.frames inv.swaps.count
        (inv.frames.full hframes) (Int.not_le.mp hroom)
      rw [Vm.allocatePhysicalPage, if_pos hframes, hok] at h
      cases h
    rw [left]
    omega
  · obtain ⟨p, -, -, -, hok⟩ :=
      allocatePhysicalPage_of_room current inv.frames (Int.not_le.mp hframes)
    rw [hok] at h
    cases h

theorem left_of_allocated {live : ThreadId → Bool} {vm : Vm}
    (alloc : Allocated live current s.vm vm p) :
    ({ s with vm := vm } : Process).left = s.left - 1 := by
  cases alloc with
  | free =>
      change (maxPhysicalPages + maxSwapSlots : Int) - (s.vm.gPfnCount + 1) - s.vm.gSwapCount = _
      rw [left]
      omega
  | evicted =>
      change (maxPhysicalPages + maxSwapSlots : Int) - s.vm.gPfnCount - (s.vm.gSwapCount + 1) = _
      rw [left]
      omega

/-- An entry is unused exactly if the private memory has no page there. -/
theorem Inv.unused_iff (inv : s.Inv) (ht : s.live t = true) (hj : j < maxVirtualPages) :
    s.vm.view t j = .unused ↔ s.privateMemory t j = none := by
  cases h : s.vm.view t j with
  | unused => simp [privateMemory_of_unused h]
  | inMemory p => simp [privateMemory_of_inMemory h]
  | swappedOut o => simp [privateMemory_of_swappedOut h]
  | stray => exact absurd h (inv.swaps.regular t j ht hj)

/-- What an access that is let through does: at most it serves a page fault. -/
structure Served (s s' : Process) : Prop where
  inv : s'.Inv
  current : s'.current = s.current
  live : s'.live = s.live
  kept : ∀ t j, s.live t = true → j < maxVirtualPages →
    s'.privateMemory t j = s.privateMemory t j
  resident : ∀ t j p, s.current = some t → s.vm.view t j = .inMemory p →
    s'.vm.view t j = .inMemory p
  left : s'.left = s.left

theorem Served.refl (inv : s.Inv) : s.Served s :=
  ⟨inv, rfl, rfl, fun _ _ _ _ => rfl, fun _ _ _ _ h => h, rfl⟩

theorem Served.trans {s'' : Process} (first : s.Served s') (second : s'.Served s'') :
    s.Served s'' := by
  refine ⟨second.inv, second.current.trans first.current, second.live.trans first.live, ?_, ?_,
    second.left.trans first.left⟩
  · intro t j ht hj
    rw [second.kept t j (first.live ▸ ht) hj, first.kept t j ht hj]
  · intro t j p hcurrent hv
    exact second.resident t j p (first.current.trans hcurrent) (first.resident t j p hcurrent hv)

theorem Inv.served_of_access (inv : s.Inv) (h : s.access address = .ok s') : s.Served s' := by
  have inv' := inv.accessed h
  rcases access_cases inv h with
    ⟨-, hsame⟩ | ⟨current, vm, p, k, hcurrent, hj, -, -, hentry, hk, hslot, alloc, hs'⟩
  · rw [hsame]
    exact .refl inv
  · rw [hs'] at inv' ⊢
    refine ⟨inv', rfl, rfl, ?_, ?_, ?_⟩
    · exact fun t j ht hj' => inv.privateMemory_served hcurrent hj hentry alloc ht hj'
    · intro t j q ht hv
      obtain rfl : current = t := Option.some.inj (hcurrent.symm.trans ht)
      change (vm.setEntry current (miGetpteindex address) _).view current j = _
      have hne : j ≠ miGetpteindex address := by
        intro same
        rw [same, hentry] at hv
        cases hv
      rw [Vm.view_setEntry_of_ne _ _ (.inr hne), Vm.view, alloc.pagetables_current]
      exact hv
    · -- the frame is taken or a slot, and the slot of the page is given back
      have hleft := left_of_allocated alloc
      change (maxPhysicalPages + maxSwapSlots : Int) - vm.gPfnCount - (vm.gSwapCount - 1) = _
      change (maxPhysicalPages + maxSwapSlots : Int) - vm.gPfnCount - vm.gSwapCount = _ at hleft
      omega

/-- A byte of a page of `CURRENT` that is in memory is the one in the window. -/
theorem shown_eq_memory (hcurrent : s.current = some t) (hlow : virtualHeapStart ≤ address)
    (hentry : s.vm.view t (miGetpteindex address) = .inMemory p) :
    s.privateMemory.shown t address = s.vm.memory address := by
  simp only [PrivateMemory.shown, privateMemory_of_inMemory hentry, resident, hcurrent, if_true,
    read_apply, pageAddress_offset hlow]

/-- Bytes of `t` that are left alone in the window are shown as before. -/
theorem shown_stored (hcurrent : s.current = some t) (hlow : virtualHeapStart ≤ address)
    {memory : Nat → UInt8} (same : memory address = s.vm.memory address) :
    ({ s with vm := { s.vm with memory := memory } } : Process).privateMemory.shown t address =
      s.privateMemory.shown t address := by
  cases hentry : s.vm.view t (miGetpteindex address) with
  | inMemory p =>
      have hstored := shown_eq_memory (s := { s with vm := { s.vm with memory := memory } })
        hcurrent hlow hentry
      exact hstored.trans (same.trans (shown_eq_memory hcurrent hlow hentry).symm)
  | unused | swappedOut o | stray => simp only [PrivateMemory.shown, privateMemory, hentry]

/-- Steps of the other threads, and loads and switches of `t`, leave the pages of
`t` as they are. -/
theorem Inv.kept_of_step (inv : s.Inv) {e : Event} (enabled : s.Enabled e)
    (spares : s.Spares t e) (ht : s.live t = true) (taken : s.Step e s') :
    s'.live t = true ∧ ∀ j, j < maxVirtualPages → s'.privateMemory t j = s.privateMemory t j := by
  cases e with
  | allocatePage =>
      obtain ⟨address, h⟩ := allocatePage_of_step taken
      rcases allocatePage_cases inv h with
        ⟨hs', -⟩ | ⟨current, i, vm, p, hcurrent, hi, hunused, alloc, -, hs'⟩
      · rw [hs']
        exact ⟨ht, fun _ _ => rfl⟩
      · rw [hs']
        refine ⟨ht, ?_⟩
        intro j hj
        have hne : t ≠ current := by
          intro same
          exact spares (same ▸ hcurrent)
        have hfilled := privateMemory_filled { s with vm := vm } hcurrent
          (Mmpte.view_granted (s.vm.pagetables current i) (frame_number_lt alloc.frame_lt)) i
          (fun _ => 0) t j
        rw [if_neg fun same => hne same.1] at hfilled
        exact hfilled.trans (inv.privateMemory_allocated hcurrent alloc ht hj)
  | load address =>
      have served := inv.served_of_access (access_of_load taken)
      exact ⟨served.live ▸ ht, fun j hj => served.kept t j ht hj⟩
  | store address byte =>
      obtain ⟨s₁, h, hs'⟩ := access_of_store taken
      have served := inv.served_of_access h
      rw [hs']
      refine ⟨served.live ▸ ht, ?_⟩
      intro j hj
      rw [← served.kept t j ht hj]
      refine privateMemory_congr rfl ?_ (fun _ _ => rfl)
      intro p _
      have hother : s₁.current ≠ some t := by
        rw [served.current]
        exact spares
      simp only [resident, hother, if_false]
  | switchTo next =>
      have hs : s.switchTo next = s' := Except.ok.inj taken
      rw [← hs, live_switchTo]
      exact ⟨ht, fun j hj => inv.privateMemory_switchTo next ht hj⟩
  | create ti =>
      have hs : s.create ti = s' := Except.ok.inj taken
      have hne : t ≠ ti := by
        intro same
        have new : s.live ti = false := enabled
        rw [same, new] at ht
        cases ht
      rw [← hs]
      refine ⟨by simpa [create, hne] using ht, ?_⟩
      intro j _
      rw [privateMemory_create, Function.update_of_ne hne]
  | exit next =>
      have hlive : s'.live t = true := by
        obtain ⟨current, hcurrent, hcases⟩ := exit_cases taken
        have hne : t ≠ current := by
          intro same
          exact spares (same ▸ hcurrent)
        have hkept : (s.retire current).live t = true := by simpa [retire, hne] using ht
        rcases hcases with ⟨-, hs⟩ | ⟨next, -, hs⟩
        · rw [hs]
          exact hkept
        · rw [hs, live_enter]
          exact hkept
      exact ⟨hlive, fun j hj => (inv.privateMemory_exit taken hlive hj).2⟩

/-- The live thread `t` has the first `n` pages of the window in use, in memory or
swapped out, and no other. -/
structure FirstPages (s : Process) (t : ThreadId) (n : Nat) : Prop where
  inv : s.Inv
  live : s.live t = true
  used : ∀ j, j < n → j < maxVirtualPages → s.vm.view t j ≠ .unused
  rest : ∀ j, n ≤ j → j < maxVirtualPages → s.vm.view t j = .unused

theorem FirstPages.of_kept (pages : s.FirstPages t n) (inv' : s'.Inv) (ht : s'.live t = true)
    (kept : ∀ j, j < maxVirtualPages → s'.privateMemory t j = s.privateMemory t j) :
    s'.FirstPages t n := by
  have hunused : ∀ j, j < maxVirtualPages →
      (s'.vm.view t j = .unused ↔ s.vm.view t j = .unused) := by
    intro j hj
    rw [inv'.unused_iff ht hj, pages.inv.unused_iff pages.live hj, kept j hj]
  refine ⟨inv', ht, ?_, ?_⟩
  · intro j hj hlt hv
    exact pages.used j hj hlt ((hunused j hlt).mp hv)
  · intro j hj hlt
    exact (hunused j hlt).mpr (pages.rest j hj hlt)

theorem FirstPages.served (pages : s.FirstPages t n) (served : s.Served s') :
    s'.FirstPages t n :=
  pages.of_kept served.inv (served.live ▸ pages.live) fun j hj => served.kept t j pages.live hj

theorem FirstPages.stored (pages : s.FirstPages t n) (memory : Nat → UInt8) :
    ({ s with vm := { s.vm with memory := memory } } : Process).FirstPages t n :=
  ⟨pages.inv.stored memory, pages.live, pages.used, pages.rest⟩

/-- Any step but an allocation or the end of `t` keeps its pages in use. -/
theorem FirstPages.step (pages : s.FirstPages t n) {e : Event} (enabled : s.Enabled e)
    (keeps : s.Keeps t e) (taken : s.Step e s') : s'.FirstPages t n := by
  have hspared : s.Spares t e → s'.FirstPages t n := by
    intro spares
    obtain ⟨hlive, kept⟩ := pages.inv.kept_of_step enabled spares pages.live taken
    exact pages.of_kept (pages.inv.step enabled taken) hlive kept
  cases e with
  | store address byte =>
      obtain ⟨s₁, h, hs'⟩ := access_of_store taken
      rw [hs']
      exact (pages.served (pages.inv.served_of_access h)).stored _
  | allocatePage | load | switchTo | create | exit => exact hspared keeps

/-- An access of `t` to one of its pages finds the page in memory, brings it
back, or ends in `swap_out`'s panic. -/
theorem FirstPages.access (pages : s.FirstPages t n) (hcurrent : s.current = some t)
    (hlow : virtualHeapStart ≤ address) (hhigh : address < virtualHeapEnd)
    (hpage : miGetpteindex address < n) :
    (s.access address = .error (.panic "swap_out: Swap file is full\n") ∧ s.left ≤ 0) ∨
    ∃ s' p, s.access address = .ok s' ∧ s.Served s' ∧
      s'.vm.view t (miGetpteindex address) = .inMemory p := by
  have hj := miGetpteindex_lt hhigh.le
  have hpageva : pageAddress (miGetpteindex address) / pageSize = address / pageSize := by
    rw [← pageBase_eq hlow, Nat.mul_div_cancel _ (by decide : 0 < pageSize)]
  cases hview : s.vm.view t (miGetpteindex address) with
  | unused => exact absurd hview (pages.used _ hpage hj)
  | stray => exact absurd hview (pages.inv.swaps.regular t _ pages.live hj)
  | inMemory p =>
      have hopen := pages.inv.opened t _ p hcurrent hj hview
      rw [hpageva] at hopen
      exact .inr ⟨s, p, by rw [Process.access, if_pos hopen], .refl pages.inv, hview⟩
  | swappedOut o =>
      have hclosed := pages.inv.closed t _ o hcurrent hj hview
      rw [hpageva] at hclosed
      have hopen : ¬ s.vm.accessible (address / pageSize) = true := by simp [hclosed]
      rcases pagefaultHandler_swappedOut pages.inv.frames pages.inv.swaps pages.live hlow hhigh
        hview with ⟨hfull, hpanic⟩ | ⟨vm, p, k, -, -, -, alloc, hok⟩
      · left
        refine ⟨?_, pages.inv.left_of_error hfull⟩
        simp only [Process.access, if_neg hopen, hcurrent, hpanic]
      · right
        have haccess : s.access address =
            .ok { s with vm := vm.faultServed t (miGetpteindex address) p k } := by
          simp only [Process.access, if_neg hopen, hcurrent, hok]
        refine ⟨_, p, haccess, pages.inv.served_of_access haccess, ?_⟩
        change (vm.setEntry t (miGetpteindex address) (Mmpte.faultedIn p)).view t _ = _
        rw [Vm.view_setEntry_self, Mmpte.view_faultedIn (frame_number_lt alloc.frame_lt)]

/-- `mm_allocate_page` grants the page behind the last one, zeroed, or ends in
`swap_out`'s panic. -/
theorem FirstPages.allocatePage (pages : s.FirstPages t n) (hcurrent : s.current = some t)
    (room : n < maxVirtualPages) :
    (s.allocatePage = .error (.panic "swap_out: Swap file is full\n") ∧ s.left ≤ 0) ∨
    ∃ s', s.allocatePage = .ok (s', some (pageAddress n)) ∧ s'.FirstPages t (n + 1) ∧
      s'.current = some t ∧ s'.live = s.live ∧ s'.left = s.left - 1 ∧ ∀ j, j < maxVirtualPages →
        s'.privateMemory t j = if j = n then some (fun _ => 0) else s.privateMemory t j := by
  have hunused : s.vm.view t n = .unused := pages.rest n (Nat.le_refl n) room
  have hbefore : ∀ j, j < n → s.vm.view t j ≠ .unused :=
    fun j hj => pages.used j hj (Nat.lt_trans hj room)
  rcases allocatePhysicalPage_cases t pages.inv.frames pages.inv.swaps.count with
    hpanic | ⟨vm, p, hok, alloc⟩
  · left
    refine ⟨?_, pages.inv.left_of_error hpanic⟩
    simp only [allocatePage_of_some hcurrent, Vm.mmAllocatePage,
      firstIndex_unused room hunused hbefore, hpanic]
    rfl
  · right
    have hentry : ((s.vm.pagetables t n).granted p).view = .inMemory p :=
      Mmpte.view_granted _ (frame_number_lt alloc.frame_lt)
    have hcall := mmAllocatePage_of_allocated room hunused hbefore hok alloc
    have inv := pages.inv.grant hcurrent room (by simp [hunused]) alloc hentry (fun _ => 0)
    have hmemory : ∀ j, j < maxVirtualPages →
        Process.privateMemory
          { s with vm := vm.pageFilled t n ((s.vm.pagetables t n).granted p) (fun _ => 0) } t j =
            if j = n then some (fun _ => 0) else s.privateMemory t j := by
      intro j hj
      have hfilled := privateMemory_filled { s with vm := vm } hcurrent hentry n (fun _ => 0) t j
      rw [pages.inv.privateMemory_allocated hcurrent alloc pages.live hj] at hfilled
      simpa using hfilled
    have hleft : ({ s with vm := vm } : Process).left = s.left - 1 := left_of_allocated alloc
    refine ⟨_, ?_, ⟨inv, pages.live, ?_, ?_⟩, hcurrent, rfl, hleft, hmemory⟩
    · rw [allocatePage_of_some hcurrent, hcall]
      rfl
    · intro j hj hlt hv
      rw [inv.unused_iff pages.live hlt, hmemory j hlt] at hv
      by_cases hjn : j = n
      · simp [hjn] at hv
      · rw [if_neg hjn] at hv
        exact pages.used j (by omega) hlt ((pages.inv.unused_iff pages.live hlt).mpr hv)
    · intro j hj hlt
      have hjn : j ≠ n := by omega
      rw [inv.unused_iff pages.live hlt, hmemory j hlt, if_neg hjn]
      exact (pages.inv.unused_iff pages.live hlt).mp (pages.rest j (by omega) hlt)

theorem FirstPages.allocatePage_full (pages : s.FirstPages t n) (hcurrent : s.current = some t)
    (full : maxVirtualPages ≤ n) : s.allocatePage = .ok (s, none) := by
  have hnone : firstIndex maxVirtualPages
      (fun i => (s.vm.pagetables t i).long == 0#64) = none := by
    apply firstIndex_eq_none.mpr
    intro j hj
    have hused := pages.used j (by omega) hj
    rw [Vm.view, ne_eq, Mmpte.view_eq_unused] at hused
    simp [hused]
  rw [allocatePage_of_some hcurrent]
  simp only [Vm.mmAllocatePage, hnone]
  rfl

end Process

end OsDesign.Virt
