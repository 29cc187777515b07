import OsDesign.Virt.Process

/-!
What the paging layer is for: a private memory for each thread. The abstract
memory is a partial map from page numbers to blocks; the copy of a page that
counts lies in the window, in a frame or in a slot of the swap file, and every
step of the process moves the copies without changing the private memories.
-/
namespace OsDesign.Virt

open Loops ByteStore

abbrev Block := Fin pageSize → UInt8

/-- The pages each thread has allocated, with their bytes. -/
abbrev PrivateMemory := ThreadId → Nat → Option Block

namespace PrivateMemory

def grant (m : PrivateMemory) (t : ThreadId) (j : Nat) : PrivateMemory :=
  Function.update m t (Function.update (m t) j (some fun _ => 0))

/-- The place of an address in its page. -/
def offset (address : Nat) : Fin pageSize :=
  ⟨address % pageSize, Nat.mod_lt _ (by decide)⟩

def store (m : PrivateMemory) (t : ThreadId) (address : Nat) (byte : UInt8) : PrivateMemory :=
  Function.update m t (Function.update (m t) (miGetpteindex address)
    ((m t (miGetpteindex address)).map fun block => Function.update block (offset address) byte))

/-- What a step of the process is in the private memories: a granted page is
zero, a store changes a byte, a new thread has no page, and nothing else
changes anything. -/
def record (m : PrivateMemory) (s : Process) : Event → PrivateMemory
  | .allocatePage =>
      match s.current, s.allocatePage with
      | some t, .ok (_, some address) => m.grant t (miGetpteindex address)
      | _, _ => m
  | .store address byte =>
      match s.current with
      | some t => m.store t address byte
      | none => m
  | .create ti => Function.update m ti fun _ => none
  | _ => m

theorem grant_apply (m : PrivateMemory) (t t' : ThreadId) (j j' : Nat) :
    m.grant t j t' j' = if t' = t ∧ j' = j then some (fun _ => 0) else m t' j' := by
  by_cases ht : t' = t
  · subst ht
    by_cases hj : j' = j <;> simp [grant, hj]
  · simp [grant, ht]

theorem store_apply (m : PrivateMemory) (t t' : ThreadId) (address j : Nat) (byte : UInt8) :
    m.store t address byte t' j =
      if t' = t ∧ j = miGetpteindex address then
        (m t j).map fun block => Function.update block (offset address) byte
      else m t' j := by
  by_cases ht : t' = t
  · subst ht
    by_cases hj : j = miGetpteindex address <;> simp [store, hj]
  · simp [store, ht]

/-- What a store leaves at a page depends on that page alone. -/
theorem store_congr {m m' : PrivateMemory} {t t' : ThreadId} {address j : Nat} {byte : UInt8}
    (h : m t' j = m' t' j) : m.store t address byte t' j = m'.store t address byte t' j := by
  rw [store_apply, store_apply, h]
  by_cases hsame : t' = t ∧ j = miGetpteindex address
  · rw [if_pos hsame, if_pos hsame, ← hsame.1, h]
  · rw [if_neg hsame, if_neg hsame]

end PrivateMemory

namespace Process

/-- A page in memory is in the window for `CURRENT` and in its frame for the others. -/
def resident (s : Process) (t : ThreadId) (j p : Nat) : Block :=
  if s.current = some t then read pageSize s.vm.memory (pageAddress j)
  else read pageSize s.vm.physicalMemory (p * pageSize)

/-- The abstraction: the private memories that a state of the process stands for. -/
def privateMemory (s : Process) : PrivateMemory := fun t j =>
  match s.vm.view t j with
  | .inMemory p => some (s.resident t j p)
  | .swappedOut o => some (read pageSize s.vm.swapFile o)
  | .unused | .stray => none

variable {s s' : Process} {current t : ThreadId} {i j p : Nat}

theorem privateMemory_of_inMemory (h : s.vm.view t j = .inMemory p) :
    s.privateMemory t j = some (s.resident t j p) := by
  simp only [privateMemory, h]

theorem privateMemory_of_swappedOut {o : Nat} (h : s.vm.view t j = .swappedOut o) :
    s.privateMemory t j = some (read pageSize s.vm.swapFile o) := by
  simp only [privateMemory, h]

theorem privateMemory_of_unused (h : s.vm.view t j = .unused) :
    s.privateMemory t j = none := by
  simp only [privateMemory, h]

/-- Two states with the same view of a page and the same bytes in the copy that
counts stand for the same page. -/
theorem privateMemory_congr (hview : s'.vm.view t j = s.vm.view t j)
    (hresident : ∀ p, s.vm.view t j = .inMemory p → s'.resident t j p = s.resident t j p)
    (hswapped : ∀ o, s.vm.view t j = .swappedOut o →
      read pageSize s'.vm.swapFile o = read pageSize s.vm.swapFile o) :
    s'.privateMemory t j = s.privateMemory t j := by
  cases h : s.vm.view t j with
  | unused =>
      rw [privateMemory_of_unused h, privateMemory_of_unused (hview.trans h)]
  | inMemory p =>
      rw [privateMemory_of_inMemory h, privateMemory_of_inMemory (hview.trans h), hresident p h]
  | swappedOut o =>
      rw [privateMemory_of_swappedOut h, privateMemory_of_swappedOut (hview.trans h),
        hswapped o h]
  | stray => simp only [privateMemory, hview, h]

/-- Taking a frame moves the victim's page to the swap file and no other. -/
theorem Inv.privateMemory_allocated (inv : s.Inv) (hcurrent : s.current = some current)
    {vm : Vm} (alloc : Allocated s.live current s.vm vm p) (ht : s.live t = true)
    (hj : j < maxVirtualPages) :
    ({ s with vm := vm } : Process).privateMemory t j = s.privateMemory t j := by
  cases alloc with
  | free => exact privateMemory_congr rfl (fun _ _ => rfl) (fun _ _ => rfl)
  | evicted _ hp tv jv k used owner other htv hjv entry hk slot =>
      by_cases hvictim : t = tv ∧ j = jv
      · obtain ⟨rfl, rfl⟩ := hvictim
        have hview : (s.vm.setEntry t j
            ((s.vm.pagetables t j).evicted (k * pageSize))).view t j =
              .swappedOut (k * pageSize) := by
          rw [Vm.view_setEntry_self, Mmpte.view_evicted _ (slot_offset_lt hk)]
        have hother : s.current ≠ some t := by
          rw [hcurrent]
          intro same
          exact other (Option.some.inj same).symm
        rw [privateMemory_of_inMemory entry, privateMemory_of_swappedOut hview, resident,
          if_neg hother, read_write_self]
      · refine privateMemory_congr ?_ (fun _ _ => rfl) ?_
        · exact s.vm.view_setEntry_of_ne _ (by tauto)
        · intro o hv
          obtain ⟨k', -, rfl, hused⟩ := inv.swaps.held t j o ht hj hv
          have hne : k ≠ k' := by
            intro same
            simp [← same, slot] at hused
          exact read_write_block_of_ne _ k k' _ hne

/-- An entry of `CURRENT` that now names a frame, with its window page filled:
the page has the new bytes and every other page is as before. -/
theorem privateMemory_filled (s : Process) (hcurrent : s.current = some current) {e : Mmpte}
    (he : e.view = .inMemory p) (i : Nat) (block : Block) (t : ThreadId) (j : Nat) :
    ({ s with vm := s.vm.pageFilled current i e block } : Process).privateMemory t j =
      if t = current ∧ j = i then some block else s.privateMemory t j := by
  by_cases hsame : t = current ∧ j = i
  · rw [if_pos hsame]
    obtain ⟨rfl, rfl⟩ := hsame
    have hview : (s.vm.setEntry t j e).view t j = .inMemory p := by
      rw [Vm.view_setEntry_self, he]
    rw [privateMemory_of_inMemory hview, resident, if_pos hcurrent]
    exact congrArg some (read_write_self s.vm.memory _ block)
  · rw [if_neg hsame]
    refine privateMemory_congr (s.vm.view_setEntry_of_ne e (by tauto)) ?_ (fun _ _ => rfl)
    intro q hv
    by_cases hmine : s.current = some t
    · have ht : t = current := Option.some.inj (hmine.symm.trans hcurrent)
      have hne : i ≠ j := by
        intro same
        exact hsame ⟨ht, same.symm⟩
      simp only [resident, hmine, if_true]
      exact read_write_of_ne s.vm.memory virtualHeapStart i j block hne
    · simp only [resident, hmine, if_false]
      rfl

/-- A served page fault changes no page: the page comes back from its slot. -/
theorem Inv.privateMemory_served (inv : s.Inv) (hcurrent : s.current = some current) {vm : Vm}
    {k : Nat} (hi : i < maxVirtualPages)
    (hentry : s.vm.view current i = .swappedOut (k * pageSize))
    (alloc : Allocated s.live current s.vm vm p) (ht : s.live t = true)
    (hj : j < maxVirtualPages) :
    ({ s with vm := vm.faultServed current i p k } : Process).privateMemory t j =
      s.privateMemory t j := by
  have hview : (Mmpte.faultedIn p).view = .inMemory p :=
    Mmpte.view_faultedIn (frame_number_lt alloc.frame_lt)
  refine Eq.trans (privateMemory_filled { s with vm := vm } hcurrent hview i
    (read pageSize vm.swapFile (k * pageSize)) t j) ?_
  by_cases hsame : t = current ∧ j = i
  · rw [if_pos hsame]
    obtain ⟨rfl, rfl⟩ := hsame
    have hstays : vm.view t j = .swappedOut (k * pageSize) := by
      rw [Vm.view, alloc.pagetables_current]
      exact hentry
    rw [← inv.privateMemory_allocated hcurrent alloc ht hj, privateMemory_of_swappedOut hstays]
  · rw [if_neg hsame]
    exact inv.privateMemory_allocated hcurrent alloc ht hj

theorem pageAddress_offset {address : Nat} (hlow : virtualHeapStart ≤ address) :
    pageAddress (miGetpteindex address) + (PrivateMemory.offset address).val = address := by
  change 0x60000000 ≤ address at hlow
  change 0x60000000 + (address - 0x60000000) / 4096 * 4096 + address % 4096 = address
  omega

/-- An address lies in no other page than its own. -/
theorem outside_page {address j : Nat} (hlow : virtualHeapStart ≤ address)
    (hne : j ≠ miGetpteindex address) :
    address < pageAddress j ∨ pageAddress j + pageSize ≤ address := by
  have haddress := pageAddress_offset hlow
  have hoffset := (PrivateMemory.offset address).isLt
  change 0x60000000 + miGetpteindex address * 4096 + _ = address at haddress
  change _ < 4096 at hoffset
  change address < 0x60000000 + j * 4096 ∨ 0x60000000 + j * 4096 + 4096 ≤ address
  omega

/-- A byte stored in a page of `CURRENT` that is in memory. -/
theorem privateMemory_stored (hcurrent : s.current = some current) {address : Nat}
    (hlow : virtualHeapStart ≤ address)
    (hentry : s.vm.view current (miGetpteindex address) = .inMemory p) (byte : UInt8) :
    ({ s with
      vm := { s.vm with
        memory := Function.update s.vm.memory address byte } } : Process).privateMemory t j =
      s.privateMemory.store current address byte t j := by
  rw [PrivateMemory.store_apply]
  by_cases hsame : t = current ∧ j = miGetpteindex address
  · rw [if_pos hsame]
    obtain ⟨rfl, rfl⟩ := hsame
    rw [privateMemory_of_inMemory hentry]
    refine Eq.trans (privateMemory_of_inMemory (p := p) hentry) ?_
    simp only [resident, hcurrent, if_true, Option.map_some]
    congr 1
    have hupdate := read_update s.vm.memory (pageAddress (miGetpteindex address))
      (PrivateMemory.offset address) byte
    rwa [pageAddress_offset hlow] at hupdate
  · rw [if_neg hsame]
    refine privateMemory_congr rfl ?_ (fun _ _ => rfl)
    intro q hv
    by_cases hmine : s.current = some t
    · have ht : t = current := Option.some.inj (hmine.symm.trans hcurrent)
      simp only [resident, hmine, if_true]
      have hne : j ≠ miGetpteindex address := fun same => hsame ⟨ht, same⟩
      exact read_update_of_outside _ _ _ _ (outside_page hlow hne)
    · simp only [resident, hmine, if_false]

/-! A switch: the window is copied to the frames, then the window belongs to
nobody, then it is filled for the next thread. -/

theorem Inv.privateMemory_storedBack (inv : s.Inv) (hcurrent : s.current = some current)
    (ht : s.live t = true) (hj : j < maxVirtualPages) :
    ({ s with
      vm := s.vm.mmStoreVirtualPagesBack current
      current := none } : Process).privateMemory t j = s.privateMemory t j := by
  obtain ⟨bytes, hvm, hcopied, hkept⟩ :=
    mmStoreVirtualPagesBack_spec inv.frames (inv.currentLive current hcurrent)
  rw [hvm]
  refine privateMemory_congr rfl ?_ (fun _ _ => rfl)
  intro p hv
  by_cases hmine : s.current = some t
  · obtain rfl : current = t := Option.some.inj (hcurrent.symm.trans hmine)
    simp only [resident, hmine, if_true, reduceCtorEq, if_false]
    exact hcopied j p hj hv
  · simp only [resident, hmine, if_false, reduceCtorEq]
    apply hkept
    intro j' hj' hv'
    have howner := inv.frames.owner_unique ht hj (inv.currentLive current hcurrent) hj' hv hv'
    exact hmine (hcurrent.trans (congrArg some howner.1.symm))

theorem Parked.privateMemory_enter (parked : s.Parked) {next : ThreadId}
    (hnone : s.current = none) (ht : s.live t = true) (hj : j < maxVirtualPages) :
    (s.enter next).privateMemory t j = s.privateMemory t j := by
  by_cases hentered : s.entered next = true
  · obtain ⟨bytes, access, hvm, hcopied, -, -⟩ := mmSwitchVirtualPages_spec s.vm next
    simp only [Process.enter, hentered, if_true, hvm]
    refine privateMemory_congr rfl ?_ (fun _ _ => rfl)
    intro p hv
    by_cases hnext : next = t
    · subst hnext
      simp only [resident, hnone, if_true, reduceCtorEq, if_false]
      exact hcopied j p hj hv
    · simp only [resident, hnone, Option.some.injEq, hnext, if_false, reduceCtorEq]
  · have hnew : s.entered next = false := by simpa using hentered
    simp only [Process.enter, hnew]
    refine privateMemory_congr rfl ?_ (fun _ _ => rfl)
    intro p hv
    have hnext : next ≠ t := by
      intro same
      subst same
      change s.vm.view next j = _ at hv
      rw [parked.fresh next j ht hnew hj] at hv
      cases hv
    simp [resident, hnone, hnext]

theorem Inv.privateMemory_retired (inv : s.Inv) (hcurrent : s.current = some current)
    (ht : (s.retire current).live t = true) :
    (s.retire current).privateMemory t j = s.privateMemory t j := by
  obtain ⟨tables, pfn, count, hvm, -, -, hothers, -, -, -⟩ :=
    freeThreadPages_spec inv.frames inv.swaps (inv.currentLive current hcurrent)
  have hne : t ≠ current := by
    intro same
    simp [same, retire] at ht
  have hmine : s.current ≠ some t := by
    rw [hcurrent]
    intro same
    exact hne (Option.some.inj same).symm
  simp only [retire, hvm]
  refine privateMemory_congr ?_ ?_ (fun _ _ => rfl)
  · change (tables t j).view = _
    rw [hothers t j hne]
  · intro p hv
    simp only [resident, hmine, if_false, reduceCtorEq]

/-- A switch changes no page of a live thread. -/
theorem Inv.privateMemory_switchTo (inv : s.Inv) (next : ThreadId) (ht : s.live t = true)
    (hj : j < maxVirtualPages) : (s.switchTo next).privateMemory t j = s.privateMemory t j := by
  by_cases hnone : s.current = none
  · rw [switchTo_of_none hnone]
    exact inv.parked.privateMemory_enter hnone ht hj
  · obtain ⟨current, hcurrent⟩ := Option.ne_none_iff_exists'.mp hnone
    have parked := inv.storedBack hcurrent
    have hnobody : ({ s with
        vm := s.vm.mmStoreVirtualPagesBack current
        current := none } : Process).Parked := ⟨parked.frames, parked.swaps, parked.fresh⟩
    rw [switchTo_of_some hcurrent, ← inv.privateMemory_storedBack hcurrent ht hj]
    exact hnobody.privateMemory_enter rfl ht hj

/-- The end of a thread changes no page of the threads that stay. -/
theorem Inv.privateMemory_exit (inv : s.Inv) {next : Option ThreadId}
    (h : s.exit next = .ok s') (ht : s'.live t = true) (hj : j < maxVirtualPages) :
    s.live t = true ∧ s'.privateMemory t j = s.privateMemory t j := by
  obtain ⟨current, hcurrent, hcases⟩ := exit_cases h
  have hkept : (s.retire current).live t = true →
      s.live t = true ∧ (s.retire current).privateMemory t j = s.privateMemory t j := by
    intro ht
    refine ⟨?_, inv.privateMemory_retired hcurrent ht⟩
    by_cases hsame : t = current
    · simp [hsame, retire] at ht
    · simpa [hsame, retire] using ht
  rcases hcases with ⟨-, hs⟩ | ⟨next, -, hs⟩
  · rw [hs] at ht ⊢
    exact hkept ht
  · rw [hs, live_enter] at ht
    rw [hs, (inv.retired hcurrent).privateMemory_enter rfl ht hj]
    exact hkept ht

theorem privateMemory_create {ti : ThreadId} :
    (s.create ti).privateMemory t j =
      Function.update s.privateMemory ti (fun _ => none) t j := by
  by_cases hsame : t = ti
  · subst hsame
    rw [Function.update_self]
    exact privateMemory_of_unused (view_clearPagetable_self s.vm t j)
  · rw [Function.update_of_ne hsame]
    refine privateMemory_congr (view_clearPagetable_of_ne s.vm j hsame) ?_ (fun _ _ => rfl)
    exact fun p _ => rfl

end Process

end OsDesign.Virt
