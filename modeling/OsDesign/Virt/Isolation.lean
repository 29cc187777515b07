import OsDesign.Virt.LastByte

/-!
What the running thread can read of the window. A thread that resumes behind
its `swapcontext` has every page that is not its own closed; one that is entered
at `thread_stub` finds the pages of the thread before it as they were.
-/
namespace OsDesign.Virt

open Loops ByteStore

/-- The byte that is `t`'s at an address: zero where `t` has no page. -/
def PrivateMemory.shown (m : PrivateMemory) (t : ThreadId) (address : Nat) : UInt8 :=
  match m t (miGetpteindex address) with
  | some block => block (offset address)
  | none => 0

namespace Process

/-- Window page `j` shows nothing: it is closed, or all its bytes are zero. -/
def Blank (s : Process) (j : Nat) : Prop :=
  s.vm.accessible (pageAddress j / pageSize) = true →
    read pageSize s.vm.memory (pageAddress j) = fun _ => 0

/-- The pages that `CURRENT` has not allocated show nothing. -/
def Sealed (s : Process) : Prop :=
  ∀ t j, s.current = some t → j < maxVirtualPages → s.vm.view t j = .unused → s.Blank j

/-- If `next` is entered for the first time, the window shows nothing. -/
def EntersBlank (s : Process) (next : ThreadId) : Prop :=
  s.entered next = false → ∀ j, j < maxVirtualPages → s.Blank j

/-- A step that enters a thread for the first time finds the window blank. -/
def FirstEntryBlank (s : Process) : Event → Prop
  | .switchTo next => s.EntersBlank next
  | .exit next => ∀ t, next = some t → s.EntersBlank t
  | _ => True

variable {s s' : Process} {current t : ThreadId} {i j p : Nat}

theorem Blank.congr (blank : s.Blank j)
    (access : s'.vm.accessible (pageAddress j / pageSize) =
      s.vm.accessible (pageAddress j / pageSize))
    (bytes : read pageSize s'.vm.memory (pageAddress j) =
      read pageSize s.vm.memory (pageAddress j)) : s'.Blank j := by
  intro h
  rw [bytes]
  exact blank (access ▸ h)

theorem load_of_open {address : Nat} (hopen : s.vm.accessible (address / pageSize) = true) :
    s.load address = .ok (s, s.vm.memory address) := by
  rw [load, access, if_pos hopen]

/-- An entry of `CURRENT` that gets a frame has its page filled and opened; the
other pages are as before. -/
theorem Sealed.filled (closed : s.Sealed) (hcurrent : s.current = some current) {vm : Vm}
    (alloc : Allocated s.live current s.vm vm p) {e : Mmpte} (he : e.view = .inMemory p)
    (block : Block) : ({ s with vm := vm.pageFilled current i e block } : Process).Sealed := by
  have haccess : vm.accessible = s.vm.accessible := by cases alloc <;> rfl
  have hmemory : vm.memory = s.vm.memory := by cases alloc <;> rfl
  intro t j ht hj hv
  obtain rfl : current = t := Option.some.inj (hcurrent.symm.trans ht)
  change (vm.setEntry current i e).view current j = _ at hv
  have hji : j ≠ i := by
    intro same
    rw [same, Vm.view_setEntry_self, he] at hv
    cases hv
  have hold : s.vm.view current j = .unused := by
    rw [Vm.view_setEntry_of_ne _ _ (.inr hji), Vm.view, alloc.pagetables_current] at hv
    exact hv
  apply (closed current j hcurrent hj hold).congr
  · change Function.update vm.accessible (pageAddress i / pageSize) true
      (pageAddress j / pageSize) = _
    rw [Function.update_of_ne fun h => hji (pageAddress_div_injective h), haccess]
  · change read pageSize (write vm.memory (pageAddress i) block) (pageAddress j) = _
    rw [read_write_of_ne vm.memory virtualHeapStart i j block (Ne.symm hji), hmemory]

theorem Sealed.accessed (closed : s.Sealed) (inv : s.Inv) {address : Nat}
    (h : s.access address = .ok s') : s'.Sealed := by
  rcases access_cases inv h with
    ⟨-, hsame⟩ | ⟨current, vm, p, k, hcurrent, -, -, -, -, -, -, alloc, hs'⟩
  · rw [hsame]
    exact closed
  · rw [hs']
    exact closed.filled hcurrent alloc (Mmpte.view_faultedIn (frame_number_lt alloc.frame_lt))
      (read pageSize vm.swapFile (k * pageSize))

/-- A store in an allocated page of `CURRENT` leaves the other pages as they were. -/
theorem Sealed.stored (closed : s.Sealed) (hcurrent : s.current = some current) {address : Nat}
    (hlow : virtualHeapStart ≤ address)
    (own : s.vm.view current (miGetpteindex address) ≠ .unused) (byte : UInt8) :
    Process.Sealed { s with
      vm := { s.vm with memory := Function.update s.vm.memory address byte } } := by
  intro t j ht hj hv
  obtain rfl : current = t := Option.some.inj (hcurrent.symm.trans ht)
  have hne : j ≠ miGetpteindex address := by
    intro same
    exact own (same ▸ hv)
  refine Blank.congr (closed current j hcurrent hj hv) rfl ?_
  exact read_update_of_outside _ _ _ _ (outside_page hlow hne)

/-- The thread that gets the processor sees no page of another thread exactly if
it resumes, or the window was blank. -/
theorem sealed_enter_iff (parked : s.Parked) {next : ThreadId} (hlive : s.live next = true) :
    (s.enter next).Sealed ↔ s.EntersBlank next := by
  by_cases hentered : s.entered next = true
  · have hresumes : s.EntersBlank next := by
      intro h
      simp [hentered] at h
    refine iff_of_true ?_ hresumes
    obtain ⟨bytes, access, hvm, -, -, hclosed⟩ := mmSwitchVirtualPages_spec s.vm next
    simp only [Process.enter, hentered, if_true, hvm]
    intro t j ht hj hv hopen
    obtain rfl : next = t := Option.some.inj ht
    have hshut := hclosed j hj fun p hp => by
      change s.vm.view next j = _ at hv
      simp [hp] at hv
    change access (pageAddress j / pageSize) = true at hopen
    simp [hshut] at hopen
  · have hnew : s.entered next = false := by simpa using hentered
    simp only [Process.enter, hnew]
    constructor
    · intro closed _ j hj
      exact closed next j rfl hj (parked.fresh next j hlive hnew hj)
    · intro blank t j _ hj _
      exact blank hnew j hj

theorem entersBlank_storedBack_iff (inv : s.Inv) (hcurrent : s.current = some current)
    (next : ThreadId) :
    ({ s with vm := s.vm.mmStoreVirtualPagesBack current } : Process).EntersBlank next ↔
      s.EntersBlank next := by
  obtain ⟨bytes, hvm, -, -⟩ :=
    mmStoreVirtualPagesBack_spec inv.frames (inv.currentLive current hcurrent)
  rw [hvm]
  rfl

theorem entersBlank_retire_iff (inv : s.Inv) (hcurrent : s.current = some current)
    (next : ThreadId) : (s.retire current).EntersBlank next ↔ s.EntersBlank next := by
  obtain ⟨tables, pfn, count, hvm, -⟩ :=
    freeThreadPages_spec inv.frames inv.swaps (inv.currentLive current hcurrent)
  simp only [EntersBlank, Blank, retire, hvm]

/-- A store of a run goes to a page that `CURRENT` has allocated. -/
def StoresOwn (s : Process) : Event → Prop
  | .store address _ => ∃ t, s.current = some t ∧ virtualHeapStart ≤ address ∧
      miGetpteindex address < maxVirtualPages ∧ s.vm.view t (miGetpteindex address) ≠ .unused
  | _ => True

/-- The page stays allocated when the access is let through. -/
theorem allocated_of_access (inv : s.Inv) (hcurrent : s.current = some current) {address : Nat}
    (own : s.vm.view current (miGetpteindex address) ≠ .unused)
    (h : s.access address = .ok s') :
    s'.current = some current ∧ s'.vm.view current (miGetpteindex address) ≠ .unused := by
  rcases access_cases inv h with
    ⟨-, hsame⟩ | ⟨t, vm, p, k, ht, -, -, -, -, -, -, alloc, hs'⟩
  · rw [hsame]
    exact ⟨hcurrent, own⟩
  · obtain rfl : current = t := Option.some.inj (hcurrent.symm.trans ht)
    rw [hs']
    refine ⟨hcurrent, ?_⟩
    change (vm.setEntry current _ (Mmpte.faultedIn p)).view current _ ≠ _
    rw [Vm.view_setEntry_self, Mmpte.view_faultedIn (frame_number_lt alloc.frame_lt)]
    exact Mmpte.View.noConfusion

theorem sealed_step_iff (inv : s.Inv) (closed : s.Sealed) {e : Event} (enabled : s.Enabled e)
    (own : s.StoresOwn e) (taken : s.Step e s') : s'.Sealed ↔ s.FirstEntryBlank e := by
  cases e with
  | allocatePage =>
      refine iff_of_true ?_ trivial
      obtain ⟨address, h⟩ := allocatePage_of_step taken
      rcases allocatePage_cases inv h with
        ⟨hs', -⟩ | ⟨current, i, vm, p, hcurrent, -, -, alloc, -, hs'⟩
      · rw [hs']
        exact closed
      · rw [hs']
        exact closed.filled hcurrent alloc
          (Mmpte.view_granted _ (frame_number_lt alloc.frame_lt)) fun _ => 0
  | load address => exact iff_of_true (closed.accessed inv (access_of_load taken)) trivial
  | store address byte =>
      refine iff_of_true ?_ trivial
      obtain ⟨t, h, hs'⟩ := access_of_store taken
      obtain ⟨current, hcurrent, hlow, -, hown⟩ := own
      obtain ⟨hcurrent', hown'⟩ := allocated_of_access inv hcurrent hown h
      rw [hs']
      exact (closed.accessed inv h).stored hcurrent' hlow hown' byte
  | switchTo next =>
      cases taken
      cases hcurrent : s.current with
      | none =>
          rw [switchTo_of_none hcurrent]
          exact sealed_enter_iff inv.parked enabled.1
      | some current =>
          rw [switchTo_of_some hcurrent]
          exact (sealed_enter_iff (inv.storedBack hcurrent) enabled.1).trans
            (entersBlank_storedBack_iff inv hcurrent next)
  | create ti =>
      refine iff_of_true ?_ trivial
      cases taken
      intro t j ht hj hv
      have hne : t ≠ ti := by
        intro same
        have hlive := inv.currentLive t ht
        rw [same, show s.live ti = false from enabled] at hlive
        cases hlive
      exact closed t j ht hj ((view_clearPagetable_of_ne s.vm j hne).symm.trans hv)
  | exit next =>
      obtain ⟨current, hcurrent, ⟨hnone, hs'⟩ | ⟨t, ht, hs'⟩⟩ := exit_cases taken
      · rw [hs']
        refine iff_of_true ?_ ?_
        · intro t j ht
          cases ht
        · intro t ht
          rw [hnone] at ht
          cases ht
      · have hnext := enabled t ht
        have hne : t ≠ current := by
          intro same
          exact hnext.2 (same ▸ hcurrent)
        have hlive : (s.retire current).live t = true := by simpa [retire, hne] using hnext.1
        rw [hs', sealed_enter_iff (inv.retired hcurrent) hlive,
          entersBlank_retire_iff inv hcurrent]
        constructor
        · intro blank t' ht'
          rw [ht] at ht'
          exact Option.some.inj ht' ▸ blank
        · exact fun blank => blank t ht

end Process

namespace Observed

/-- Stores go to allocated pages; loads go to any address of the window. -/
def Roaming (o : Observed) (e : Event) : Prop :=
  o.process.Enabled e ∧
    match e with
    | .load address => ∃ t, o.process.current = some t ∧ virtualHeapStart ≤ address ∧
        address ≤ virtualHeapEnd
    | .store address _ => ∃ t block, o.process.current = some t ∧ o.Owns t address block
    | _ => True

/-- Whatever the running thread loads from the window is its own, or zero. -/
def Isolated (o : Observed) : Prop :=
  ∀ t address s byte, o.process.current = some t → virtualHeapStart ≤ address →
    address ≤ virtualHeapEnd → o.process.load address = .ok (s, byte) →
      byte = o.memory.shown t address

variable {o o' : Observed} {t : ThreadId} {address j : Nat} {block : Block}

/-- A page that a live thread has not allocated has an unused entry. -/
theorem Agree.unused_iff (agree : o.Agree) (hlive : o.process.live t = true)
    (hj : j < maxVirtualPages) :
    o.process.vm.view t j = .unused ↔ o.memory t j = none := by
  rw [agree.agrees t j hlive hj]
  cases h : o.process.vm.view t j with
  | unused => simp [Process.privateMemory_of_unused h]
  | inMemory p => simp [Process.privateMemory_of_inMemory h]
  | swappedOut off => simp [Process.privateMemory_of_swappedOut h]
  | stray => exact absurd h (agree.inv.swaps.regular t j hlive hj)

/-- A load from a page that `CURRENT` has not allocated is let through only
where the page is open, and changes nothing. -/
theorem Agree.access_unallocated (agree : o.Agree) (hcurrent : o.process.current = some t)
    (hj : miGetpteindex address < maxVirtualPages)
    (absent : o.memory t (miGetpteindex address) = none) {s : Process}
    (h : o.process.access address = .ok s) :
    o.process.vm.accessible (address / pageSize) = true ∧ s = o.process := by
  have hunused := (agree.unused_iff (agree.inv.currentLive t hcurrent) hj).mpr absent
  rcases Process.access_cases agree.inv h with
    ⟨hopen, hsame⟩ | ⟨current, vm, p, k, ht, -, -, -, hentry, -⟩
  · exact ⟨hopen, hsame⟩
  · obtain rfl : t = current := Option.some.inj (hcurrent.symm.trans ht)
    rw [hunused] at hentry
    cases hentry

/-- Loads outside the allocated pages keep the private memories. -/
theorem Agree.roam (agree : o.Agree) {e : Event} (roaming : o.Roaming e)
    (taken : o.Step e o') : o'.Agree := by
  cases e with
  | load address =>
      obtain ⟨henabled, t, hcurrent, hlow, hhigh⟩ := roaming
      cases hmemory : o.memory t (miGetpteindex address) with
      | some block => exact agree.step ⟨henabled, t, block, hcurrent, hlow, hmemory⟩ taken
      | none =>
          obtain ⟨hstep, hrecord⟩ := taken
          have hsame := (agree.access_unallocated hcurrent (miGetpteindex_lt hhigh) hmemory
            (Process.access_of_load hstep)).2
          have ho : o' = o := by
            obtain ⟨process, memory⟩ := o'
            change process = o.process at hsame
            change memory = o.memory at hrecord
            rw [hsame, hrecord]
          rw [ho]
          exact agree
  | allocatePage => exact agree.step roaming taken
  | store address byte => exact agree.step roaming taken
  | switchTo next => exact agree.step roaming taken
  | create ti => exact agree.step roaming taken
  | exit next => exact agree.step roaming taken

theorem Roaming.storesOwn (agree : o.Agree) {e : Event} (roaming : o.Roaming e) :
    o.process.StoresOwn e := by
  cases e with
  | store address byte =>
      obtain ⟨-, t, block, hcurrent, owns⟩ := roaming
      have hj := agree.index_lt owns
      refine ⟨t, hcurrent, owns.1, hj, ?_⟩
      intro hunused
      have hnone := (agree.unused_iff (agree.inv.currentLive t hcurrent) hj).mp hunused
      rw [owns.2] at hnone
      cases hnone
  | allocatePage | load _ | switchTo _ | create _ | exit _ => trivial

/-- `CURRENT` is shown nothing but its own bytes exactly if the pages it has not
allocated are blank. -/
theorem Agree.isolated_iff (agree : o.Agree) : o.Isolated ↔ o.process.Sealed := by
  constructor
  · intro isolated t j hcurrent hj hunused hopen
    funext k
    have hk := k.isLt
    have hlt : j < 2044 := maxVirtualPages_eq ▸ hj
    change k.val < 4096 at hk
    have hindex : miGetpteindex (pageAddress j + k) = j := by
      change (0x60000000 + j * 4096 + k.val - 0x60000000) / 4096 = j
      omega
    have hpage : (pageAddress j + k) / pageSize = pageAddress j / pageSize := by
      change (0x60000000 + j * 4096 + k.val) / 4096 = (0x60000000 + j * 4096) / 4096
      omega
    have hload := Process.load_of_open (hpage.symm ▸ hopen)
    have hlow : virtualHeapStart ≤ pageAddress j + k := by
      change 0x60000000 ≤ 0x60000000 + j * 4096 + k.val
      omega
    have hhigh : pageAddress j + k ≤ virtualHeapEnd := by
      change 0x60000000 + j * 4096 + k.val ≤ 0x607FBFFF
      omega
    have habsent := (agree.unused_iff (agree.inv.currentLive t hcurrent) hj).mp hunused
    have hbyte := isolated t _ _ _ hcurrent hlow hhigh hload
    rw [PrivateMemory.shown, hindex, habsent] at hbyte
    exact hbyte
  · intro closed t address s byte hcurrent hlow hhigh hload
    have hj := miGetpteindex_lt hhigh
    simp only [Process.load] at hload
    cases h : o.process.access address with
    | error stop => simp [h] at hload
    | ok s' =>
        simp only [h, Except.ok.injEq, Prod.mk.injEq] at hload
        rw [← hload.2, PrivateMemory.shown]
        cases hmemory : o.memory t (miGetpteindex address) with
        | some block => exact agree.memory_read hcurrent ⟨hlow, hmemory⟩ h
        | none =>
            obtain ⟨hopen, hsame⟩ := agree.access_unallocated hcurrent hj hmemory h
            have hunused :=
              (agree.unused_iff (agree.inv.currentLive t hcurrent) hj).mpr hmemory
            have hpage : pageAddress (miGetpteindex address) / pageSize = address / pageSize := by
              rw [← pageBase_eq hlow, Nat.mul_div_cancel _ (by decide : 0 < pageSize)]
            have hblank := closed t _ hcurrent hj hunused (hpage ▸ hopen)
            have hbyte := congrFun hblank (PrivateMemory.offset address)
            rw [read_apply, Process.pageAddress_offset hlow] at hbyte
            rw [hsame]
            exact hbyte

theorem sealed_of_reachable {main : ThreadId}
    (reach : Runs.Reachable (fun o => o = Observed.start main)
      (fun o e => o.Roaming e ∧ o.process.FirstEntryBlank e) Step o) :
    o.Agree ∧ o.process.Sealed := by
  refine reach.invariant (fun o => o.Agree ∧ o.process.Sealed) ?_ ?_
  · intro o ho
    rw [ho]
    exact ⟨Agree.start main, fun _ _ _ _ _ _ => rfl⟩
  · intro o e o' permitted taken ⟨agree, closed⟩
    obtain ⟨roaming, blank⟩ := permitted
    exact ⟨agree.roam roaming taken,
      (Process.sealed_step_iff agree.inv closed roaming.1 (roaming.storesOwn agree) taken.1).mpr
        blank⟩

/-- In a run whose first entries find the window blank no thread is shown a byte
of another one, and the next step ends that exactly if it is a first entry that
finds a byte. -/
theorem window_isolated {main : ThreadId}
    (reach : Runs.Reachable (fun o => o = Observed.start main)
      (fun o e => o.Roaming e ∧ o.process.FirstEntryBlank e) Step o) :
    o.Isolated ∧
      ∀ e o', o.Roaming e → o.Step e o' → (o'.Isolated ↔ o.process.FirstEntryBlank e) := by
  obtain ⟨agree, closed⟩ := sealed_of_reachable reach
  refine ⟨agree.isolated_iff.mpr closed, ?_⟩
  intro e o' roaming taken
  rw [(agree.roam roaming taken).isolated_iff]
  exact Process.sealed_step_iff agree.inv closed roaming.1 (roaming.storesOwn agree) taken.1

/-- A step of the process together with its record. -/
def after (o : Observed) (e : Event) (s : Process) : Observed := ⟨s, o.memory.record o.process e⟩

theorem Permitted.roaming (agree : o.Agree) {e : Event} (permitted : o.Permitted e) :
    o.Roaming e := by
  refine ⟨permitted.1, ?_⟩
  cases e with
  | load address =>
      obtain ⟨-, t, block, hcurrent, owns⟩ := permitted
      have hj := agree.index_lt owns
      refine ⟨t, hcurrent, owns.1, ?_⟩
      change address ≤ 0x607FBFFF
      have hlow : 0x60000000 ≤ address := owns.1
      change (address - 0x60000000) / 4096 < maxVirtualPages at hj
      rw [maxVirtualPages_eq] at hj
      omega
  | _ => exact permitted.2

/-- A thread with a page has run before. -/
theorem Agree.entersBlank_of_page (agree : o.Agree) (hlive : o.process.live t = true)
    (hj : j < maxVirtualPages) (hused : o.process.vm.view t j ≠ .unused) :
    o.process.EntersBlank t :=
  fun hnew => absurd (agree.inv.fresh t j hlive hnew hj) hused

theorem entered_allocatePage (agree : o.Agree) {s : Process}
    (taken : o.process.Step .allocatePage s) : s.entered = o.process.entered := by
  obtain ⟨address, h⟩ := Process.allocatePage_of_step taken
  rcases Process.allocatePage_cases agree.inv h with ⟨hs, -⟩ | ⟨_, _, _, _, -, -, -, -, -, hs⟩
  all_goals rw [hs]

/-- `CURRENT` takes its next page and stores a byte in it. -/
theorem Agree.exists_written (agree : o.Agree) {pages : ThreadId → Nat} {frames slots : Nat}
    (layout : o.process.Layout t pages frames slots) (room : pages t < maxVirtualPages)
    (left : frames < maxPhysicalPages) (byte : UInt8) :
    ∃ o' block, Runs.Steps (fun o e => o.Roaming e ∧ o.process.FirstEntryBlank e) Step o
        [.allocatePage, .store (pageAddress (pages t)) byte] o' ∧
      o'.Agree ∧ o'.process.Layout t (Function.update pages t (pages t + 1)) (frames + 1) slots ∧
      o'.process.entered = o.process.entered ∧ o'.memory t (pages t) = some block ∧
      block (PrivateMemory.offset (pageAddress (pages t))) = byte ∧
      (∀ u, u ≠ t → o'.memory u = o.memory u) ∧
      o'.process.vm.accessible (pageAddress (pages t) / pageSize) = true ∧
      o'.process.vm.memory (pageAddress (pages t)) = byte := by
  obtain ⟨s, untouched, taken, layout₁, ⟨p, hentry⟩, -⟩ := layout.allocate_of_room room left
  let allocated := o.after .allocatePage s
  have allocates := permitted_of_untouched untouched
  have toAllocated : o.Step .allocatePage allocated := ⟨taken, rfl⟩
  have agree₁ : allocated.Agree := agree.step allocates toAllocated
  have layout₁ : allocated.process.Layout t _ _ _ := layout₁
  obtain ⟨o', block, stores, toStored, layout₂, -, -, hentered, hblock, hbyte, hothers,
      hopen⟩ := agree₁.exists_store layout₁ room hentry byte
  refine ⟨o', block, .cons ⟨allocates.roaming agree, trivial⟩ toAllocated
      (.single ⟨stores.roaming agree₁, trivial⟩ toStored), agree₁.step stores toStored, layout₂,
    hentered.trans (entered_allocatePage agree taken), hblock, hbyte, ?_, hopen⟩
  intro u hne
  rw [hothers u hne]
  exact record_allocatePage_of_ne o.memory layout.current hne

/-- Thread 1 is entered while the window is as `mm_init` left it and writes a
page, then the main thread writes its page at the same address, and thread 1 is
switched to again. -/
theorem window_isolated_two_pages :
    ∃ (o : Observed) (mine other : Block), o.process.current = some 1 ∧
      o.memory 1 0 = some mine ∧ mine (PrivateMemory.offset virtualHeapStart) = 9 ∧
      o.memory 0 0 = some other ∧ other (PrivateMemory.offset virtualHeapStart) = 7 ∧
      o.Isolated := by
  have hpages := maxVirtualPages_eq
  have hframes := maxPhysicalPages_eq
  let created := (start 0).after (.create 1) ((start 0).process.create 1)
  let entered := created.after (.switchTo 1) (created.process.switchTo 1)
  have creates : (start 0).Roaming (.create 1) := ⟨rfl, trivial⟩
  have enters : created.Roaming (.switchTo 1) := ⟨⟨rfl, by decide⟩, trivial⟩
  have blank : created.process.FirstEntryBlank (.switchTo 1) := fun _ _ _ _ => rfl
  have toCreated : (start 0).Step (.create 1) created := ⟨rfl, rfl⟩
  have toEntered : created.Step (.switchTo 1) entered := ⟨rfl, rfl⟩
  have agree₁ : entered.Agree := ((Agree.start 0).roam creates toCreated).roam enters toEntered
  have layout₁ : entered.process.Layout 1 _ _ _ :=
    (Process.Layout.created.switchTo Process.Layout.created.live.2 (by decide)).2.1
  obtain ⟨o₂, mine, run₂, agree₂, layout₂, hentered₂, hmine, hnine, -, -⟩ :=
    agree₁.exists_written layout₁ (by omega) (by omega) 9
  -- the main thread resumes, since it was running when `my_pthread_init` returned
  obtain ⟨hswitch₃, layout₃, -⟩ := layout₂.switchTo layout₂.live.1 (by decide)
  let resumed := o₂.after (.switchTo 0) (o₂.process.switchTo 0)
  have resumes : o₂.process.FirstEntryBlank (.switchTo 0) := by
    intro hnew
    rw [hentered₂] at hnew
    cases hnew
  have roams₃ := (permitted_of_untouched hswitch₃).roaming agree₂
  have toResumed : o₂.Step (.switchTo 0) resumed := ⟨rfl, rfl⟩
  have agree₃ : resumed.Agree := agree₂.roam roams₃ toResumed
  have layout₃ : resumed.process.Layout 0 _ _ _ := layout₃
  obtain ⟨o₄, other, run₄, agree₄, layout₄, -, hother, hseven, hkept, -⟩ :=
    agree₃.exists_written layout₃ (by simp [hpages]) (by omega) 7
  obtain ⟨hswitch₅, layout₅, -⟩ := layout₄.switchTo layout₄.live.2 (by decide)
  let back := o₄.after (.switchTo 1) (o₄.process.switchTo 1)
  have hused : o₄.process.vm.view 1 0 ≠ .unused := by
    intro h
    have := (layout₄.filled 1 0 (by omega)).mp h
    simp at this
  have returns : o₄.process.FirstEntryBlank (.switchTo 1) :=
    agree₄.entersBlank_of_page layout₄.live.2 (by omega) hused
  have roams₅ := (permitted_of_untouched hswitch₅).roaming agree₄
  have toBack : o₄.Step (.switchTo 1) back := ⟨rfl, rfl⟩
  have reach : Runs.Reachable (fun o => o = Observed.start 0)
      (fun o e => o.Roaming e ∧ o.process.FirstEntryBlank e) Step back :=
    ⟨start 0, _, rfl, .cons ⟨creates, trivial⟩ toCreated (.cons ⟨enters, blank⟩ toEntered
      ((run₂.append (.single ⟨roams₃, resumes⟩ toResumed)).append
        (run₄.append (.single ⟨roams₅, returns⟩ toBack))))⟩
  have hstays : back.memory 1 0 = some mine := by
    change o₄.memory 1 0 = _
    rw [hkept 1 (by decide)]
    exact hmine
  exact ⟨back, mine, other, layout₅.current, hstays, hnine, hother, hseven,
    (window_isolated reach).1⟩

/-- The main thread writes a page of its own and a new thread is entered: what
it loads from that page is the byte the main thread wrote. -/
theorem page_shown_to_new_thread :
    ∃ o, Runs.Reachable (fun o => o = Observed.start 0) Roaming Step o ∧
      o.process.current = some 1 ∧ ¬ o.Isolated := by
  have hpages := maxVirtualPages_eq
  have hframes := maxPhysicalPages_eq
  let created := (start 0).after (.create 1) ((start 0).process.create 1)
  have creates : (start 0).Roaming (.create 1) := ⟨rfl, trivial⟩
  have toCreated : (start 0).Step (.create 1) created := ⟨rfl, rfl⟩
  have agree₁ : created.Agree := (Agree.start 0).roam creates toCreated
  have layout₁ : created.process.Layout 0 _ _ _ := Process.Layout.created
  obtain ⟨o, -, run, agree, layout, hentered, -, -, hothers, hopen, hbyte⟩ :=
    agree₁.exists_written layout₁ (by omega) (by omega) 7
  let entered := o.after (.switchTo 1) (o.process.switchTo 1)
  obtain ⟨hswitch, layout', -⟩ := layout.switchTo layout.live.2 (by decide)
  have reach : Runs.Reachable (fun o => o = Observed.start 0) Roaming Step entered :=
    ⟨start 0, _, rfl, .cons creates toCreated ((run.mono fun _ _ => And.left).append
      (.single ((permitted_of_untouched hswitch).roaming agree) ⟨rfl, rfl⟩))⟩
  obtain ⟨bytes, hvm, -, -⟩ :=
    mmStoreVirtualPagesBack_spec agree.inv.frames (agree.inv.currentLive 0 layout.current)
  -- `thread_stub` is entered with the window of the main thread
  have hwindow : entered.process.vm = { o.process.vm with physicalMemory := bytes } := by
    change (o.process.switchTo 1).vm = _
    rw [Process.switchTo_of_some layout.current, Process.enter, hvm]
    exact congrArg Process.vm (if_neg (by rw [hentered]; decide))
  have hload : entered.process.load virtualHeapStart =
      .ok (entered.process, entered.process.vm.memory virtualHeapStart) := by
    apply Process.load_of_open
    rw [hwindow]
    exact hopen
  have hshows : entered.process.vm.memory virtualHeapStart = 7 := by
    rw [hwindow]
    exact hbyte
  have habsent : entered.memory.shown 1 virtualHeapStart = 0 := by
    change o.memory.shown 1 virtualHeapStart = 0
    rw [PrivateMemory.shown, hothers 1 (by decide)]
    rfl
  refine ⟨entered, reach, layout'.current, ?_⟩
  intro isolated
  have hbyte' := isolated 1 _ _ _ layout'.current (Nat.le_refl _) (by decide) hload
  rw [hshows, habsent] at hbyte'
  exact absurd hbyte' (by decide)

end Observed

end OsDesign.Virt
