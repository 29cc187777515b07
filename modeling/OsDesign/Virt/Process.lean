import OsDesign.Lib.Outcome
import OsDesign.Lib.Runs
import OsDesign.Virt.Switching

/-!
The process as the paging layer sees it: the running thread, the live threads
and the paging state, moved by uninterrupted steps. Which thread comes next is
left open, so every order in which `schedule()` and
`schedule_swap_current_to_wait()` dispatch is a run here.
-/
namespace OsDesign.Virt

open Loops ByteStore Tally

/-- `current` is `CURRENT`, null when a thread ended and none was ready.
`entered t` says that `t`'s context was saved inside `swapcontext`, or that `t`
runs; a thread that was only created still has the context of `makecontext`. -/
structure Process where
  vm : Vm
  current : Option ThreadId
  live : ThreadId → Bool
  entered : ThreadId → Bool

/-- The steps of a run. `switchTo` and `exit` name the thread taken from the
ready queue; at `exit` there may be none. -/
inductive Event
  | allocatePage
  | load (address : Nat)
  | store (address : Nat) (byte : UInt8)
  | switchTo (next : ThreadId)
  | create (ti : ThreadId)
  | exit (next : Option ThreadId)

namespace Process

/-- The main thread after `my_pthread_init`, its page table all zero. -/
def start (main : ThreadId) : Process where
  vm := mmInit
  current := some main
  live := fun t => t == main
  entered := fun t => t == main

/-- A load or store at `address`: an inaccessible page raises `SIGSEGV`. The
handler returns only behind the `mprotect` that opens the page, and the access
is made again. -/
def access (s : Process) (address : Nat) : Except Stop Process :=
  if s.vm.accessible (address / pageSize) = true then .ok s
  else
    match s.current with
    | none => .error .nullDereference
    | some current =>
        match s.vm.pagefaultHandler current address with
        | .error stop => .error stop
        | .ok vm => .ok { s with vm := vm }

def load (s : Process) (address : Nat) : Except Stop (Process × UInt8) :=
  match s.access address with
  | .error stop => .error stop
  | .ok s => .ok (s, s.vm.memory address)

def store (s : Process) (address : Nat) (byte : UInt8) : Except Stop Process :=
  match s.access address with
  | .error stop => .error stop
  | .ok s => .ok { s with vm := { s.vm with memory := Function.update s.vm.memory address byte } }

def allocatePage (s : Process) : Except Stop (Process × Option Nat) :=
  match s.current with
  | none => .error .nullDereference
  | some current =>
      match s.vm.mmAllocatePage current with
      | .error stop => .error stop
      | .ok (vm, address) => .ok ({ s with vm := vm }, address)

/-- `next` gets the processor. One that resumes behind its `swapcontext` copies
its pages in; one entered for the first time begins in `thread_stub`. -/
def enter (s : Process) (next : ThreadId) : Process :=
  if s.entered next = true then
    { s with vm := s.vm.mmSwitchVirtualPages next, current := some next }
  else { s with current := some next, entered := Function.update s.entered next true }

/-- `schedule` or `schedule_swap_current_to_wait` with `next` first in the
ready queue. -/
def switchTo (s : Process) (next : ThreadId) : Process :=
  match s.current with
  | none => s.enter next
  | some current =>
      ({ s with vm := s.vm.mmStoreVirtualPagesBack current } : Process).enter next

def create (s : Process) (ti : ThreadId) : Process :=
  { s with
    vm := s.vm.clearPagetable ti
    live := Function.update s.live ti true
    entered := Function.update s.entered ti false }

/-- The end of `CURRENT`: its pages and its block are freed and `CURRENT` is null. -/
def retire (s : Process) (current : ThreadId) : Process :=
  { s with
    vm := s.vm.freeThreadPages current
    live := Function.update s.live current false
    current := none }

/-- `my_pthread_exit`, or the tail of `thread_stub`, and the `schedule` behind it. -/
def exit (s : Process) (next : Option ThreadId) : Except Stop Process :=
  match s.current with
  | none => .error .nullDereference
  | some current =>
      match next with
      | none => .ok (s.retire current)
      | some next => .ok ((s.retire current).enter next)

def next (s : Process) : Event → Except Stop Process
  | .allocatePage => s.allocatePage.map Prod.fst
  | .load address => (s.load address).map Prod.fst
  | .store address byte => s.store address byte
  | .switchTo next => .ok (s.switchTo next)
  | .create ti => .ok (s.create ti)
  | .exit next => s.exit next

/-- `next` waits in the ready queue only if it is live and does not run. -/
def MayRun (s : Process) (next : ThreadId) : Prop :=
  s.live next = true ∧ s.current ≠ some next

/-- A thread that is switched to is live and does not run already; a thread
that is created gets a block that no live thread has. -/
def Enabled (s : Process) : Event → Prop
  | .switchTo next => s.MayRun next
  | .exit next => ∀ t, next = some t → s.MayRun t
  | .create ti => s.live ti = false
  | _ => True

def Step (s : Process) (e : Event) (s' : Process) : Prop :=
  s.next e = .ok s'

theorem live_enter (s : Process) (next : ThreadId) : (s.enter next).live = s.live := by
  by_cases h : s.entered next = true <;> simp [enter, h]

theorem live_switchTo (s : Process) (next : ThreadId) : (s.switchTo next).live = s.live := by
  cases h : s.current <;> simp [switchTo, h, live_enter]

/-- What the paging layer keeps between steps: the two tables, the protection
of `CURRENT`'s pages, and an empty table for a thread never entered. -/
structure Inv (s : Process) : Prop where
  frames : FrameTable s.live s.vm
  swaps : SwapTable s.live s.vm
  currentLive : ∀ t, s.current = some t → s.live t = true
  currentEntered : ∀ t, s.current = some t → s.entered t = true
  opened : ∀ t j p, s.current = some t → j < maxVirtualPages → s.vm.view t j = .inMemory p →
    s.vm.accessible (pageAddress j / pageSize) = true
  closed : ∀ t j o, s.current = some t → j < maxVirtualPages → s.vm.view t j = .swappedOut o →
    s.vm.accessible (pageAddress j / pageSize) = false
  fresh : ∀ t j, s.live t = true → s.entered t = false → j < maxVirtualPages →
    s.vm.view t j = .unused

variable {s s' : Process} {current : ThreadId} {i p : Nat}

theorem Inv.start (main : ThreadId) : (Process.start main).Inv := by
  have hview : ∀ t j, (Process.start main).vm.view t j = .unused := fun _ _ => Mmpte.view_zero
  refine ⟨⟨?_, ?_, ?_, ?_⟩, ⟨?_, ?_, ?_, ?_⟩, ?_, ?_, ?_, ?_, fun t j _ _ _ => hview t j⟩
  · change (0 : Int) = (tally maxPhysicalPages fun _ => false : Nat)
    simp [tally_none]
  · exact fun i _ h => absurd h (by simp [Process.start, mmInit])
  · exact fun t j p _ _ h => absurd h (by simp [hview])
  · exact fun t j j' p _ _ _ h => absurd h (by simp [hview])
  · change (0 : Int) = (tally maxSwapSlots fun _ => false : Nat)
    simp [tally_none]
  · exact fun t j o _ _ h => absurd h (by simp [hview])
  · exact fun t j t' j' o _ _ _ _ h => absurd h (by simp [hview])
  · exact fun t j _ _ => by simp [hview]
  · simp [Process.start]
  · simp [Process.start]
  · exact fun t j p _ _ h => absurd h (by simp [hview])
  · exact fun t j o _ _ h => absurd h (by simp [hview])

theorem pageAddress_div_injective {i j : Nat}
    (h : pageAddress i / pageSize = pageAddress j / pageSize) : i = j := by
  rw [pageAddress_div, pageAddress_div] at h
  omega

/-- The search of `mm_allocate_page` stops at the first unused entry. -/
theorem firstIndex_unused (hi : i < maxVirtualPages) (hunused : s.vm.view current i = .unused)
    (hbefore : ∀ j, j < i → s.vm.view current j ≠ .unused) :
    firstIndex maxVirtualPages (fun i => (s.vm.pagetables current i).long == 0#64) = some i := by
  refine firstIndex_eq_some.mpr ⟨by simp [Mmpte.view_eq_unused.mp hunused], hi, ?_⟩
  intro j hj
  have hne : (s.vm.pagetables current j).long ≠ 0#64 := fun h =>
    hbefore j hj (Mmpte.view_eq_unused.mpr h)
  simp [hne]

/-- `mm_allocate_page` on the first unused entry, once a frame is there. -/
theorem mmAllocatePage_of_allocated {vm : Vm} (hi : i < maxVirtualPages)
    (hunused : s.vm.view current i = .unused)
    (hbefore : ∀ j, j < i → s.vm.view current j ≠ .unused)
    (hok : s.vm.allocatePhysicalPage current = .ok (vm, p))
    (alloc : Allocated s.live current s.vm vm p) :
    s.vm.mmAllocatePage current =
      .ok (vm.pageFilled current i ((s.vm.pagetables current i).granted p) (fun _ => 0),
        some (pageAddress i)) := by
  simp only [Vm.mmAllocatePage, firstIndex_unused hi hunused hbefore, hok,
    alloc.pagetables_current]
  rfl

/-- `mm_allocate_page` finds no unused entry, ends in `swap_out`'s panic, or
grants the first unused entry a frame and a zeroed, open page. -/
theorem mmAllocatePage_cases (inv : s.Inv) (current : ThreadId) :
    (s.vm.mmAllocatePage current = .ok (s.vm, none) ∧
      ∀ j, j < maxVirtualPages → s.vm.view current j ≠ .unused) ∨
    s.vm.mmAllocatePage current = .error (.panic "swap_out: Swap file is full\n") ∨
    ∃ i vm p, i < maxVirtualPages ∧ s.vm.view current i = .unused ∧
      (∀ j, j < i → s.vm.view current j ≠ .unused) ∧
      Allocated s.live current s.vm vm p ∧
      s.vm.mmAllocatePage current =
        .ok (vm.pageFilled current i ((s.vm.pagetables current i).granted p) (fun _ => 0),
          some (pageAddress i)) := by
  cases hfirst : firstIndex maxVirtualPages
      (fun i => (s.vm.pagetables current i).long == 0#64) with
  | none =>
      refine .inl ⟨by simp only [Vm.mmAllocatePage, hfirst], ?_⟩
      intro j hj hv
      have := firstIndex_eq_none.mp hfirst j hj
      simp [Mmpte.view_eq_unused.mp hv] at this
  | some i =>
      obtain ⟨hi, hlt, hbefore⟩ := firstIndex_eq_some.mp hfirst
      right
      rcases allocatePhysicalPage_cases current inv.frames inv.swaps.count with
        hpanic | ⟨vm, p, hok, alloc⟩
      · left
        simp only [Vm.mmAllocatePage, hfirst, hpanic]
      · right
        have hunused : s.vm.view current i = .unused :=
          Mmpte.view_eq_unused.mpr (by simpa using hi)
        have hfilled : ∀ j, j < i → s.vm.view current j ≠ .unused := by
          intro j hj hv
          have := hbefore j hj
          simp [Mmpte.view_eq_unused.mp hv] at this
        exact ⟨i, vm, p, hlt, hunused, hfilled, alloc,
          mmAllocatePage_of_allocated hlt hunused hfilled hok alloc⟩

theorem allocatePage_of_some (hcurrent : s.current = some current) :
    s.allocatePage = (s.vm.mmAllocatePage current).map fun r => ({ s with vm := r.1 }, r.2) := by
  obtain ⟨vm, running, live, entered⟩ := s
  cases hcurrent
  simp only [allocatePage]
  cases vm.mmAllocatePage current <;> rfl

theorem allocatePage_cases (inv : s.Inv) {address : Option Nat}
    (h : s.allocatePage = .ok (s', address)) :
    (s' = s ∧ address = none) ∨
    ∃ current i vm p, s.current = some current ∧ i < maxVirtualPages ∧
      s.vm.view current i = .unused ∧ Allocated s.live current s.vm vm p ∧
      address = some (pageAddress i) ∧
      s' = { s with
        vm := vm.pageFilled current i ((s.vm.pagetables current i).granted p) (fun _ => 0) } := by
  by_cases hnone : s.current = none
  · rw [allocatePage, hnone] at h
    cases h
  · obtain ⟨current, hcurrent⟩ := Option.ne_none_iff_exists'.mp hnone
    rw [allocatePage_of_some hcurrent] at h
    rcases mmAllocatePage_cases inv current with
      ⟨hnull, -⟩ | hpanic | ⟨i, vm, p, hi, hunused, -, alloc, hok⟩
    · rw [hnull] at h
      cases h
      exact .inl ⟨rfl, rfl⟩
    · rw [hpanic] at h
      cases h
    · rw [hok] at h
      cases h
      exact .inr ⟨current, i, vm, p, hcurrent, hi, hunused, alloc, rfl, rfl⟩

theorem switchTo_of_none (hcurrent : s.current = none) (next : ThreadId) :
    s.switchTo next = s.enter next := by
  simp only [switchTo, hcurrent]

theorem switchTo_of_some (hcurrent : s.current = some current) (next : ThreadId) :
    s.switchTo next =
      ({ s with vm := s.vm.mmStoreVirtualPagesBack current } : Process).enter next := by
  obtain ⟨vm, running, live, entered⟩ := s
  cases hcurrent
  rfl

theorem exit_cases {next : Option ThreadId} (h : s.exit next = .ok s') :
    ∃ current, s.current = some current ∧
      ((next = none ∧ s' = s.retire current) ∨
        ∃ t, next = some t ∧ s' = (s.retire current).enter t) := by
  cases hcurrent : s.current with
  | none =>
      rw [exit, hcurrent] at h
      cases h
  | some current =>
      rw [exit, hcurrent] at h
      refine ⟨current, rfl, ?_⟩
      cases next with
      | none => exact .inl ⟨rfl, (Except.ok.inj h).symm⟩
      | some t => exact .inr ⟨t, rfl, (Except.ok.inj h).symm⟩

/-- A frame taken for `CURRENT` and named in one of its entries, with the page
opened, keeps the invariant. -/
theorem Inv.grant (inv : s.Inv) (hcurrent : s.current = some current) {vm : Vm} {p i : Nat}
    (hi : i < maxVirtualPages) (absent : ∀ q, s.vm.view current i ≠ .inMemory q)
    (alloc : Allocated s.live current s.vm vm p) {e : Mmpte} (he : e.view = .inMemory p)
    (block : Fin pageSize → UInt8) :
    ({ s with vm := vm.pageFilled current i e block } : Process).Inv := by
  have haccess : vm.accessible = s.vm.accessible := by cases alloc <;> rfl
  have hself : (vm.setEntry current i e).view current i = .inMemory p := by
    rw [Vm.view_setEntry_self, he]
  have hkept : ∀ {j}, j ≠ i → (vm.setEntry current i e).view current j =
      s.vm.view current j := by
    intro j hj
    rw [Vm.view_setEntry_of_ne _ _ (.inr hj), Vm.view, alloc.pagetables_current]
  have hframes := inv.frames.grant (inv.currentLive current hcurrent) alloc hi absent he
  have hswaps : SwapTable s.live (vm.setEntry current i e) :=
    (inv.swaps.allocated alloc).setEntry (by simp [he]) (by simp [he])
  refine ⟨⟨hframes.count, hframes.owned, hframes.backed, hframes.injective⟩,
    ⟨hswaps.count, hswaps.held, hswaps.injective, hswaps.regular⟩, inv.currentLive,
    inv.currentEntered, ?_, ?_, ?_⟩
  · intro t j q ht hj hv
    obtain rfl : current = t := Option.some.inj (hcurrent.symm.trans ht)
    change (vm.setEntry current i e).view current j = _ at hv
    change Function.update vm.accessible (pageAddress i / pageSize) true
      (pageAddress j / pageSize) = true
    by_cases hji : j = i
    · simp [hji]
    · rw [hkept hji] at hv
      rw [Function.update_of_ne fun h => hji (pageAddress_div_injective h), haccess]
      exact inv.opened current j q hcurrent hj hv
  · intro t j o ht hj hv
    obtain rfl : current = t := Option.some.inj (hcurrent.symm.trans ht)
    change (vm.setEntry current i e).view current j = _ at hv
    change Function.update vm.accessible (pageAddress i / pageSize) true
      (pageAddress j / pageSize) = false
    have hji : j ≠ i := by
      intro same
      rw [same, hself] at hv
      cases hv
    rw [hkept hji] at hv
    rw [Function.update_of_ne fun h => hji (pageAddress_div_injective h), haccess]
    exact inv.closed current j o hcurrent hj hv
  · intro t j ht hentered hj
    change (vm.setEntry current i e).view t j = _
    have hne : t ≠ current := by
      intro same
      simp [same, inv.currentEntered current hcurrent] at hentered
    rw [Vm.view_setEntry_of_ne _ _ (.inl hne)]
    have hv := inv.fresh t j ht hentered hj
    cases alloc with
    | free => exact hv
    | evicted _ hp t' jv k used owner other ht' hjv entry =>
        change (s.vm.setEntry t' jv _).view t j = _
        rw [Vm.view_setEntry_of_ne]
        · exact hv
        · by_contra hsame
          obtain ⟨rfl, rfl⟩ : t = t' ∧ j = jv := by tauto
          rw [entry] at hv
          cases hv

/-- A load or store that does not end the process finds the page open, or finds
it swapped out and is served by the page-fault handler. -/
theorem access_cases (inv : s.Inv) {address : Nat} (h : s.access address = .ok s') :
    (s.vm.accessible (address / pageSize) = true ∧ s' = s) ∨
    ∃ current vm p k, s.current = some current ∧
      miGetpteindex address < maxVirtualPages ∧
      virtualHeapStart ≤ address ∧ address < virtualHeapEnd ∧
      s.vm.view current (miGetpteindex address) = .swappedOut (k * pageSize) ∧
      k < maxSwapSlots ∧ s.vm.gSwap k = true ∧
      Allocated s.live current s.vm vm p ∧
      s' = { s with
        vm := vm.faultServed current (miGetpteindex address) p k } := by
  by_cases hopen : s.vm.accessible (address / pageSize) = true
  · left
    rw [access, if_pos hopen, Except.ok.injEq] at h
    exact ⟨hopen, h.symm⟩
  · right
    rw [access, if_neg hopen] at h
    cases hcurrent : s.current with
    | none => simp [hcurrent] at h
    | some current =>
        simp only [hcurrent] at h
        cases hserved : s.vm.pagefaultHandler current address with
        | error stop => simp [hserved] at h
        | ok vm' =>
            obtain ⟨hlow, hhigh, o, hentry⟩ := swappedOut_of_pagefaultHandler_ok hserved
            rcases pagefaultHandler_swappedOut inv.frames inv.swaps
                (inv.currentLive current hcurrent) hlow hhigh hentry
              with hpanic | ⟨vm, p, k, hk, ho, hslot, alloc, hok⟩
            · simp [hserved] at hpanic
            · rw [hserved] at h hok
              rw [Except.ok.inj hok] at h
              exact ⟨current, vm, p, k, rfl, miGetpteindex_lt hhigh.le, hlow, hhigh,
                ho ▸ hentry, hk, hslot, alloc, (Except.ok.inj h).symm⟩

/-- Serving a fault keeps the invariant: the frame is granted and the slot,
named by that entry alone, is given back. -/
theorem Inv.served (inv : s.Inv) (hcurrent : s.current = some current) {vm : Vm} {p k j : Nat}
    (hj : j < maxVirtualPages) (hentry : s.vm.view current j = .swappedOut (k * pageSize))
    (hk : k < maxSwapSlots) (hslot : s.vm.gSwap k = true)
    (alloc : Allocated s.live current s.vm vm p) :
    ({ s with vm := vm.faultServed current j p k } : Process).Inv := by
  have hview : (Mmpte.faultedIn p).view = .inMemory p :=
    Mmpte.view_faultedIn (frame_number_lt alloc.frame_lt)
  have granted := inv.grant hcurrent hj (by simp [hentry]) alloc hview
    (read pageSize vm.swapFile (k * pageSize))
  have hstays : vm.view current j = .swappedOut (k * pageSize) := by
    rw [Vm.view, alloc.pagetables_current]
    exact hentry
  have hused : vm.gSwap k = true := alloc.gSwap_of_used hslot
  have released : SwapTable s.live (vm.faultServed current j p k) := by
    refine granted.swaps.release hk hused ?_
    intro t j' ht hj' hv
    change (vm.setEntry current j (Mmpte.faultedIn p)).view t j' = _ at hv
    by_cases hsame : t = current ∧ j' = j
    · obtain ⟨ht', hj'⟩ := hsame
      rw [ht', hj', Vm.view_setEntry_self, hview] at hv
      cases hv
    · rw [Vm.view_setEntry_of_ne _ _ (by tauto)] at hv
      obtain ⟨ht', hj'⟩ := (inv.swaps.allocated alloc).injective t j' current j _ ht hj'
        (inv.currentLive current hcurrent) hj hv hstays
      exact hsame ⟨ht', hj'⟩
  exact ⟨⟨granted.frames.count, granted.frames.owned, granted.frames.backed,
    granted.frames.injective⟩, released, granted.currentLive, granted.currentEntered,
    granted.opened, granted.closed, granted.fresh⟩

/-- What holds between the two halves of a switch, when the window is nobody's. -/
structure Parked (s : Process) : Prop where
  frames : FrameTable s.live s.vm
  swaps : SwapTable s.live s.vm
  fresh : ∀ t j, s.live t = true → s.entered t = false → j < maxVirtualPages →
    s.vm.view t j = .unused

theorem Parked.idle (parked : s.Parked) (hnone : s.current = none) : s.Inv :=
  ⟨parked.frames, parked.swaps, by simp [hnone], by simp [hnone], by simp [hnone],
    by simp [hnone], parked.fresh⟩

/-- The thread that gets the processor finds its pages open, its swapped-out
pages closed, or, entered for the first time, no page at all. -/
theorem Parked.enter (parked : s.Parked) {next : ThreadId} (hlive : s.live next = true) :
    (s.enter next).Inv := by
  by_cases hentered : s.entered next = true
  · obtain ⟨bytes, access, hvm, -, hopen, hclosed⟩ := mmSwitchVirtualPages_spec s.vm next
    simp only [Process.enter, hentered, if_true, hvm]
    refine ⟨⟨parked.frames.count, parked.frames.owned, parked.frames.backed,
      parked.frames.injective⟩, ⟨parked.swaps.count, parked.swaps.held, parked.swaps.injective,
      parked.swaps.regular⟩, ?_, ?_, ?_, ?_, parked.fresh⟩
    · intro t ht
      exact Option.some.inj ht ▸ hlive
    · intro t ht
      exact Option.some.inj ht ▸ hentered
    · intro t j p ht hj hv
      obtain rfl : next = t := Option.some.inj ht
      exact hopen j p hj hv
    · intro t j o ht hj hv
      obtain rfl : next = t := Option.some.inj ht
      apply hclosed j hj
      intro p hp
      change s.vm.view next j = _ at hv
      simp [hp] at hv
  · have hnew : s.entered next = false := by simpa using hentered
    have hunused : ∀ j, j < maxVirtualPages → s.vm.view next j = .unused :=
      fun j => parked.fresh next j hlive hnew
    simp only [Process.enter, hnew]
    refine ⟨parked.frames, parked.swaps, ?_, ?_, ?_, ?_, ?_⟩
    · intro t ht
      exact Option.some.inj ht ▸ hlive
    · intro t ht
      obtain rfl : next = t := Option.some.inj ht
      simp
    · intro t j p ht hj hv
      obtain rfl : next = t := Option.some.inj ht
      exact absurd hv (by simp [hunused j hj])
    · intro t j o ht hj hv
      obtain rfl : next = t := Option.some.inj ht
      exact absurd hv (by simp [hunused j hj])
    · intro t j ht hfresh hj
      apply parked.fresh t j ht _ hj
      by_cases hsame : t = next
      · simp [hsame] at hfresh
      · simpa [hsame] using hfresh

theorem Inv.parked (inv : s.Inv) : s.Parked :=
  ⟨inv.frames, inv.swaps, inv.fresh⟩

theorem Inv.storedBack (inv : s.Inv) (hcurrent : s.current = some current) :
    ({ s with vm := s.vm.mmStoreVirtualPagesBack current } : Process).Parked := by
  obtain ⟨bytes, hvm, -, -⟩ :=
    mmStoreVirtualPagesBack_spec inv.frames (inv.currentLive current hcurrent)
  rw [hvm]
  exact ⟨⟨inv.frames.count, inv.frames.owned, inv.frames.backed, inv.frames.injective⟩,
    ⟨inv.swaps.count, inv.swaps.held, inv.swaps.injective, inv.swaps.regular⟩, inv.fresh⟩

theorem Inv.retired (inv : s.Inv) (hcurrent : s.current = some current) :
    (s.retire current).Parked := by
  obtain ⟨tables, pfn, count, hvm, hframes, hswaps, hothers, hcleared, -, -⟩ :=
    freeThreadPages_spec inv.frames inv.swaps (inv.currentLive current hcurrent)
  have hcleared' : ∀ j, j < maxVirtualPages → ∀ q,
      (s.vm.freeThreadPages current).view current j ≠ .inMemory q := by
    rw [hvm]
    exact hcleared
  refine ⟨hframes.exit hcleared', hswaps.exit, ?_⟩
  intro t j ht hentered hj
  have hne : t ≠ current := by
    intro same
    simp [same, retire] at ht
  change (s.vm.freeThreadPages current).view t j = _
  rw [hvm]
  change (tables t j).view = _
  rw [hothers t j hne]
  exact inv.fresh t j (by simpa [hne, retire] using ht) hentered hj

theorem Inv.created (inv : s.Inv) {ti : ThreadId} (new : s.live ti = false) :
    (s.create ti).Inv := by
  have hne : ∀ t, s.current = some t → t ≠ ti := by
    intro t ht same
    simp [← same, inv.currentLive t ht] at new
  have hview : ∀ t j, t ≠ ti → (s.vm.clearPagetable ti).view t j = s.vm.view t j :=
    fun t j h => view_clearPagetable_of_ne s.vm j h
  refine ⟨inv.frames.create new, inv.swaps.create, ?_, ?_, ?_, ?_, ?_⟩
  · intro t ht
    simpa [create, hne t ht] using inv.currentLive t ht
  · intro t ht
    simpa [create, hne t ht] using inv.currentEntered t ht
  · intro t j p ht hj hv
    exact inv.opened t j p ht hj ((hview t j (hne t ht)).symm.trans hv)
  · intro t j o ht hj hv
    exact inv.closed t j o ht hj ((hview t j (hne t ht)).symm.trans hv)
  · intro t j ht hentered hj
    change (s.vm.clearPagetable ti).view t j = _
    by_cases hsame : t = ti
    · rw [hsame, view_clearPagetable_self]
    · rw [hview t j hsame]
      exact inv.fresh t j (by simpa [create, hsame] using ht)
        (by simpa [create, hsame] using hentered) hj

theorem Inv.accessed (inv : s.Inv) {address : Nat} (h : s.access address = .ok s') : s'.Inv := by
  rcases access_cases inv h with
    ⟨-, hsame⟩ | ⟨current, vm, p, k, hcurrent, hj, -, -, hentry, hk, hslot, alloc, hs'⟩
  · rw [hsame]
    exact inv
  · rw [hs']
    exact inv.served hcurrent hj hentry hk hslot alloc

theorem Inv.stored (inv : s.Inv) (memory : Nat → UInt8) :
    ({ s with vm := { s.vm with memory := memory } } : Process).Inv :=
  ⟨⟨inv.frames.count, inv.frames.owned, inv.frames.backed, inv.frames.injective⟩,
    ⟨inv.swaps.count, inv.swaps.held, inv.swaps.injective, inv.swaps.regular⟩,
    inv.currentLive, inv.currentEntered, inv.opened, inv.closed, inv.fresh⟩

theorem allocatePage_of_step (taken : s.Step .allocatePage s') :
    ∃ address, s.allocatePage = .ok (s', address) := by
  simp only [Step, next] at taken
  obtain ⟨⟨t, address⟩, hpage, rfl⟩ := Outcome.map_eq_ok_iff.mp taken
  exact ⟨address, hpage⟩

theorem access_of_load {address : Nat} (taken : s.Step (.load address) s') :
    s.access address = .ok s' := by
  simp only [Step, next, load] at taken
  obtain ⟨⟨t, byte⟩, hload, rfl⟩ := Outcome.map_eq_ok_iff.mp taken
  cases h : s.access address with
  | error stop => simp [h] at hload
  | ok t' =>
      simp only [h, Except.ok.injEq, Prod.mk.injEq] at hload
      rw [hload.1]

theorem access_of_store {address : Nat} {byte : UInt8} (taken : s.Step (.store address byte) s') :
    ∃ t, s.access address = .ok t ∧
      s' = { t with vm := { t.vm with memory := Function.update t.vm.memory address byte } } := by
  simp only [Step, next, store] at taken
  cases h : s.access address with
  | error stop => simp [h] at taken
  | ok t =>
      simp only [h, Except.ok.injEq] at taken
      exact ⟨t, rfl, taken.symm⟩

theorem Inv.step (inv : s.Inv) {e : Event} (enabled : s.Enabled e) (taken : s.Step e s') :
    s'.Inv := by
  cases e with
  | allocatePage =>
      obtain ⟨address, h⟩ := allocatePage_of_step taken
      rcases allocatePage_cases inv h with
        ⟨hs', -⟩ | ⟨current, i, vm, p, hcurrent, hi, hunused, alloc, -, hs'⟩
      · rw [hs']
        exact inv
      · rw [hs']
        exact inv.grant hcurrent hi (by simp [hunused]) alloc
          (Mmpte.view_granted _ (frame_number_lt alloc.frame_lt)) _
  | load address => exact inv.accessed (access_of_load taken)
  | store address byte =>
      obtain ⟨t, h, hs'⟩ := access_of_store taken
      rw [hs']
      exact (inv.accessed h).stored _
  | switchTo next =>
      cases taken
      cases hcurrent : s.current with
      | none =>
          rw [switchTo_of_none hcurrent]
          exact inv.parked.enter enabled.1
      | some current =>
          rw [switchTo_of_some hcurrent]
          exact (inv.storedBack hcurrent).enter enabled.1
  | create ti =>
      cases taken
      exact inv.created enabled
  | exit next =>
      obtain ⟨current, hcurrent, ⟨-, hs'⟩ | ⟨t, ht, hs'⟩⟩ := exit_cases taken
      · rw [hs']
        exact (inv.retired hcurrent).idle rfl
      · rw [hs']
        refine (inv.retired hcurrent).enter ?_
        have hnext := enabled t ht
        have hne : t ≠ current := by
          intro same
          exact hnext.2 (same ▸ hcurrent)
        simpa [retire, hne] using hnext.1

/-- The invariant holds in every state of every run. -/
theorem Inv.reachable {main : ThreadId} {permitted : Process → Event → Prop}
    (h : ∀ s e, permitted s e → s.Enabled e)
    (reach : Runs.Reachable (fun s => s = Process.start main) permitted Process.Step s) :
    s.Inv := by
  refine reach.invariant Inv ?_ ?_
  · intro s hs
    rw [hs]
    exact Inv.start main
  · intro s e s' hpermitted taken inv
    exact inv.step (h s e hpermitted) taken

end Process

end OsDesign.Virt
