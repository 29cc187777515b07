import OsDesign.Virt.Exhaustion

/-!
What the running thread leaves alone: the private memories of the other threads, and the
share section behind the last page of the window. The copies that a switch makes end in
front of the share section too.
-/
namespace OsDesign.Virt

open Loops ByteStore

namespace Process

/-- The bytes and the protection of the share section are as before. -/
def SameShare (s s' : Process) : Prop :=
  ∀ x, virtualShareStart ≤ x → s'.vm.memory x = s.vm.memory x ∧
    s'.vm.accessible (x / pageSize) = s.vm.accessible (x / pageSize)

/-- What a step of the running thread `t` leaves. -/
structure ActedFor (t : ThreadId) (s s' : Process) : Prop where
  inv : s'.Inv
  current : s'.current = s.current
  live : s'.live = s.live
  entered : s'.entered = s.entered
  others : ∀ u j, u ≠ t → s.live u = true → j < maxVirtualPages →
    s'.privateMemory u j = s.privateMemory u j
  share : s.SameShare s'

/-- What a switch leaves, or the end of a thread. -/
structure Leaves (s s' : Process) : Prop where
  inv : s'.Inv
  share : s.SameShare s'
  left : s.left ≤ s'.left
  threads : ∀ t, s'.live t = true → s.live t = true ∧
    ∀ j, j < maxVirtualPages → s'.privateMemory t j = s.privateMemory t j

/-- `swap_out` finds the swap file full, with at most `k` frames and slots left. -/
def Panics (s : Process) (k : Int) (stop : Stop) : Prop :=
  stop = .panic "swap_out: Swap file is full\n" ∧ s.left ≤ k

variable {s s' s'' : Process} {t current next : ThreadId} {n i j p address : Nat}

theorem Panics.weaken {k k' : Int} {stop : Stop} (panics : s.Panics k stop) (le : k ≤ k') :
    s.Panics k' stop :=
  ⟨panics.1, panics.2.trans le⟩

theorem SameShare.refl (s : Process) : s.SameShare s := fun _ _ => ⟨rfl, rfl⟩

theorem SameShare.trans (first : s.SameShare s') (second : s'.SameShare s'') :
    s.SameShare s'' :=
  fun x hx => ⟨(second x hx).1.trans (first x hx).1, (second x hx).2.trans (first x hx).2⟩

/-- A step that writes neither bytes nor protections. -/
theorem SameShare.of_eq (memory : s'.vm.memory = s.vm.memory)
    (accessible : s'.vm.accessible = s.vm.accessible) : s.SameShare s' :=
  fun _ _ => ⟨by rw [memory], by rw [accessible]⟩

theorem ActedFor.refl (t : ThreadId) (inv : s.Inv) : s.ActedFor t s :=
  ⟨inv, rfl, rfl, rfl, fun _ _ _ _ _ => rfl, .refl s⟩

theorem ActedFor.trans (first : s.ActedFor t s') (second : s'.ActedFor t s'') :
    s.ActedFor t s'' := by
  refine ⟨second.inv, second.current.trans first.current, second.live.trans first.live,
    second.entered.trans first.entered, ?_, first.share.trans second.share⟩
  intro u j hu live hj
  rw [second.others u j hu (first.live ▸ live) hj, first.others u j hu live hj]

/-- A page of the window ends in front of the share section. -/
theorem page_below_share (hi : i < maxVirtualPages) :
    pageAddress i + pageSize ≤ virtualShareStart := by
  have hmax := maxVirtualPages_eq
  change 0x60000000 + i * 4096 + 4096 ≤ 0x607FC000
  omega

theorem page_ne_share (hi : i < maxVirtualPages) {x : Nat} (hx : virtualShareStart ≤ x) :
    x / pageSize ≠ pageAddress i / pageSize := by
  have hmax := maxVirtualPages_eq
  change 0x607FC000 ≤ x at hx
  change x / 4096 ≠ (0x60000000 + i * 4096) / 4096
  omega

/-- A window page that is opened and filled. -/
theorem sameShare_filled (current : ThreadId) {vm : Vm} (memory : vm.memory = s.vm.memory)
    (accessible : vm.accessible = s.vm.accessible) (hi : i < maxVirtualPages) (e : Mmpte)
    (block : Block) : s.SameShare { s with vm := vm.pageFilled current i e block } := by
  intro x hx
  have hbelow := page_below_share hi
  refine ⟨?_, ?_⟩
  · change write vm.memory (pageAddress i) block x = _
    rw [write_apply_of_outside _ _ _ _ (.inr (hbelow.trans hx)), memory]
  · change Function.update vm.accessible (pageAddress i / pageSize) true (x / pageSize) = _
    rw [Function.update_of_ne (page_ne_share hi hx), accessible]

theorem memory_of_allocated {live : ThreadId → Bool} {vm : Vm}
    (alloc : Allocated live current s.vm vm p) :
    vm.memory = s.vm.memory ∧ vm.accessible = s.vm.accessible := by
  cases alloc <;> exact ⟨rfl, rfl⟩

/-- A page fault that is served. -/
theorem Inv.actedFor_of_access (inv : s.Inv) (t : ThreadId) (h : s.access address = .ok s') :
    s.ActedFor t s' := by
  have served := inv.served_of_access h
  have kept : ∀ u j, u ≠ t → s.live u = true → j < maxVirtualPages →
      s'.privateMemory u j = s.privateMemory u j := fun u j _ live hj => served.kept u j live hj
  rcases access_cases inv h with
    ⟨-, hsame⟩ | ⟨current, vm, p, k, -, hj, -, -, -, -, -, alloc, hs'⟩
  · rw [hsame]
    exact .refl t inv
  · obtain ⟨memory, accessible⟩ := memory_of_allocated alloc
    have filled := sameShare_filled current memory accessible hj (Mmpte.faultedIn p)
      (read pageSize vm.swapFile (k * pageSize))
    rw [hs'] at served kept ⊢
    exact ⟨served.inv, rfl, rfl, rfl, kept, filled⟩

/-- `mm_allocate_page` for the running thread. -/
theorem Inv.actedFor_of_allocatePage (inv : s.Inv) (hcurrent : s.current = some t)
    {result : Option Nat} (h : s.allocatePage = .ok (s', result)) : s.ActedFor t s' := by
  have taken : s.Step .allocatePage s' := by
    simp only [Step, next, h]
    rfl
  have others : ∀ u j, u ≠ t → s.live u = true → j < maxVirtualPages →
      s'.privateMemory u j = s.privateMemory u j := by
    intro u j hu live hj
    have spares : s.Spares u .allocatePage := by
      rw [Spares, hcurrent]
      exact fun same => hu (Option.some.inj same).symm
    exact (inv.kept_of_step (e := .allocatePage) trivial spares live taken).2 j hj
  have inv' := inv.step (e := .allocatePage) trivial taken
  rcases allocatePage_cases inv h with
    ⟨hs', -⟩ | ⟨current, i, vm, p, -, hi, -, alloc, -, hs'⟩
  · rw [hs']
    exact .refl t inv
  · obtain ⟨memory, accessible⟩ := memory_of_allocated alloc
    have filled := sameShare_filled current memory accessible hi
      ((s.vm.pagetables current i).granted p) fun _ => 0
    rw [hs'] at others inv' ⊢
    exact ⟨inv', rfl, rfl, rfl, others, filled⟩

/-- Bytes of the running thread written in front of the share section. -/
theorem Inv.actedFor_of_write (inv : s.Inv) (hcurrent : s.current = some t)
    {memory : Nat → UInt8} (share : ∀ x, virtualShareStart ≤ x → memory x = s.vm.memory x) :
    s.ActedFor t { s with vm := { s.vm with memory := memory } } := by
  refine ⟨inv.stored memory, rfl, rfl, rfl, ?_, fun x hx => ⟨share x hx, rfl⟩⟩
  intro u j hu _ _
  refine privateMemory_congr rfl ?_ (fun _ _ => rfl)
  intro p _
  have hother : s.current ≠ some u := by
    rw [hcurrent]
    exact fun same => hu (Option.some.inj same).symm
  simp only [resident, hother, if_false]

theorem mmSwitchVirtualPages_share (vm : Vm) (current : ThreadId) {x : Nat}
    (hx : virtualShareStart ≤ x) : (vm.mmSwitchVirtualPages current).memory x = vm.memory x ∧
      (vm.mmSwitchVirtualPages current).accessible (x / pageSize) =
        vm.accessible (x / pageSize) := by
  have hprotected : ∀ (u : Vm) i access, i < maxVirtualPages →
      u.accessible (x / pageSize) = vm.accessible (x / pageSize) →
        Function.update u.accessible (pageAddress i / pageSize) access (x / pageSize) =
          vm.accessible (x / pageSize) := by
    intro u i access hi same
    rw [Function.update_of_ne (page_ne_share hi hx), same]
  rw [Vm.mmSwitchVirtualPages]
  refine forRange_induct (fun n (u : Vm) => n ≤ maxVirtualPages → u.memory x = vm.memory x ∧
    u.accessible (x / pageSize) = vm.accessible (x / pageSize)) _ _ _ ?_ ?_ (Nat.le_refl _)
  · exact fun _ => ⟨rfl, rfl⟩
  · intro i u hi ih hle
    obtain ⟨memory, accessible⟩ := ih (Nat.le_of_succ_le hle)
    by_cases hvalid : (u.pagetables current i).hardValid = 1#1
    · rw [if_pos hvalid]
      refine ⟨?_, hprotected u i true hi accessible⟩
      change write u.memory (pageAddress i) _ x = _
      rw [write_apply_of_outside _ _ _ _ (.inr ((page_below_share hi).trans hx)), memory]
    · rw [if_neg hvalid]
      exact ⟨memory, hprotected u i false hi accessible⟩

theorem sameShare_enter (s : Process) (next : ThreadId) : s.SameShare (s.enter next) := by
  intro x hx
  by_cases hentered : s.entered next = true
  · simp only [enter, hentered, if_true]
    exact mmSwitchVirtualPages_share s.vm next hx
  · simp only [enter, hentered]
    exact ⟨rfl, rfl⟩

theorem Inv.sameShare_switchTo (inv : s.Inv) (next : ThreadId) :
    s.SameShare (s.switchTo next) := by
  cases hcurrent : s.current with
  | none =>
      rw [switchTo_of_none hcurrent]
      exact sameShare_enter s next
  | some current =>
      obtain ⟨bytes, hvm, -, -⟩ :=
        mmStoreVirtualPagesBack_spec inv.frames (inv.currentLive current hcurrent)
      rw [switchTo_of_some hcurrent]
      refine SameShare.trans ?_ (sameShare_enter _ next)
      rw [hvm]
      exact .of_eq rfl rfl

theorem Inv.sameShare_exit (inv : s.Inv) {next : Option ThreadId} (h : s.exit next = .ok s') :
    s.SameShare s' := by
  obtain ⟨current, hcurrent, hcases⟩ := exit_cases h
  obtain ⟨tables, pfn, count, hvm, -⟩ :=
    freeThreadPages_spec inv.frames inv.swaps (inv.currentLive current hcurrent)
  have retired : s.SameShare (s.retire current) := by
    simp only [retire, hvm]
    exact .of_eq rfl rfl
  rcases hcases with ⟨-, hs⟩ | ⟨next, -, hs⟩
  · rw [hs]
    exact retired
  · rw [hs]
    exact retired.trans (sameShare_enter _ next)

theorem Leaves.refl (inv : s.Inv) : s.Leaves s :=
  ⟨inv, .refl s, le_refl _, fun _ ht => ⟨ht, fun _ _ => rfl⟩⟩

/-- A thread that ends gives its frames back, and no slot. -/
theorem Inv.left_le_exit (inv : s.Inv) {next : Option ThreadId} (taken : s.exit next = .ok s') :
    s.left ≤ s'.left := by
  obtain ⟨current, hcurrent, hcases⟩ := exit_cases taken
  obtain ⟨tables, pfn, count, hvm, frames, -, -, -, -, fewer⟩ :=
    freeThreadPages_spec inv.frames inv.swaps (inv.currentLive current hcurrent)
  have retired : s.left ≤ (s.retire current).left := by
    have before := inv.frames.count
    have after := frames.count
    have mono := Tally.tally_mono (n := maxPhysicalPages) fun i _ => fewer i
    simp only [left, retire]
    rw [hvm] at after ⊢
    change count = (Tally.tally maxPhysicalPages fun i => (pfn i).used : Nat) at after
    change _ - s.vm.gPfnCount - s.vm.gSwapCount ≤ _ - count - s.vm.gSwapCount
    omega
  rcases hcases with ⟨-, hs⟩ | ⟨next, -, hs⟩
  · rw [hs]
    exact retired
  · rw [hs, left_enter]
    exact retired

theorem Inv.leaves_switchTo (inv : s.Inv) (mayRun : s.MayRun next) :
    s.Leaves (s.switchTo next) := by
  refine ⟨inv.step (e := .switchTo next) mayRun rfl, inv.sameShare_switchTo next,
    (inv.left_switchTo next).ge, ?_⟩
  intro t ht
  rw [live_switchTo] at ht
  exact ⟨ht, fun j hj => inv.privateMemory_switchTo next ht hj⟩

theorem Inv.leaves_exit (inv : s.Inv) {next : Option ThreadId} (enabled : s.Enabled (.exit next))
    (taken : s.exit next = .ok s') : s.Leaves s' := by
  obtain ⟨current, hcurrent, hcases⟩ := exit_cases taken
  have hlive : s'.live = Function.update s.live current false := by
    rcases hcases with ⟨-, hs⟩ | ⟨next, -, hs⟩
    · rw [hs]
      rfl
    · rw [hs, live_enter]
      rfl
  refine ⟨inv.step enabled taken, inv.sameShare_exit taken, inv.left_le_exit taken, ?_⟩
  intro t ht
  have hne : t ≠ current := by
    intro same
    rw [hlive, same, Function.update_self] at ht
    cases ht
  have before : s.live t = true := by rwa [hlive, Function.update_of_ne hne] at ht
  have spares : s.Spares t (.exit next) := by
    rw [Spares, hcurrent]
    exact fun same => hne (Option.some.inj same).symm
  exact ⟨before, (inv.kept_of_step enabled spares before taken).2⟩

/-- A byte of the share section is in no private memory. -/
theorem privateMemory_shareStore (s : Process) (hlow : virtualShareStart ≤ address)
    (byte : UInt8) (hj : j < maxVirtualPages) :
    ({ s with vm := { s.vm with memory := Function.update s.vm.memory address byte } } :
      Process).privateMemory t j = s.privateMemory t j := by
  refine privateMemory_congr rfl ?_ (fun _ _ => rfl)
  intro p _
  have same : read pageSize (Function.update s.vm.memory address byte) (pageAddress j) =
      read pageSize s.vm.memory (pageAddress j) :=
    read_update_of_outside _ _ _ _ (.inr ((page_below_share hj).trans hlow))
  simp only [resident, same]

/-- No frame and no slot is in use, and no live thread has a page. -/
theorem Inv.of_unused (frames : ∀ i, (s.vm.gPfn i).used = false) (frameCount : s.vm.gPfnCount = 0)
    (slots : ∀ i, s.vm.gSwap i = false) (slotCount : s.vm.gSwapCount = 0)
    (unused : ∀ t j, s.live t = true → s.vm.view t j = .unused)
    (currentLive : ∀ t, s.current = some t → s.live t = true)
    (currentEntered : ∀ t, s.current = some t → s.entered t = true) : s.Inv := by
  refine ⟨⟨?_, ?_, ?_, ?_⟩, ⟨?_, ?_, ?_, ?_⟩, currentLive, currentEntered, ?_, ?_,
    fun t j ht _ _ => unused t j ht⟩
  · simp [frameCount, frames, Tally.tally_none]
  · exact fun i _ h => absurd h (by simp [frames])
  · exact fun t j p ht _ h => absurd h (by simp [unused t j ht])
  · exact fun t j j' p ht _ _ h => absurd h (by simp [unused t j ht])
  · rw [slotCount, show s.vm.gSwap = fun _ => false from funext slots, Tally.tally_none]
    rfl
  · exact fun t j o ht _ h => absurd h (by simp [unused t j ht])
  · exact fun t j t' j' o ht _ _ _ h => absurd h (by simp [unused t j ht])
  · exact fun t j ht _ => by simp [unused t j ht]
  · exact fun t j p ht _ h => absurd h (by simp [unused t j (currentLive t ht)])
  · exact fun t j o ht _ h => absurd h (by simp [unused t j (currentLive t ht)])

end Process

end OsDesign.Virt
