import OsDesign.Virt.LastByte

/-!
The slots of the swap file against the page tables of the live threads. A slot
in use is named by one swapped-out entry as long as no thread ends with a page
swapped out: `free_thread_pages` gives back frames only.
-/
namespace OsDesign.Virt

open Loops ByteStore Tally

/-- Every slot in use is named by an entry of a live thread. -/
def SlotsNamed (live : ThreadId → Bool) (s : Vm) : Prop :=
  ∀ k, k < maxSwapSlots → s.gSwap k = true →
    ∃ t j, live t = true ∧ j < maxVirtualPages ∧ s.view t j = .swappedOut (k * pageSize)

section

variable {live : ThreadId → Bool} {s s' : Vm} {current t : ThreadId} {j k p : Nat}

theorem SlotsNamed.congr (named : SlotsNamed live s) (tables : s'.pagetables = s.pagetables)
    (slots : s'.gSwap = s.gSwap) : SlotsNamed live s' := by
  intro k hk hused
  rw [slots] at hused
  obtain ⟨t, j, ht, hj, hv⟩ := named k hk hused
  refine ⟨t, j, ht, hj, ?_⟩
  rw [Vm.view, tables]
  exact hv

/-- An entry that names no slot may be written. -/
theorem SlotsNamed.setEntry (named : SlotsNamed live s) (e : Mmpte)
    (unnamed : ∀ o, s.view t j ≠ .swappedOut o) : SlotsNamed live (s.setEntry t j e) := by
  intro k hk hused
  obtain ⟨t', j', ht', hj', hv⟩ := named k hk hused
  refine ⟨t', j', ht', hj', ?_⟩
  rw [Vm.view_setEntry_of_ne]
  · exact hv
  · by_contra same
    obtain ⟨rfl, rfl⟩ : t' = t ∧ j' = j := by tauto
    exact unnamed _ hv

/-- The victim's entry names the slot that is taken. -/
theorem SlotsNamed.allocated (named : SlotsNamed live s)
    (alloc : Allocated live current s s' p) : SlotsNamed live s' := by
  cases alloc with
  | free => exact named.congr rfl rfl
  | evicted _ hp t j k used owner other ht hj entry hk slot =>
      intro k' hk' hused
      by_cases same : k' = k
      · refine ⟨t, j, ht, hj, ?_⟩
        change (s.setEntry t j _).view t j = _
        rw [Vm.view_setEntry_self, Mmpte.view_evicted _ (slot_offset_lt hk), same]
      · change Function.update s.gSwap k true k' = true at hused
        rw [Function.update_of_ne same] at hused
        have kept := named.setEntry ((s.pagetables t j).evicted (k * pageSize))
          (t := t) (j := j) (fun o => by simp [entry])
        exact kept k' hk' hused

/-- Serving a fault gives back the slot whose name it overwrites. -/
theorem SlotsNamed.served (named : SlotsNamed live s) (e : Mmpte)
    (entry : s.view t j = .swappedOut (k * pageSize)) :
    SlotsNamed live
      { s.setEntry t j e with gSwap := Function.update s.gSwap k false } := by
  intro k' hk' hused
  change Function.update s.gSwap k false k' = true at hused
  have other : k' ≠ k := by
    intro same
    simp [same] at hused
  rw [Function.update_of_ne other] at hused
  obtain ⟨t', j', ht', hj', hv⟩ := named k' hk' hused
  refine ⟨t', j', ht', hj', ?_⟩
  change (s.setEntry t j e).view t' j' = _
  rw [Vm.view_setEntry_of_ne]
  · exact hv
  · by_contra same
    obtain ⟨rfl, rfl⟩ : t' = t ∧ j' = j := by tauto
    rw [entry] at hv
    have hoff := Mmpte.View.swappedOut.inj hv
    exact other (Nat.eq_of_mul_eq_mul_right (by decide : 0 < pageSize) hoff).symm

end

namespace Process

variable {s s' : Process} {current : ThreadId}

/-- The slots counted, every slot in use named by exactly one swapped-out entry
of a live thread, and every such entry naming a slot in use. -/
structure SlotsConserved (s : Process) : Prop where
  count : s.vm.gSwapCount = tally maxSwapSlots s.vm.gSwap
  named : ∀ k, k < maxSwapSlots → s.vm.gSwap k = true →
    ∃! e : ThreadId × Nat, s.live e.1 = true ∧ e.2 < maxVirtualPages ∧
      s.vm.view e.1 e.2 = .swappedOut (k * pageSize)
  held : ∀ t j o, s.live t = true → j < maxVirtualPages → s.vm.view t j = .swappedOut o →
    ∃ k, k < maxSwapSlots ∧ o = k * pageSize ∧ s.vm.gSwap k = true

/-- The live threads together have as many swapped-out pages as there are slots. -/
def AllSlotsHeld (s : Process) : Prop :=
  ∃ entries : Finset (ThreadId × Nat), entries.card = maxSwapSlots ∧
    ∀ e, e ∈ entries → s.live e.1 = true ∧ e.2 < maxVirtualPages ∧
      ∃ o, s.vm.view e.1 e.2 = .swappedOut o

/-- A thread that ends has no page swapped out. -/
def EndsResident (s : Process) : Event → Prop
  | .exit _ => ∀ t j o, s.current = some t → j < maxVirtualPages →
      s.vm.view t j ≠ .swappedOut o
  | _ => True

theorem slotsConserved_iff (inv : s.Inv) : s.SlotsConserved ↔ SlotsNamed s.live s.vm := by
  constructor
  · intro conserved k hk hused
    obtain ⟨e, he, -⟩ := conserved.named k hk hused
    exact ⟨e.1, e.2, he⟩
  · intro named
    refine ⟨inv.swaps.count, ?_, inv.swaps.held⟩
    intro k hk hused
    obtain ⟨t, j, ht, hj, hv⟩ := named k hk hused
    refine ⟨(t, j), ⟨ht, hj, hv⟩, ?_⟩
    intro e he
    obtain ⟨h₁, h₂⟩ := inv.swaps.injective e.1 e.2 t j _ he.1 he.2.1 ht hj he.2.2 hv
    exact Prod.ext h₁ h₂

theorem SlotsConserved.allSlotsHeld (conserved : s.SlotsConserved)
    (full : (maxSwapSlots : Int) ≤ s.vm.gSwapCount) : s.AllSlotsHeld := by
  have hall : ∀ k, k < maxSwapSlots → s.vm.gSwap k = true := by
    intro k hk
    refine all_set ?_ hk
    rw [conserved.count] at full
    exact_mod_cast full
  have hnames : ∀ k, ∃ e : ThreadId × Nat, k < maxSwapSlots → s.live e.1 = true ∧
      e.2 < maxVirtualPages ∧ s.vm.view e.1 e.2 = .swappedOut (k * pageSize) := by
    intro k
    by_cases hk : k < maxSwapSlots
    · obtain ⟨e, he, -⟩ := conserved.named k hk (hall k hk)
      exact ⟨e, fun _ => he⟩
    · exact ⟨(0, 0), fun h => absurd h hk⟩
  choose entry hentry using hnames
  refine ⟨(Finset.range maxSwapSlots).image entry, ?_, ?_⟩
  · rw [Finset.card_image_of_injOn, Finset.card_range]
    intro k hk k' hk' same
    have hv := (hentry k (Finset.mem_range.mp hk)).2.2
    have same' : entry k = entry k' := same
    rw [same', (hentry k' (Finset.mem_range.mp hk')).2.2] at hv
    exact (Nat.eq_of_mul_eq_mul_right (by decide : 0 < pageSize)
      (Mmpte.View.swappedOut.inj hv)).symm
  · intro e he
    obtain ⟨k, hk, rfl⟩ := Finset.mem_image.mp he
    obtain ⟨hlive, hj, hv⟩ := hentry k (Finset.mem_range.mp hk)
    exact ⟨hlive, hj, _, hv⟩

/-- `swap_out` panics only over a full swap file. -/
theorem full_of_panic {vm : Vm} {addr : Nat} {message : String}
    (h : vm.swapOut addr = .error (.panic message)) : (maxSwapSlots : Int) ≤ vm.gSwapCount := by
  by_contra room
  rw [Vm.swapOut, if_neg room] at h
  split at h <;> cases h

/-- Entering a thread changes neither entries nor slots. -/
theorem named_enter_iff (s : Process) (next : ThreadId) :
    SlotsNamed (s.enter next).live (s.enter next).vm ↔ SlotsNamed s.live s.vm := by
  rw [live_enter]
  by_cases hentered : s.entered next = true
  · obtain ⟨bytes, access, hvm, -⟩ := mmSwitchVirtualPages_spec s.vm next
    simp only [enter, hentered, if_true, hvm]
    exact ⟨fun named => named.congr rfl rfl, fun named => named.congr rfl rfl⟩
  · simp only [enter, hentered]
    exact Iff.rfl

theorem named_switchTo (inv : s.Inv) (named : SlotsNamed s.live s.vm) (next : ThreadId) :
    SlotsNamed (s.switchTo next).live (s.switchTo next).vm := by
  cases hcurrent : s.current with
  | none =>
      rw [switchTo_of_none hcurrent]
      exact (named_enter_iff s next).mpr named
  | some current =>
      obtain ⟨bytes, hvm, -⟩ :=
        mmStoreVirtualPagesBack_spec inv.frames (inv.currentLive current hcurrent)
      rw [switchTo_of_some hcurrent, hvm]
      rw [named_enter_iff]
      exact named.congr rfl rfl

theorem named_access (inv : s.Inv) (named : SlotsNamed s.live s.vm) {address : Nat}
    (h : s.access address = .ok s') : SlotsNamed s'.live s'.vm := by
  rcases access_cases inv h with
    ⟨-, hsame⟩ | ⟨current, vm, p, k, hcurrent, hj, -, -, hentry, hk, hslot, alloc, hs'⟩
  · rw [hsame]
    exact named
  · rw [hs']
    have hstays : vm.view current (miGetpteindex address) = .swappedOut (k * pageSize) := by
      rw [Vm.view, alloc.pagetables_current]
      exact hentry
    exact ((named.allocated alloc).served (Mmpte.faultedIn p) hstays).congr rfl rfl

theorem named_create (named : SlotsNamed s.live s.vm) {ti : ThreadId} (new : s.live ti = false) :
    SlotsNamed (s.create ti).live (s.create ti).vm := by
  intro k hk hused
  obtain ⟨t, j, ht, hj, hv⟩ := named k hk hused
  have hne : t ≠ ti := by
    intro same
    simp [same, new] at ht
  refine ⟨t, j, ?_, hj, ?_⟩
  · change Function.update s.live ti true t = true
    rwa [Function.update_of_ne hne]
  · exact (view_clearPagetable_of_ne s.vm j hne).trans hv

/-- What the end of a thread leaves of the entries of the others and of the slots. -/
theorem retire_vm (inv : s.Inv) (hcurrent : s.current = some current) :
    (s.retire current).vm.gSwap = s.vm.gSwap ∧
      ∀ t j, t ≠ current → (s.retire current).vm.view t j = s.vm.view t j := by
  obtain ⟨tables, pfn, count, hvm, -, -, hothers, -⟩ :=
    freeThreadPages_spec inv.frames inv.swaps (inv.currentLive current hcurrent)
  have hretired : (s.retire current).vm =
      { s.vm with pagetables := tables, gPfn := pfn, gPfnCount := count } := hvm
  rw [hretired]
  exact ⟨rfl, fun t j hne => congrArg Mmpte.view (hothers t j hne)⟩

theorem live_retire_of_ne (s : Process) {t : ThreadId} (hne : t ≠ current) :
    (s.retire current).live t = s.live t := by
  change Function.update s.live current false t = s.live t
  rw [Function.update_of_ne hne]

theorem live_retire_self (s : Process) (current : ThreadId) :
    (s.retire current).live current = false := by
  change Function.update s.live current false current = false
  rw [Function.update_self]

/-- The slots of a thread that ends stay in use; nobody else names them. -/
theorem named_retire_iff (inv : s.Inv) (hcurrent : s.current = some current)
    (named : SlotsNamed s.live s.vm) :
    SlotsNamed (s.retire current).live (s.retire current).vm ↔
      ∀ j o, j < maxVirtualPages → s.vm.view current j ≠ .swappedOut o := by
  obtain ⟨hslots, hview⟩ := retire_vm inv hcurrent
  have hlive : ∀ t, t ≠ current → (s.retire current).live t = s.live t :=
    fun t hne => s.live_retire_of_ne hne
  have hdead : (s.retire current).live current = false := s.live_retire_self current
  generalize s.retire current = r at *
  constructor
  · intro after j o hj hv
    obtain ⟨k, hk, rfl, hused⟩ :=
      inv.swaps.held current j o (inv.currentLive current hcurrent) hj hv
    rw [← hslots] at hused
    obtain ⟨t, j', ht, hj', hv'⟩ := after k hk hused
    have hne : t ≠ current := by
      intro same
      simp [same, hdead] at ht
    rw [hlive t hne] at ht
    rw [hview t j' hne] at hv'
    exact hne (inv.swaps.injective t j' current j _ ht hj'
      (inv.currentLive current hcurrent) hj hv' hv).1
  · intro resident k hk hused
    rw [hslots] at hused
    obtain ⟨t, j, ht, hj, hv⟩ := named k hk hused
    have hne : t ≠ current := by
      intro same
      rw [same] at hv
      exact resident j _ hj hv
    exact ⟨t, j, by rw [hlive t hne, ht], hj, by rw [hview t j hne, hv]⟩

/-- Every step names the slots in use again, the end of a thread exactly if the
thread has no page swapped out. -/
theorem named_step_iff (inv : s.Inv) (named : SlotsNamed s.live s.vm) {e : Event}
    (enabled : s.Enabled e) (taken : s.Step e s') :
    SlotsNamed s'.live s'.vm ↔ s.EndsResident e := by
  cases e with
  | allocatePage =>
      refine iff_of_true ?_ trivial
      obtain ⟨address, h⟩ := allocatePage_of_step taken
      rcases allocatePage_cases inv h with
        ⟨hs', -⟩ | ⟨current, i, vm, p, hcurrent, hi, hunused, alloc, -, hs'⟩
      · rw [hs']
        exact named
      · rw [hs']
        have hstays : vm.view current i = .unused := by
          rw [Vm.view, alloc.pagetables_current]
          exact hunused
        refine ((named.allocated alloc).setEntry ((s.vm.pagetables current i).granted p) ?_).congr
          rfl rfl
        simp [hstays]
  | load address => exact iff_of_true (named_access inv named (access_of_load taken)) trivial
  | store address byte =>
      refine iff_of_true ?_ trivial
      obtain ⟨t, h, hs'⟩ := access_of_store taken
      rw [hs']
      exact (named_access inv named h).congr rfl rfl
  | switchTo next =>
      cases taken
      exact iff_of_true (named_switchTo inv named next) trivial
  | create ti =>
      cases taken
      exact iff_of_true (named_create named enabled) trivial
  | exit next =>
      obtain ⟨current, hcurrent, hnext⟩ := exit_cases taken
      have hresident : s.EndsResident (.exit next) ↔
          ∀ j o, j < maxVirtualPages → s.vm.view current j ≠ .swappedOut o := by
        constructor
        · exact fun h j o => h current j o hcurrent
        · intro h t j o ht
          obtain rfl : current = t := Option.some.inj (hcurrent.symm.trans ht)
          exact h j o
      rw [hresident, ← named_retire_iff inv hcurrent named]
      rcases hnext with ⟨-, hs'⟩ | ⟨t, -, hs'⟩
      · rw [hs']
      · rw [hs', named_enter_iff]

theorem named_of_reachable {main : ThreadId}
    (reach : Runs.Reachable (fun s => s = start main)
      (fun s e => s.Enabled e ∧ s.EndsResident e) Step s) :
    s.Inv ∧ SlotsNamed s.live s.vm := by
  refine reach.invariant (fun s => s.Inv ∧ SlotsNamed s.live s.vm) ?_ ?_
  · intro s hs
    rw [hs]
    exact ⟨Inv.start main, fun k _ hused => by simp [start, mmInit] at hused⟩
  · intro s e s' permitted taken before
    exact ⟨before.1.step permitted.1 taken,
      (named_step_iff before.1 before.2 permitted.1 taken).mpr permitted.2⟩

/-- In every run in which no thread ends with a page swapped out, the slots are
conserved, `swap_out` panics only when the live threads hold all of them, and
the first such end loses a slot. -/
theorem slots_conserved {main : ThreadId}
    (reach : Runs.Reachable (fun s => s = start main)
      (fun s e => s.Enabled e ∧ s.EndsResident e) Step s) :
    s.SlotsConserved ∧
    (∀ addr message, s.vm.swapOut addr = .error (.panic message) → s.AllSlotsHeld) ∧
    ∀ e s', s.Enabled e → s.Step e s' → (s'.SlotsConserved ↔ s.EndsResident e) := by
  obtain ⟨inv, named⟩ := named_of_reachable reach
  have conserved := (slotsConserved_iff inv).mpr named
  refine ⟨conserved, fun addr message h => conserved.allSlotsHeld (full_of_panic h), ?_⟩
  intro e s' enabled taken
  rw [slotsConserved_iff (inv.step enabled taken)]
  exact named_step_iff inv named enabled taken

/-! The main thread takes a page for each of its entries, thread 1 takes the
remaining frames and one more, which evicts the main thread's page in frame 0. -/

def evictingRun : List Event :=
  [.create 1] ++ List.replicate 2044 .allocatePage ++ [.switchTo 1] ++
    List.replicate 5 .allocatePage

theorem evictingRun_steps :
    ∃ s pages j o, Runs.Steps Untouched Step (start 0) evictingRun s ∧
      s.Layout 1 pages maxPhysicalPages 1 ∧ j < maxVirtualPages ∧
      s.vm.view 0 j = .swappedOut o := by
  have hpages := maxVirtualPages_eq
  have hframes := maxPhysicalPages_eq
  have hslots := maxSwapSlots_eq
  obtain ⟨s₁, hpermitted₁, htaken₁, layout₁, -, -, hfirst₁⟩ :=
    Layout.created.allocate_of_room (by omega) (by omega)
  have howner₁ : s₁.vm.gPfn 0 = ⟨true, some 0⟩ := hfirst₁ rfl
  obtain ⟨s₂, run₂, layout₂, hkept₂⟩ := layout₁.allocate_many 2043 (by simp [hpages])
    (by rw [hframes]; omega)
  have howner₂ : s₂.vm.gPfn 0 = ⟨true, some 0⟩ := by rw [hkept₂ 0 (by rw [howner₁]), howner₁]
  obtain ⟨hswitch₃, layout₃, -, hpfn₃⟩ := layout₂.switchTo layout₂.live.2 (by decide)
  obtain ⟨s₄, run₄, layout₄, hkept₄⟩ := layout₃.allocate_many 4 (by simp [hpages])
    (by rw [hframes])
  have howner₄ : s₄.vm.gPfn 0 = ⟨true, some 0⟩ := by
    rw [hkept₄ 0 (by rw [hpfn₃, howner₂]), hpfn₃, howner₂]
  have hfull : 0 + 1 + 2043 + 4 = maxPhysicalPages := by rw [hframes]
  rw [hfull] at layout₄
  obtain ⟨s₅, hpermitted₅, htaken₅, layout₅, -, -, hevicted⟩ :=
    layout₄.allocate_of_full (by simp [hpages]) (by omega) howner₄ (by decide)
  obtain ⟨t, j, ht, hj, hentry, howner⟩ :=
    layout₄.inv.frames.owned 0 (by omega) (by rw [howner₄])
  obtain rfl : t = 0 := by
    rw [howner₄] at howner
    exact (Option.some.inj howner).symm
  obtain ⟨o, hswapped⟩ := hevicted j hj hentry
  refine ⟨s₅, _, j, o, ?_, layout₅, hj, hswapped⟩
  have first : Runs.Steps Untouched Step (start 0)
      ([.create 1] ++ List.replicate 2044 .allocatePage) s₂ :=
    .cons untouched_create rfl (.cons hpermitted₁ htaken₁ run₂)
  have last := Runs.Steps.append run₄ (.single hpermitted₅ htaken₅)
  exact (first.append (.single hswitch₃ rfl)).append last

theorem reachable_of_quiet {es : List Event}
    (quiet : ∀ next, .exit next ∉ es) (run : Runs.Steps Untouched Step (start 0) es s) :
    Runs.Reachable (fun s => s = start 0) (fun s e => s.Enabled e ∧ s.EndsResident e) Step s := by
  refine ⟨start 0, es, rfl, run.mono_of_mem ?_⟩
  intro e he s untouched
  refine ⟨untouched.1, ?_⟩
  cases e with
  | exit next => exact absurd he (quiet next)
  | allocatePage | load _ | store _ _ | switchTo _ | create _ => trivial

theorem exit_notMem_evictingRun (next : Option ThreadId) : .exit next ∉ evictingRun := by
  simp only [evictingRun, List.mem_append, List.mem_singleton, List.mem_replicate, reduceCtorEq,
    and_false, or_false, not_false_eq_true]

/-- A page of the main thread is in the swap file. -/
theorem slots_conserved_evicted :
    ∃ s : Process, s.vm.gSwapCount = 1 ∧ s.SlotsConserved := by
  obtain ⟨s, pages, j, o, run, layout, -, -⟩ := evictingRun_steps
  have reach := reachable_of_quiet exit_notMem_evictingRun run
  exact ⟨s, layout.slots, (slots_conserved reach).1⟩

/-- The main thread ends with a page in the swap file: the slot stays in use and
no live thread names it. -/
theorem slot_lost :
    ∃ s s', Runs.Reachable (fun s => s = start 0) Enabled Step s ∧ s.current = some 0 ∧
      s.Enabled (.exit (some 1)) ∧ s.Step (.exit (some 1)) s' ∧ ¬ s'.SlotsConserved := by
  obtain ⟨s, pages, j, o, run, layout, hj, hentry⟩ := evictingRun_steps
  obtain ⟨hswitch, layout', htables, -⟩ := layout.switchTo layout.live.1 (by decide)
  have named := named_switchTo layout.inv
    (named_of_reachable (reachable_of_quiet exit_notMem_evictingRun run)).2 0
  have reach : Runs.Reachable (fun s => s = start 0) Enabled Step (s.switchTo 0) :=
    ⟨start 0, _, rfl,
      (run.append (.single hswitch rfl)).mono fun s e untouched => untouched.1⟩
  have enabled : (s.switchTo 0).Enabled (.exit (some 1)) := by
    intro t ht
    obtain rfl : 1 = t := Option.some.inj ht
    refine ⟨layout'.live.2, ?_⟩
    rw [layout'.current]
    decide
  have hexit : (s.switchTo 0).Step (.exit (some 1)) (((s.switchTo 0).retire 0).enter 1) := by
    simp only [Step, next, exit, layout'.current]
  have swapped : (s.switchTo 0).vm.view 0 j = .swappedOut o := by
    rw [Vm.view, htables]
    exact hentry
  refine ⟨s.switchTo 0, _, reach, layout'.current, enabled, hexit, ?_⟩
  rw [slotsConserved_iff (layout'.inv.step enabled hexit), named_enter_iff,
    named_retire_iff layout'.inv layout'.current named]
  exact fun resident => resident j o hj swapped

end Process

end OsDesign.Virt
