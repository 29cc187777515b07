import OsDesign.Lib.Tally
import OsDesign.Virt.Memory

/-!
The frame table against the page tables of the live threads. `FrameTable` says
that the two records of ownership agree; `Allocated` says everything that
`allocate_physical_page` can do in such a state, and the calls of `virt.c` are
followed through it.
-/
namespace OsDesign.Virt

open Loops ByteStore Tally

namespace Vm

/-- What entry `j` of thread `t` says about the page. -/
abbrev view (s : Vm) (t : ThreadId) (j : Nat) : Mmpte.View := (s.pagetables t j).view

theorem pagetables_setEntry_self (s : Vm) (t : ThreadId) (j : Nat) (e : Mmpte) :
    (s.setEntry t j e).pagetables t j = e := by
  simp [setEntry]

theorem view_setEntry_self (s : Vm) (t : ThreadId) (j : Nat) (e : Mmpte) :
    (s.setEntry t j e).view t j = e.view := by
  rw [view, pagetables_setEntry_self]

theorem pagetables_setEntry_of_ne (s : Vm) {t t' : ThreadId} {j j' : Nat} (e : Mmpte)
    (h : t' ≠ t ∨ j' ≠ j) :
    (s.setEntry t j e).pagetables t' j' = s.pagetables t' j' := by
  by_cases ht : t' = t
  · subst ht
    have hj : j' ≠ j := h.resolve_left fun hn => hn rfl
    simp [setEntry, hj]
  · simp [setEntry, ht]

theorem view_setEntry_of_ne (s : Vm) {t t' : ThreadId} {j j' : Nat} (e : Mmpte)
    (h : t' ≠ t ∨ j' ≠ j) : (s.setEntry t j e).view t' j' = s.view t' j' := by
  rw [view, pagetables_setEntry_of_ne s e h]

end Vm

/-- The frames counted, each used frame named by an entry of the thread it is
counted on, each frame named by an entry used and counted on the entry's
thread, and no frame named twice by one thread. -/
structure FrameTable (live : ThreadId → Bool) (s : Vm) : Prop where
  count : s.gPfnCount = tally maxPhysicalPages fun i => (s.gPfn i).used
  owned : ∀ i, i < maxPhysicalPages → (s.gPfn i).used = true →
    ∃ t j, live t = true ∧ j < maxVirtualPages ∧ s.view t j = .inMemory i ∧
      (s.gPfn i).thread = some t
  backed : ∀ t j p, live t = true → j < maxVirtualPages → s.view t j = .inMemory p →
    p < maxPhysicalPages ∧ (s.gPfn p).used = true ∧ (s.gPfn p).thread = some t
  injective : ∀ t j j' p, live t = true → j < maxVirtualPages → j' < maxVirtualPages →
    s.view t j = .inMemory p → s.view t j' = .inMemory p → j = j'

/-- The slots counted, each swapped-out entry naming a slot in use, no slot
named twice, and no entry in a state the code does not know. -/
structure SwapTable (live : ThreadId → Bool) (s : Vm) : Prop where
  count : s.gSwapCount = tally maxSwapSlots s.gSwap
  held : ∀ t j o, live t = true → j < maxVirtualPages → s.view t j = .swappedOut o →
    ∃ k, k < maxSwapSlots ∧ o = k * pageSize ∧ s.gSwap k = true
  injective : ∀ t j t' j' o, live t = true → j < maxVirtualPages → live t' = true →
    j' < maxVirtualPages → s.view t j = .swappedOut o → s.view t' j' = .swappedOut o →
    t = t' ∧ j = j'
  regular : ∀ t j, live t = true → j < maxVirtualPages → s.view t j ≠ .stray

variable {live : ThreadId → Bool} {s s' : Vm} {current t : ThreadId} {i j p : Nat}

/-- A used frame has one owner and one entry. -/
theorem FrameTable.owner_unique (frames : FrameTable live s) {t t' : ThreadId} {j j' p : Nat}
    (ht : live t = true) (hj : j < maxVirtualPages) (ht' : live t' = true)
    (hj' : j' < maxVirtualPages) (h : s.view t j = .inMemory p)
    (h' : s.view t' j' = .inMemory p) : t = t' ∧ j = j' := by
  have hthread := (frames.backed t j p ht hj h).2.2
  rw [(frames.backed t' j' p ht' hj' h').2.2] at hthread
  obtain rfl : t' = t := Option.some.inj hthread
  exact ⟨rfl, frames.injective t' j j' p ht hj hj' h h'⟩

/-- When the counter is at its bound every frame is used. -/
theorem FrameTable.full (frames : FrameTable live s)
    (bound : (maxPhysicalPages : Int) ≤ s.gPfnCount) :
    ∀ i, i < maxPhysicalPages → (s.gPfn i).used = true := by
  have hcount : maxPhysicalPages ≤ tally maxPhysicalPages fun i => (s.gPfn i).used := by
    have := frames.count
    omega
  exact fun i hi => all_set hcount hi

/-- The search of `evict_page` for a frame of another thread. -/
abbrev Vm.isVictim (s : Vm) (current : ThreadId) (i : Nat) : Bool :=
  (s.gPfn i).used && (s.gPfn i).thread != some current

/-- The search of `evict_page` for the entry of `thread` that names frame `i`. -/
abbrev Vm.names (s : Vm) (thread : ThreadId) (i j : Nat) : Bool :=
  (s.pagetables thread j).hardValid == 1#1 && (s.pagetables thread j).hardPageframenumber == i

/-- The victim exists: were every frame counted on one thread, its 2044 entries
would name 2048 frames. -/
theorem FrameTable.exists_victim (frames : FrameTable live s)
    (full : ∀ i, i < maxPhysicalPages → (s.gPfn i).used = true) (current : ThreadId) :
    ∃ i, i < maxPhysicalPages ∧ s.isVictim current i = true := by
  by_contra none
  have own : ∀ i, i < maxPhysicalPages → (s.gPfn i).thread = some current := by
    intro i hi
    by_contra hne
    exact none ⟨i, hi, by simp [full i hi, hne]⟩
  have entry : ∀ i, ∃ j, i < maxPhysicalPages →
      live current = true ∧ j < maxVirtualPages ∧ s.view current j = .inMemory i := by
    intro i
    by_cases hi : i < maxPhysicalPages
    · obtain ⟨t, j, ht, hj, hv, hthread⟩ := frames.owned i hi (full i hi)
      rw [own i hi] at hthread
      obtain rfl : current = t := Option.some.inj hthread
      exact ⟨j, fun _ => ⟨ht, hj, hv⟩⟩
    · exact ⟨0, fun h => absurd h hi⟩
  choose key hkey using entry
  have : maxPhysicalPages ≤ maxVirtualPages := le_of_injective_keys key
    (fun i hi => (hkey i hi).2.1) (fun i j hi hj e => by
      have h := (hkey i hi).2.2
      rw [e, (hkey j hj).2.2] at h
      exact (Mmpte.View.inMemory.inj h).symm)
  rw [maxPhysicalPages_eq, maxVirtualPages_eq] at this
  omega

/-- Both searches of `evict_page` end before the end of their tables. -/
theorem FrameTable.victim_found (frames : FrameTable live s)
    (full : ∀ i, i < maxPhysicalPages → (s.gPfn i).used = true) (current : ThreadId) :
    ∃ i thread j, firstIndex maxPhysicalPages (s.isVictim current) = some i ∧
      (s.gPfn i).thread = some thread ∧ live thread = true ∧
      firstIndex maxVirtualPages (s.names thread i) = some j := by
  obtain ⟨i₀, hi₀, hvictim⟩ := frames.exists_victim full current
  obtain ⟨i, hfirst⟩ := firstIndex_isSome (s.isVictim current) hi₀ hvictim
  obtain ⟨-, hi, -⟩ := firstIndex_eq_some.mp hfirst
  obtain ⟨t, j₀, ht, hj₀, hv₀, hthread⟩ := frames.owned i hi (full i hi)
  obtain ⟨hvalid, hpfn⟩ := Mmpte.view_eq_inMemory.mp hv₀
  obtain ⟨j, hentry⟩ := firstIndex_isSome (s.names t i) hj₀ (by simp [hvalid, hpfn])
  exact ⟨i, t, j, hfirst, hthread, ht, hentry⟩

/-- The outcomes of a successful `allocate_physical_page`: the first unused
frame is taken, or, all frames being used, the first frame of another thread is
written to a free slot and its entry marked swapped out. -/
inductive Allocated (live : ThreadId → Bool) (current : ThreadId) (s : Vm) : Vm → Nat → Prop
  | free (p : Nat) (hp : p < maxPhysicalPages) (unused : (s.gPfn p).used = false)
      (first : ∀ i, i < p → (s.gPfn i).used = true) :
      Allocated live current s
        { s with
          gPfn := Function.update s.gPfn p ⟨true, some current⟩
          gPfnCount := s.gPfnCount + 1 } p
  | evicted (p : Nat) (hp : p < maxPhysicalPages) (t : ThreadId) (j k : Nat)
      (used : (s.gPfn p).used = true) (owner : (s.gPfn p).thread = some t)
      (other : t ≠ current) (ht : live t = true) (hj : j < maxVirtualPages)
      (entry : s.view t j = .inMemory p) (hk : k < maxSwapSlots) (slot : s.gSwap k = false)
      (first : ∀ i, i < p → s.isVictim current i = false) :
      Allocated live current s
        { s.setEntry t j ((s.pagetables t j).evicted (k * pageSize)) with
          gPfn := Function.update s.gPfn p { s.gPfn p with thread := some current }
          gSwap := Function.update s.gSwap k true
          gSwapCount := s.gSwapCount + 1
          swapFile := write s.swapFile (k * pageSize)
            (read pageSize s.physicalMemory (p * pageSize)) } p

/-- With every frame used and a slot left, `evict_page` takes a frame. -/
theorem evictPage_of_room (current : ThreadId) (frames : FrameTable live s)
    (slots : s.gSwapCount = tally maxSwapSlots s.gSwap)
    (full : ∀ i, i < maxPhysicalPages → (s.gPfn i).used = true)
    (room : s.gSwapCount < maxSwapSlots) :
    ∃ s' p, s.evictPage current = .ok (s', p) ∧ Allocated live current s s' p := by
  obtain ⟨i, t, j, hfirst, hthread, ht, hentry⟩ := frames.victim_found full current
  obtain ⟨htest, hi, hbefore⟩ := firstIndex_eq_some.mp hfirst
  obtain ⟨hj, hjlt, -⟩ := firstIndex_eq_some.mp hentry
  have hother : t ≠ current := by
    intro same
    simp [hthread, same] at htest
  have hview : s.view t j = .inMemory i := by
    simpa [Mmpte.view_eq_inMemory] using hj
  have hroom : tally maxSwapSlots s.gSwap < maxSwapSlots := by
    omega
  obtain ⟨k₀, hk₀, hclear⟩ := exists_clear hroom
  obtain ⟨k, hslot⟩ := firstIndex_isSome (fun i => !s.gSwap i) hk₀ (by simp [hclear])
  obtain ⟨hk, hklt, -⟩ := firstIndex_eq_some.mp hslot
  have hcount : ¬ (maxSwapSlots : Int) ≤ s.gSwapCount := Int.not_le.mpr room
  refine ⟨_, i, ?_, .evicted i hi t j k (full i hi) hthread hother ht hjlt hview hklt
    (by simpa using hk) hbefore⟩
  simp [Vm.evictPage, hfirst, Vm.swapOut, hcount, hslot, hthread, hentry, Vm.setEntry]

/-- `evict_page` finds a victim and its entry, or ends in `swap_out`'s panic. -/
theorem evictPage_cases (current : ThreadId) (frames : FrameTable live s)
    (slots : s.gSwapCount = tally maxSwapSlots s.gSwap)
    (full : ∀ i, i < maxPhysicalPages → (s.gPfn i).used = true) :
    s.evictPage current = .error (.panic "swap_out: Swap file is full\n") ∨
      ∃ s' p, s.evictPage current = .ok (s', p) ∧ Allocated live current s s' p := by
  by_cases hcount : (maxSwapSlots : Int) ≤ s.gSwapCount
  · left
    obtain ⟨i, t, j, hfirst, -, -, -⟩ := frames.victim_found full current
    simp [Vm.evictPage, hfirst, Vm.swapOut, hcount]
  · exact .inr (evictPage_of_room current frames slots full (Int.not_le.mp hcount))

/-- While a frame is left, the first unused one is taken. -/
theorem allocatePhysicalPage_of_room (current : ThreadId) (frames : FrameTable live s)
    (room : s.gPfnCount < maxPhysicalPages) :
    ∃ p, p < maxPhysicalPages ∧ (s.gPfn p).used = false ∧
      (∀ i, i < p → (s.gPfn i).used = true) ∧
      s.allocatePhysicalPage current = .ok ({ s with
        gPfn := Function.update s.gPfn p ⟨true, some current⟩
        gPfnCount := s.gPfnCount + 1 }, p) := by
  have hroom : (tally maxPhysicalPages fun i => (s.gPfn i).used) < maxPhysicalPages := by
    have := frames.count
    omega
  obtain ⟨p₀, hp₀, hclear⟩ := exists_clear hroom
  obtain ⟨p, hfirst⟩ := firstIndex_isSome (fun i => !(s.gPfn i).used) hp₀ (by simp [hclear])
  obtain ⟨hp, hlt, hbefore⟩ := firstIndex_eq_some.mp hfirst
  refine ⟨p, hlt, by simpa using hp, fun i hi => by simpa using hbefore i hi, ?_⟩
  have hcount : ¬ (maxPhysicalPages : Int) ≤ s.gPfnCount := Int.not_le.mpr room
  simp [Vm.allocatePhysicalPage, hcount, hfirst]

/-- With the two tables in agreement `allocate_physical_page` returns a frame
below the number of frames or ends in `swap_out`'s panic. -/
theorem allocatePhysicalPage_cases (current : ThreadId) (frames : FrameTable live s)
    (slots : s.gSwapCount = tally maxSwapSlots s.gSwap) :
    s.allocatePhysicalPage current = .error (.panic "swap_out: Swap file is full\n") ∨
      ∃ s' p, s.allocatePhysicalPage current = .ok (s', p) ∧ Allocated live current s s' p := by
  by_cases hcount : (maxPhysicalPages : Int) ≤ s.gPfnCount
  · have := evictPage_cases current frames slots (frames.full hcount)
    simpa [Vm.allocatePhysicalPage, hcount] using this
  · right
    obtain ⟨p, hp, hunused, hfirst, hok⟩ :=
      allocatePhysicalPage_of_room current frames (Int.not_le.mp hcount)
    exact ⟨_, p, hok, .free p hp hunused hfirst⟩

theorem slot_offset_lt {k : Nat} (hk : k < maxSwapSlots) : k * pageSize < 2 ^ 30 := by
  rw [maxSwapSlots_eq] at hk
  change k * 4096 < 2 ^ 30
  omega

theorem frame_number_lt {p : Nat} (hp : p < maxPhysicalPages) : p < 2 ^ 20 := by
  rw [maxPhysicalPages_eq] at hp
  omega

/-- Taking a frame moves no page of `CURRENT`. -/
theorem Allocated.pagetables_current (alloc : Allocated live current s s' p) (i : Nat) :
    s'.pagetables current i = s.pagetables current i := by
  cases alloc with
  | free => rfl
  | evicted _ hp t j k used owner other => exact s.pagetables_setEntry_of_ne _ (.inl other.symm)

/-- Taking a frame neither makes nor fills an unused entry. -/
theorem Allocated.unused_iff (alloc : Allocated live current s s' p) :
    s'.view t j = .unused ↔ s.view t j = .unused := by
  cases alloc with
  | free => exact Iff.rfl
  | evicted _ hp tv jv k used owner other ht hjv entry hk =>
      by_cases hvictim : t = tv ∧ j = jv
      · obtain ⟨rfl, rfl⟩ := hvictim
        change (s.setEntry t j _).view t j = _ ↔ _
        rw [Vm.view_setEntry_self, Mmpte.view_evicted _ (slot_offset_lt hk), entry]
        simp
      · change (s.setEntry tv jv _).view t j = _ ↔ _
        rw [Vm.view_setEntry_of_ne _ _ (by tauto)]

theorem Allocated.frame_lt (alloc : Allocated live current s s' p) : p < maxPhysicalPages := by
  cases alloc with
  | free _ hp => exact hp
  | evicted _ hp t j k => exact hp

theorem Allocated.owned (alloc : Allocated live current s s' p) :
    s'.gPfn p = ⟨true, some current⟩ := by
  cases alloc with
  | free => simp
  | evicted _ _ t j k used => simp [used]

theorem Allocated.gPfn_of_ne (alloc : Allocated live current s s' p) {q : Nat} (hne : q ≠ p) :
    s'.gPfn q = s.gPfn q := by
  cases alloc <;> simp [hne]

/-- An entry that still names a frame is not the victim's, and names another frame. -/
theorem Allocated.inMemory_before (alloc : Allocated live current s s' p)
    (frames : FrameTable live s) {q : Nat} (ht : live t = true) (hj : j < maxVirtualPages)
    (hv : s'.view t j = .inMemory q) : s.view t j = .inMemory q ∧ q ≠ p := by
  cases alloc with
  | free _ hp unused =>
      refine ⟨hv, ?_⟩
      rintro rfl
      simp [(frames.backed t j q ht hj hv).2.1] at unused
  | evicted _ hp tv jv k used owner other htv hjv entry hk =>
      by_cases hvictim : t = tv ∧ j = jv
      · obtain ⟨rfl, rfl⟩ := hvictim
        change (s.setEntry t j _).view t j = _ at hv
        rw [Vm.view_setEntry_self, Mmpte.view_evicted _ (slot_offset_lt hk)] at hv
        cases hv
      · change (s.setEntry tv jv _).view t j = _ at hv
        rw [Vm.view_setEntry_of_ne _ _ (by tauto)] at hv
        refine ⟨hv, ?_⟩
        rintro rfl
        exact hvictim (frames.owner_unique ht hj htv hjv hv entry)

/-- The entries of the other frames are left alone. -/
theorem Allocated.inMemory_kept (alloc : Allocated live current s s' p) {q : Nat} (hne : q ≠ p)
    (hv : s.view t j = .inMemory q) : s'.view t j = .inMemory q := by
  cases alloc with
  | free => exact hv
  | evicted _ hp tv jv k used owner other htv hjv entry =>
      change (s.setEntry tv jv _).view t j = _
      rw [Vm.view_setEntry_of_ne]
      · exact hv
      · by_contra hvictim
        obtain ⟨rfl, rfl⟩ : t = tv ∧ j = jv := by tauto
        rw [entry] at hv
        exact hne (Mmpte.View.inMemory.inj hv).symm

/-- The number of used frames is counted on. -/
theorem Allocated.counted (alloc : Allocated live current s s' p) (frames : FrameTable live s) :
    s'.gPfnCount = tally maxPhysicalPages fun i => (s'.gPfn i).used := by
  cases alloc with
  | free _ hp unused =>
      have h : (fun i => (Function.update s.gPfn p ⟨true, some current⟩ i).used) =
          Function.update (fun i => (s.gPfn i).used) p true := by
        funext i
        by_cases hi : i = p <;> simp [hi]
      change s.gPfnCount + 1 = (tally maxPhysicalPages fun i =>
        (Function.update s.gPfn p ⟨true, some current⟩ i).used : Nat)
      rw [h, tally_set hp unused, frames.count]
      simp
  | evicted _ hp tv jv k used =>
      have h : (fun i => (Function.update s.gPfn p
          { s.gPfn p with thread := some current } i).used) = fun i => (s.gPfn i).used := by
        funext i
        by_cases hi : i = p <;> simp [hi]
      change s.gPfnCount = (tally maxPhysicalPages fun i => (Function.update s.gPfn p
        { s.gPfn p with thread := some current } i).used : Nat)
      rw [h, frames.count]

/-- The frame taken by `allocate_physical_page` and named in an entry that was
not in memory keeps the two records of ownership in agreement. -/
theorem FrameTable.grant (frames : FrameTable live s) (hlive : live current = true)
    (alloc : Allocated live current s s' p) (hj : j < maxVirtualPages)
    (absent : ∀ q, s.view current j ≠ .inMemory q) {e : Mmpte} (he : e.view = .inMemory p) :
    FrameTable live (s'.setEntry current j e) := by
  have hself : (s'.setEntry current j e).view current j = .inMemory p := by
    rw [Vm.view_setEntry_self, he]
  have hother : ∀ {t' j'}, t' ≠ current ∨ j' ≠ j →
      (s'.setEntry current j e).view t' j' = s'.view t' j' :=
    fun h => s'.view_setEntry_of_ne e h
  refine ⟨alloc.counted frames, ?_, ?_, ?_⟩
  · intro i hi hused
    by_cases hip : i = p
    · subst hip
      exact ⟨current, j, hlive, hj, hself, congrArg PfnT.thread alloc.owned⟩
    · change (s'.gPfn i).used = true at hused
      rw [alloc.gPfn_of_ne hip] at hused
      obtain ⟨t, j', ht, hj', hv, hthread⟩ := frames.owned i hi hused
      refine ⟨t, j', ht, hj', ?_, ?_⟩
      · rw [hother]
        · exact alloc.inMemory_kept hip hv
        · by_contra hsame
          obtain ⟨rfl, rfl⟩ : t = current ∧ j' = j := by tauto
          exact absent i hv
      · change (s'.gPfn i).thread = some t
        rw [alloc.gPfn_of_ne hip, hthread]
  · intro t j' q ht hj' hv
    by_cases hsame : t = current ∧ j' = j
    · obtain ⟨rfl, rfl⟩ := hsame
      rw [hself] at hv
      obtain rfl := Mmpte.View.inMemory.inj hv
      exact ⟨alloc.frame_lt, congrArg PfnT.used alloc.owned, congrArg PfnT.thread alloc.owned⟩
    · have hne : t ≠ current ∨ j' ≠ j := by tauto
      rw [hother hne] at hv
      obtain ⟨hv, hqp⟩ := alloc.inMemory_before frames ht hj' hv
      change q < maxPhysicalPages ∧ (s'.gPfn q).used = true ∧ (s'.gPfn q).thread = some t
      rw [alloc.gPfn_of_ne hqp]
      exact frames.backed t j' q ht hj' hv
  · intro t j₁ j₂ q ht hj₁ hj₂ hv₁ hv₂
    by_cases h₁ : t = current ∧ j₁ = j
    · obtain ⟨rfl, rfl⟩ := h₁
      by_contra hne
      rw [hself] at hv₁
      obtain rfl := Mmpte.View.inMemory.inj hv₁
      rw [hother (.inr (Ne.symm hne))] at hv₂
      exact (alloc.inMemory_before frames ht hj₂ hv₂).2 rfl
    · by_cases h₂ : t = current ∧ j₂ = j
      · obtain ⟨rfl, rfl⟩ := h₂
        by_contra hne
        rw [hself] at hv₂
        obtain rfl := Mmpte.View.inMemory.inj hv₂
        rw [hother (.inr hne)] at hv₁
        exact (alloc.inMemory_before frames ht hj₁ hv₁).2 rfl
      · have hne₁ : t ≠ current ∨ j₁ ≠ j := by tauto
        have hne₂ : t ≠ current ∨ j₂ ≠ j := by tauto
        rw [hother hne₁] at hv₁
        rw [hother hne₂] at hv₂
        exact frames.injective t j₁ j₂ q ht hj₁ hj₂
          (alloc.inMemory_before frames ht hj₁ hv₁).1 (alloc.inMemory_before frames ht hj₂ hv₂).1

end OsDesign.Virt
