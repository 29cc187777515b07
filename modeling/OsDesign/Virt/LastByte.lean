import OsDesign.Virt.Observation

/-!
Which loads and stores the page-fault handler can serve. Its test is
`si_addr < VIRTUAL_HEAP_END`, and `VIRTUAL_HEAP_END` is the address of the last
byte of the window, so that one byte of a page that is swapped out cannot be
reached. A run first evicts the page of that byte.
-/
namespace OsDesign.Virt

open Loops ByteStore

/-! The run that evicts the page of the last byte. Thread 1 takes the first
frame, the main thread 0 the next 2043 and thread 1 the rest; then page 2043 of
the main thread takes the first frame over, and thread 1 takes it back. -/

namespace Process

def lastByteRun : List Event :=
  [.create 1, .switchTo 1, .allocatePage, .switchTo 0] ++
    List.replicate 2043 .allocatePage ++ [.switchTo 1] ++ List.replicate 4 .allocatePage ++
    [.switchTo 0, .allocatePage, .switchTo 1, .allocatePage, .switchTo 0]

/-- A step that is no load or store. -/
def Untouched (s : Process) (e : Event) : Prop :=
  s.Enabled e ∧ ∀ address byte, e ≠ .load address ∧ e ≠ .store address byte

/-- Where a run with allocations only stands: who runs, how many pages each of
the two threads has, and how many frames and slots are taken. -/
structure Layout (s : Process) (running : ThreadId) (pages : ThreadId → Nat)
    (frames slots : Nat) : Prop where
  inv : s.Inv
  current : s.current = some running
  live : s.live 0 = true ∧ s.live 1 = true
  filled : ∀ t j, j < maxVirtualPages → (s.vm.view t j = .unused ↔ pages t ≤ j)
  frames : s.vm.gPfnCount = frames
  slots : s.vm.gSwapCount = slots

variable {s s' : Process} {r : ThreadId} {pages : ThreadId → Nat} {frames slots : Nat}

theorem switchTo_vm (layout : s.Layout r pages frames slots) (next : ThreadId) :
    (s.switchTo next).vm.pagetables = s.vm.pagetables ∧
      (s.switchTo next).vm.gPfn = s.vm.gPfn ∧
      (s.switchTo next).vm.gPfnCount = s.vm.gPfnCount ∧
      (s.switchTo next).vm.gSwapCount = s.vm.gSwapCount ∧
      (s.switchTo next).current = some next := by
  obtain ⟨bytes, hstored, -, -⟩ :=
    mmStoreVirtualPagesBack_spec layout.inv.frames (layout.inv.currentLive r layout.current)
  rw [switchTo_of_some layout.current, hstored]
  by_cases hentered : s.entered next = true
  · obtain ⟨bytes', access, hswitched, -, -, -⟩ :=
      mmSwitchVirtualPages_spec { s.vm with physicalMemory := bytes } next
    simp [enter, hentered, hswitched]
  · simp [enter, hentered]

theorem Layout.switchTo (layout : s.Layout r pages frames slots) {next : ThreadId}
    (hlive : s.live next = true) (hne : next ≠ r) :
    s.Untouched (.switchTo next) ∧ (s.switchTo next).Layout next pages frames slots ∧
      (s.switchTo next).vm.pagetables = s.vm.pagetables ∧
      (s.switchTo next).vm.gPfn = s.vm.gPfn := by
  have henabled : s.Enabled (.switchTo next) := by
    refine ⟨hlive, ?_⟩
    rw [layout.current]
    intro same
    exact hne (Option.some.inj same).symm
  obtain ⟨htables, hpfn, hframes, hslots, hcurrent⟩ := switchTo_vm layout next
  refine ⟨⟨henabled, by simp⟩, ⟨layout.inv.step henabled rfl, hcurrent, ?_, ?_, ?_, ?_⟩, htables,
    hpfn⟩
  · rw [live_switchTo]
    exact layout.live
  · intro t j hj
    rw [Vm.view, htables]
    exact layout.filled t j hj
  · rw [hframes, layout.frames]
  · rw [hslots, layout.slots]

theorem Layout.allocate (layout : s.Layout r pages frames slots)
    (room : pages r < maxVirtualPages) {vm : Vm} {p frames' slots' : Nat}
    (hok : s.vm.allocatePhysicalPage r = .ok (vm, p)) (alloc : Allocated s.live r s.vm vm p)
    (hframes : vm.gPfnCount = frames') (hslots : vm.gSwapCount = slots') :
    ∃ s', s.Untouched .allocatePage ∧ s.Step .allocatePage s' ∧
      s'.Layout r (Function.update pages r (pages r + 1)) frames' slots' ∧
      s'.vm = vm.pageFilled r (pages r) ((s.vm.pagetables r (pages r)).granted p) (fun _ => 0) := by
  have hunused : s.vm.view r (pages r) = .unused := (layout.filled r _ room).mpr (Nat.le_refl _)
  have hbefore : ∀ j, j < pages r → s.vm.view r j ≠ .unused := by
    intro j hj hv
    have := (layout.filled r j (by omega)).mp hv
    omega
  have hcall := mmAllocatePage_of_allocated room hunused hbefore hok alloc
  have hentry : ((s.vm.pagetables r (pages r)).granted p).view = .inMemory p :=
    Mmpte.view_granted _ (frame_number_lt alloc.frame_lt)
  have inv := layout.inv.grant layout.current room (by simp [hunused]) alloc hentry (fun _ => 0)
  refine ⟨_, ⟨trivial, by simp⟩, ?_, ⟨inv, layout.current, layout.live, ?_, hframes, hslots⟩, rfl⟩
  · simp only [Step, next, allocatePage_of_some layout.current, hcall, Except.map]
  · intro t j hj
    change (vm.setEntry r (pages r) ((s.vm.pagetables r (pages r)).granted p)).view t j = _ ↔ _
    by_cases hr : t = r
    · subst hr
      rw [Function.update_self]
      by_cases hji : j = pages t
      · subst hji
        rw [Vm.view_setEntry_self, hentry]
        simp
      · have hkept : vm.view t j = s.vm.view t j := by
          rw [Vm.view, alloc.pagetables_current]
        rw [Vm.view_setEntry_of_ne _ _ (.inr hji), hkept, layout.filled t j hj]
        omega
    · rw [Vm.view_setEntry_of_ne _ _ (.inl hr), Function.update_of_ne hr, alloc.unused_iff,
        layout.filled t j hj]

/-- While frames are left, an allocation moves nothing that is there. -/
theorem Layout.allocate_of_room (layout : s.Layout r pages frames slots)
    (room : pages r < maxVirtualPages) (left : frames < maxPhysicalPages) :
    ∃ s', s.Untouched .allocatePage ∧ s.Step .allocatePage s' ∧
      s'.Layout r (Function.update pages r (pages r + 1)) (frames + 1) slots ∧
      (∃ p, s'.vm.view r (pages r) = .inMemory p) ∧
      (∀ i, (s.vm.gPfn i).used = true → s'.vm.gPfn i = s.vm.gPfn i) ∧
      ((s.vm.gPfn 0).used = false → s'.vm.gPfn 0 = ⟨true, some r⟩) := by
  have hcount : s.vm.gPfnCount < maxPhysicalPages := by
    rw [layout.frames]
    exact_mod_cast left
  obtain ⟨p, hp, hunused, hfirst, hok⟩ :=
    allocatePhysicalPage_of_room r layout.inv.frames hcount
  obtain ⟨s', permitted, taken, layout', hvm⟩ := layout.allocate room hok
    (.free p hp hunused hfirst) (by rw [layout.frames]; rfl) layout.slots
  refine ⟨s', permitted, taken, layout', ⟨p, ?_⟩, ?_, ?_⟩
  · rw [hvm]
    change (Vm.setEntry _ r (pages r) _).view r (pages r) = _
    rw [Vm.view_setEntry_self, Mmpte.view_granted _ (frame_number_lt hp)]
  · intro i hi
    have hne : i ≠ p := by
      intro same
      simp [same, hunused] at hi
    rw [hvm]
    exact Function.update_of_ne hne _ _
  · intro hzero
    have hp0 : p = 0 := by
      by_contra hne
      simp [hfirst 0 (Nat.pos_of_ne_zero hne)] at hzero
    rw [hvm]
    change Function.update s.vm.gPfn p _ 0 = _
    rw [hp0, Function.update_self]

theorem Layout.allocate_many (n : Nat) (layout : s.Layout r pages frames slots)
    (room : pages r + n ≤ maxVirtualPages) (left : frames + n ≤ maxPhysicalPages) :
    ∃ s', Runs.Steps Untouched Step s (List.replicate n .allocatePage) s' ∧
      s'.Layout r (Function.update pages r (pages r + n)) (frames + n) slots ∧
      ∀ i, (s.vm.gPfn i).used = true → s'.vm.gPfn i = s.vm.gPfn i := by
  induction n generalizing s pages frames with
  | zero =>
      refine ⟨s, .nil s, ?_, fun _ _ => rfl⟩
      simpa using layout
  | succ n ih =>
      obtain ⟨s₁, permitted, taken, layout₁, -, hkept₁, -⟩ :=
        layout.allocate_of_room (by omega) (by omega)
      obtain ⟨s₂, run, layout₂, hkept₂⟩ := ih layout₁
        (by rw [Function.update_self]; omega) (by omega)
      refine ⟨s₂, .cons permitted taken run, ?_, ?_⟩
      · rw [Function.update_self, Function.update_idem] at layout₂
        have hpages : pages r + 1 + n = pages r + (n + 1) := by omega
        have hframes : frames + 1 + n = frames + (n + 1) := by omega
        rwa [hpages, hframes] at layout₂
      · intro i hi
        rw [hkept₂ i (by rw [hkept₁ i hi]; exact hi), hkept₁ i hi]

/-- With every frame taken, the frame of another thread that comes first is
taken over, and the page that was in it goes to the swap file. -/
theorem Layout.allocate_of_full (layout : s.Layout r pages maxPhysicalPages slots)
    (room : pages r < maxVirtualPages) (left : slots < maxSwapSlots) {u : ThreadId}
    (hfirst : s.vm.gPfn 0 = ⟨true, some u⟩) (hne : u ≠ r) :
    ∃ s', s.Untouched .allocatePage ∧ s.Step .allocatePage s' ∧
      s'.Layout r (Function.update pages r (pages r + 1)) maxPhysicalPages (slots + 1) ∧
      s'.vm.gPfn 0 = ⟨true, some r⟩ ∧ s'.vm.view r (pages r) = .inMemory 0 ∧
      ∀ j, j < maxVirtualPages → s.vm.view u j = .inMemory 0 →
        ∃ o, s'.vm.view u j = .swappedOut o := by
  have hcount : (maxPhysicalPages : Int) ≤ s.vm.gPfnCount := by rw [layout.frames]
  have hfull := layout.inv.frames.full hcount
  have hslots : s.vm.gSwapCount < maxSwapSlots := by
    rw [layout.slots]
    exact_mod_cast left
  obtain ⟨vm, p, hok, alloc⟩ := evictPage_of_room r layout.inv.frames
    layout.inv.swaps.count hfull hslots
  have hcall : s.vm.allocatePhysicalPage r = .ok (vm, p) := by
    rw [Vm.allocatePhysicalPage, if_pos hcount, hok]
  cases alloc with
  | free _ hp unused => simp [hfull p hp] at unused
  | evicted _ hp t jv k used owner other ht hjv entry hk slot first =>
      have hp0 : p = 0 := by
        by_contra hp0
        have := first 0 (Nat.pos_of_ne_zero hp0)
        simp [Vm.isVictim, hfirst, hne] at this
      subst hp0
      rw [hfirst] at owner
      obtain rfl : u = t := Option.some.inj owner
      obtain ⟨s', permitted, taken, layout', hvm⟩ := layout.allocate room hcall
        (.evicted 0 hp u jv k used (by rw [hfirst]) other ht hjv entry hk slot first)
        layout.frames (by rw [layout.slots]; rfl)
      refine ⟨s', permitted, taken, layout', ?_, ?_, ?_⟩
      · rw [hvm]
        change Function.update s.vm.gPfn 0 ⟨(s.vm.gPfn 0).used, some r⟩ 0 = _
        rw [Function.update_self, used]
      · rw [hvm]
        change (Vm.setEntry _ r (pages r) _).view r (pages r) = _
        rw [Vm.view_setEntry_self, Mmpte.view_granted _ (frame_number_lt hp)]
      · intro j hj hv
        obtain rfl : j = jv := layout.inv.frames.injective u j jv 0 ht hj hjv hv entry
        refine ⟨k * pageSize, ?_⟩
        rw [hvm]
        change (Vm.setEntry _ r (pages r) _).view u j = _
        rw [Vm.view_setEntry_of_ne _ _ (.inl other)]
        change (s.vm.setEntry u j _).view u j = _
        rw [Vm.view_setEntry_self, Mmpte.view_evicted _ (slot_offset_lt hk)]

/-- The runs below begin with a second thread. -/
theorem untouched_create : (start 0).Untouched (.create 1) :=
  ⟨(by decide : (start 0).live 1 = false), by simp⟩

theorem Layout.created : ((start 0).create 1).Layout 0 (fun _ => 0) 0 0 := by
  have inv : ((start 0).create 1).Inv := (Inv.start 0).created (by decide)
  refine ⟨inv, rfl, ⟨by decide, by decide⟩, ?_, rfl, rfl⟩
  intro t j _
  have hunused : ((start 0).create 1).vm.view t j = .unused := by
    by_cases ht : t = 1
    · rw [ht]
      exact view_clearPagetable_self _ 1 j
    · exact (view_clearPagetable_of_ne _ j ht).trans Mmpte.view_zero
  simp [hunused]

/-- With every frame taken, thread 1 takes frame 0 back from the main thread,
whose page in it goes to the swap file. -/
theorem Layout.taken_back {j : Nat} (layout : s.Layout 0 pages maxPhysicalPages slots)
    (room : pages 1 < maxVirtualPages) (left : slots < maxSwapSlots)
    (hfirst : s.vm.gPfn 0 = ⟨true, some 0⟩) (hj : j < maxVirtualPages)
    (hentry : s.vm.view 0 j = .inMemory 0) :
    s.Untouched (.switchTo 1) ∧ (s.switchTo 1).current = some 1 ∧
      ∃ s' o, (s.switchTo 1).Untouched .allocatePage ∧ (s.switchTo 1).Step .allocatePage s' ∧
        s'.Untouched (.switchTo 0) ∧ (s'.switchTo 0).current = some 0 ∧
        (s'.switchTo 0).vm.view 0 j = .swappedOut o ∧
        (s'.switchTo 0).vm.gSwapCount = (slots + 1 : Nat) := by
  obtain ⟨hswitch₁, layout₁, htables₁, hpfn₁⟩ := layout.switchTo layout.live.2 (by decide)
  obtain ⟨s', permitted, taken, layout₂, -, -, hevicted⟩ :=
    layout₁.allocate_of_full room left (by rw [hpfn₁, hfirst]) (by decide)
  obtain ⟨o, hswapped⟩ := hevicted j hj (by rw [Vm.view, htables₁]; exact hentry)
  obtain ⟨hswitch₃, layout₃, htables₃, -⟩ := layout₂.switchTo layout₂.live.1 (by decide)
  exact ⟨hswitch₁, layout₁.current, s', o, permitted, taken, hswitch₃, layout₃.current,
    by rw [Vm.view, htables₃]; exact hswapped, layout₃.slots⟩

/-- Up to where the main thread has its last page, in frame 0. -/
theorem lastPage_steps :
    ∃ s pages, Runs.Steps Untouched Step (start 0)
        ([.create 1, .switchTo 1, .allocatePage, .switchTo 0] ++
          List.replicate 2043 .allocatePage ++ [.switchTo 1] ++ List.replicate 4 .allocatePage ++
          [.switchTo 0, .allocatePage]) s ∧
      s.Layout 0 pages maxPhysicalPages 1 ∧ pages 1 < maxVirtualPages ∧
      s.vm.gPfn 0 = ⟨true, some 0⟩ ∧ s.vm.view 0 2043 = .inMemory 0 := by
  have hpages := maxVirtualPages_eq
  have hframes := maxPhysicalPages_eq
  have hslots := maxSwapSlots_eq
  have layout₁ := Layout.created
  obtain ⟨hswitch₂, layout₂, -, hpfn₂⟩ := layout₁.switchTo layout₁.live.2 (by decide)
  obtain ⟨s₃, hpermitted₃, htaken₃, layout₃, -, -, hfirst₃⟩ :=
    layout₂.allocate_of_room (by omega) (by omega)
  have howner₃ : s₃.vm.gPfn 0 = ⟨true, some 1⟩ := hfirst₃ (by rw [hpfn₂]; rfl)
  obtain ⟨hswitch₄, layout₄, -, hpfn₄⟩ := layout₃.switchTo layout₃.live.1 (by decide)
  obtain ⟨s₅, run₅, layout₅, hkept₅⟩ := layout₄.allocate_many 2043 (by simp [hpages])
    (by rw [hframes]; omega)
  have howner₅ : s₅.vm.gPfn 0 = ⟨true, some 1⟩ := by
    rw [hkept₅ 0 (by rw [hpfn₄, howner₃]), hpfn₄, howner₃]
  obtain ⟨hswitch₆, layout₆, -, hpfn₆⟩ := layout₅.switchTo layout₅.live.2 (by decide)
  obtain ⟨s₇, run₇, layout₇, hkept₇⟩ := layout₆.allocate_many 4 (by simp [hpages])
    (by rw [hframes])
  have howner₇ : s₇.vm.gPfn 0 = ⟨true, some 1⟩ := by
    rw [hkept₇ 0 (by rw [hpfn₆, howner₅]), hpfn₆, howner₅]
  obtain ⟨hswitch₈, layout₈, -, hpfn₈⟩ := layout₇.switchTo layout₇.live.1 (by decide)
  have hfull : 0 + 1 + 2043 + 4 = maxPhysicalPages := by rw [hframes]
  rw [hfull] at layout₈
  obtain ⟨s₉, hpermitted₉, htaken₉, layout₉, howner₉, hentry₉, -⟩ :=
    layout₈.allocate_of_full (by simp [hpages]) (by omega) (by rw [hpfn₈, howner₇]) (by decide)
  refine ⟨s₉, _, ?_, layout₉, by simp [hpages], howner₉, hentry₉⟩
  have run₄ : Runs.Steps Untouched Step (start 0)
      [.create 1, .switchTo 1, .allocatePage, .switchTo 0] _ :=
    .cons untouched_create rfl
      (.cons hswitch₂ rfl (.cons hpermitted₃ htaken₃ (.single hswitch₄ rfl)))
  have run₉ := Runs.Steps.cons hswitch₈ rfl (.single hpermitted₉ htaken₉)
  exact (((run₄.append run₅).append (.single hswitch₆ rfl)).append run₇).append run₉

/-- The run ends with the main thread running and its last page swapped out. -/
theorem lastByteRun_steps :
    ∃ s o, Runs.Steps Untouched Step (start 0) lastByteRun s ∧ s.current = some 0 ∧
      s.vm.view 0 2043 = .swappedOut o ∧ s.vm.gSwapCount = 2 := by
  have hpages := maxVirtualPages_eq
  have hslots := maxSwapSlots_eq
  obtain ⟨s, pages, run, layout, room, howner, hentry⟩ := lastPage_steps
  obtain ⟨hswitch, -, s', o, permitted, taken, hswitch', hcurrent, hswapped, hcount⟩ :=
    layout.taken_back room (by omega) howner (by omega) hentry
  have back := Runs.Steps.cons hswitch rfl (.cons permitted taken (.single hswitch' rfl))
  refine ⟨_, o, ?_, hcurrent, hswapped, hcount⟩
  have whole := run.append back
  rw [List.append_assoc] at whole
  exact whole

end Process

namespace Observed

/-- The load returns the byte, or the process panics over a full swap file. -/
def LoadServed (o : Observed) (address : Nat) (byte : UInt8) : Prop :=
  (∃ s, o.process.load address = .ok (s, byte)) ∨
    o.process.load address = .error (.panic "swap_out: Swap file is full\n")

/-- The store returns, or the process panics over a full swap file. -/
def StoreServed (o : Observed) (address : Nat) (byte : UInt8) : Prop :=
  (∃ s, o.process.store address byte = .ok s) ∨
    o.process.store address byte = .error (.panic "swap_out: Swap file is full\n")

/-- The address is below the bound of the handler, or its page is in memory. -/
def InReach (o : Observed) (t : ThreadId) (address : Nat) : Prop :=
  address < virtualHeapEnd ∨
    (o.process.vm.pagetables t (miGetpteindex address)).hardValid = 1#1

variable {o o' : Observed} {t : ThreadId} {address : Nat} {block : Block}

theorem permitted_of_untouched {e : Event} (untouched : o.process.Untouched e) :
    o.Permitted e := by
  refine ⟨untouched.1, ?_⟩
  cases e with
  | load address => exact absurd rfl (untouched.2 address 0).1
  | store address byte => exact absurd rfl (untouched.2 address byte).2
  | _ => trivial

/-- A run without loads and stores is a run next to any private memories. -/
theorem exists_steps {s s' : Process} {es : List Event}
    (run : Runs.Steps Process.Untouched Process.Step s es s') (m : PrivateMemory) :
    ∃ m', Runs.Steps Permitted Step ⟨s, m⟩ es ⟨s', m'⟩ := by
  induction run generalizing m with
  | nil s => exact ⟨m, .nil _⟩
  | @cons s s₁ s₂ e es untouched taken _ ih =>
      obtain ⟨m', run⟩ := ih (m.record s e)
      exact ⟨m', .cons (permitted_of_untouched untouched) ⟨taken, rfl⟩ run⟩

/-- An entry that is not unused stands for a page with bytes. -/
theorem Agree.exists_block (agree : o.Agree) {j : Nat} (ht : o.process.live t = true)
    (hj : j < maxVirtualPages) (hused : o.process.vm.view t j ≠ .unused) :
    ∃ block, o.memory t j = some block := by
  rw [agree.agrees t j ht hj]
  cases h : o.process.vm.view t j with
  | unused => exact absurd h hused
  | inMemory p => exact ⟨_, Process.privateMemory_of_inMemory h⟩
  | swappedOut off => exact ⟨_, Process.privateMemory_of_swappedOut h⟩
  | stray => exact absurd h (agree.inv.swaps.regular t j ht hj)

theorem Agree.access_of_inReach (agree : o.Agree) (hcurrent : o.process.current = some t)
    (owns : o.Owns t address block) (reach : o.InReach t address) :
    (∃ s, o.process.access address = .ok s) ∨
      o.process.access address = .error (.panic "swap_out: Swap file is full\n") := by
  rcases agree.owned_cases hcurrent owns with ⟨p, -, hopen⟩ | ⟨k, hentry, hclosed⟩
  · exact .inl ⟨o.process, by rw [Process.access, if_pos hopen]⟩
  · have hhigh : address < virtualHeapEnd :=
      reach.resolve_right (Mmpte.view_eq_swappedOut.mp hentry).1
    rcases pagefaultHandler_swappedOut agree.inv.frames agree.inv.swaps
      (agree.inv.currentLive t hcurrent) owns.1 hhigh hentry with
      ⟨-, h⟩ | ⟨vm, p, k, -, -, -, -, h⟩
    · right
      simp only [Process.access, hclosed, hcurrent, h]
      rfl
    · left
      simp only [Process.access, hclosed, hcurrent, h]
      exact ⟨_, rfl⟩

theorem Agree.access_of_not_inReach (agree : o.Agree) (hcurrent : o.process.current = some t)
    (owns : o.Owns t address block) (reach : ¬ o.InReach t address) :
    o.process.access address = .error .segv := by
  have hhigh : ¬ address < virtualHeapEnd := fun h => reach (.inl h)
  rcases agree.owned_cases hcurrent owns with ⟨p, hp, -⟩ | ⟨k, -, hclosed⟩
  · exact absurd (.inr (Mmpte.view_eq_inMemory.mp hp).1) reach
  · have hsegv : o.process.vm.pagefaultHandler t address = .error .segv := by
      rw [Vm.pagefaultHandler, if_neg fun h => hhigh h.2]
    simp only [Process.access, hclosed, hcurrent, hsegv]
    rfl

/-- In every state of a run that touches only allocated pages, a load by
`CURRENT` is answered with the byte of its private memory, and a store is
accepted, exactly when the handler can serve the address. -/
theorem served_iff_inReach (main : ThreadId)
    (reach : Runs.Reachable (fun o => o = Observed.start main) Permitted Step o)
    (hcurrent : o.process.current = some t) (owns : o.Owns t address block) :
    (o.LoadServed address (block (PrivateMemory.offset address)) ↔ o.InReach t address) ∧
      ∀ byte, o.StoreServed address byte ↔ o.InReach t address := by
  have agree := Agree.reachable reach
  by_cases hreach : o.InReach t address
  · refine ⟨⟨fun _ => hreach, fun _ => ?_⟩, fun byte => ⟨fun _ => hreach, fun _ => ?_⟩⟩
    · rcases agree.access_of_inReach hcurrent owns hreach with ⟨s, h⟩ | h
      · left
        refine ⟨s, ?_⟩
        simp only [Process.load, h, agree.memory_read hcurrent owns h]
      · right
        simp only [Process.load, h]
    · rcases agree.access_of_inReach hcurrent owns hreach with ⟨s, h⟩ | h
      · left
        simp only [Process.store, h]
        exact ⟨_, rfl⟩
      · right
        simp only [Process.store, h]
  · have hsegv := agree.access_of_not_inReach hcurrent owns hreach
    refine ⟨⟨fun served => ?_, fun h => absurd h hreach⟩,
      fun byte => ⟨fun served => ?_, fun h => absurd h hreach⟩⟩
    · simp [LoadServed, Process.load, hsegv] at served
    · simp [StoreServed, Process.store, hsegv] at served

theorem record_allocatePage_of_ne (m : PrivateMemory) {s : Process} {u : ThreadId}
    (hcurrent : s.current = some u) (hne : t ≠ u) : m.record s .allocatePage t = m t := by
  funext j
  simp only [PrivateMemory.record, hcurrent]
  cases s.allocatePage with
  | error stop => rfl
  | ok result =>
      obtain ⟨s', _ | address⟩ := result
      · rfl
      · exact (m.grant_apply u t _ j).trans (if_neg fun same => hne same.1)

/-- `CURRENT` stores a byte in a page that it has in memory. -/
theorem Agree.exists_store (agree : o.Agree) {pages : ThreadId → Nat} {frames slots j p : Nat}
    (layout : o.process.Layout t pages frames slots) (hj : j < maxVirtualPages)
    (hentry : o.process.vm.view t j = .inMemory p) (byte : UInt8) :
    ∃ o' block, o.Permitted (.store (pageAddress j) byte) ∧
      o.Step (.store (pageAddress j) byte) o' ∧ o'.process.Layout t pages frames slots ∧
      o'.process.vm.gPfn = o.process.vm.gPfn ∧
      o'.process.vm.pagetables = o.process.vm.pagetables ∧
      o'.process.entered = o.process.entered ∧
      o'.memory t j = some block ∧ block (PrivateMemory.offset (pageAddress j)) = byte ∧
      (∀ u, u ≠ t → o'.memory u = o.memory u) ∧
      o'.process.vm.accessible (pageAddress j / pageSize) = true ∧
      o'.process.vm.memory (pageAddress j) = byte := by
  have hlive := layout.inv.currentLive t layout.current
  obtain ⟨block, hblock⟩ := agree.exists_block hlive hj (by simp [hentry])
  have hindex := miGetpteindex_pageAddress j
  have owns : o.Owns t (pageAddress j) block :=
    ⟨Nat.le_add_right _ _, by rw [hindex]; exact hblock⟩
  have hopen := layout.inv.opened t j p layout.current hj hentry
  let memory := Function.update o.process.vm.memory (pageAddress j) byte
  refine ⟨⟨{ o.process with vm := { o.process.vm with memory } },
      o.memory.store t (pageAddress j) byte⟩,
    Function.update block (PrivateMemory.offset (pageAddress j)) byte,
    ⟨trivial, t, block, layout.current, owns⟩, ⟨?_, ?_⟩,
    ⟨layout.inv.stored memory, layout.current, layout.live, layout.filled, layout.frames,
      layout.slots⟩, rfl, rfl, rfl, ?_, Function.update_self .., ?_, hopen,
    Function.update_self ..⟩
  · change o.process.store (pageAddress j) byte = _
    rw [Process.store, Process.access, if_pos hopen]
  · simp only [PrivateMemory.record, layout.current]
  · change o.memory.store t (pageAddress j) byte t j = _
    rw [PrivateMemory.store_apply, if_pos ⟨rfl, hindex.symm⟩, hblock]
    rfl
  · intro u hne
    funext i
    exact (o.memory.store_apply t u (pageAddress j) i byte).trans (if_neg fun same => hne same.1)

/-- The main thread stores in its last page, thread 1 takes the frame of that
page, and the main thread is back: the page is in the swap file, and a load
gives the byte. -/
theorem served_from_swap_file :
    ∃ (o : Observed) (off : Nat), o.process.current = some 0 ∧
      o.process.vm.view 0 2043 = .swappedOut off ∧ o.LoadServed (pageAddress 2043) 42 ∧
      ∀ byte, o.StoreServed (pageAddress 2043) byte := by
  have hpages := maxVirtualPages_eq
  have hslots := maxSwapSlots_eq
  obtain ⟨s₁, pages, run₁, layout₁, room, howner, hentry⟩ := Process.lastPage_steps
  obtain ⟨m₁, run₁⟩ := exists_steps run₁ fun _ _ => none
  obtain ⟨⟨s₂, m₂⟩, block, stores, toStored, layout₂, hpfn, htables, -, hblock, hbyte, -⟩ :=
    (Agree.reachable ⟨_, _, rfl, run₁⟩).exists_store layout₁ (by omega) hentry 42
  obtain ⟨hswitch, hcurrent₃, s₄, off, permitted, taken, hswitch', hcurrent, hswapped, -⟩ :=
    layout₂.taken_back (j := 2043) room (by omega) (hpfn ▸ howner) (by omega)
      (by rw [Vm.view, htables]; exact hentry)
  let other : Observed := ⟨s₂.switchTo 1, m₂⟩
  let evicting : Observed := ⟨s₄, m₂.record (s₂.switchTo 1) .allocatePage⟩
  let back : Observed := ⟨s₄.switchTo 0, evicting.memory⟩
  have toOther : Step ⟨s₂, m₂⟩ (.switchTo 1) other := ⟨rfl, rfl⟩
  have toEvicting : other.Step .allocatePage evicting := ⟨taken, rfl⟩
  have toBack : evicting.Step (.switchTo 0) back := ⟨rfl, rfl⟩
  have evicts : other.Permitted .allocatePage := permitted_of_untouched permitted
  have returns : evicting.Permitted (.switchTo 0) := permitted_of_untouched hswitch'
  have run₂ := Runs.Steps.cons (permitted_of_untouched hswitch) toOther
    (.cons evicts toEvicting (.single returns toBack))
  have reach : Runs.Reachable (fun o => o = Observed.start 0) Permitted Step back :=
    ⟨_, _, rfl, (run₁.append (.single stores toStored)).append run₂⟩
  have owns : back.Owns 0 (pageAddress 2043) block := by
    refine ⟨by decide, ?_⟩
    rw [miGetpteindex_pageAddress]
    change m₂.record (s₂.switchTo 1) .allocatePage 0 2043 = _
    rw [record_allocatePage_of_ne m₂ hcurrent₃ (by decide)]
    exact hblock
  have hreach : back.InReach 0 (pageAddress 2043) := .inl (by decide)
  have served := served_iff_inReach 0 reach hcurrent owns
  rw [hbyte] at served
  exact ⟨back, off, hcurrent, hswapped, served.1.mpr hreach,
    fun byte => (served.2 byte).mpr hreach⟩

/-- The main thread allocated the page of the last byte of the window, the page
was swapped out, and its load of that byte ends the process. -/
theorem load_lastByte_segv :
    ∃ o block, Runs.Steps Permitted Step (Observed.start 0) Process.lastByteRun o ∧
      o.process.current = some 0 ∧ o.Owns 0 virtualHeapEnd block ∧
      o.process.load virtualHeapEnd = .error .segv ∧
      ¬ o.LoadServed virtualHeapEnd (block (PrivateMemory.offset virtualHeapEnd)) := by
  obtain ⟨s, off, run, hcurrent, hentry, -⟩ := Process.lastByteRun_steps
  obtain ⟨m, run'⟩ := exists_steps run fun _ _ => none
  have agree : Agree ⟨s, m⟩ := Agree.reachable ⟨_, _, rfl, run'⟩
  have hindex : miGetpteindex virtualHeapEnd = 2043 := by decide
  have hblock : m 0 2043 = some (read pageSize s.vm.swapFile off) := by
    have h := agree.agrees 0 2043 (agree.inv.currentLive 0 hcurrent)
      (by rw [maxVirtualPages_eq]; omega)
    exact h.trans (Process.privateMemory_of_swappedOut hentry)
  have owns : Owns ⟨s, m⟩ 0 virtualHeapEnd (read pageSize s.vm.swapFile off) :=
    ⟨by decide, by rw [hindex]; exact hblock⟩
  have hreach : ¬ InReach ⟨s, m⟩ 0 virtualHeapEnd := by
    intro h
    refine h.elim (Nat.lt_irrefl _) fun hvalid => ?_
    rw [hindex] at hvalid
    exact (Mmpte.view_eq_swappedOut.mp hentry).1 hvalid
  have hload : s.load virtualHeapEnd = .error .segv := by
    simp only [Process.load, agree.access_of_not_inReach hcurrent owns hreach]
  refine ⟨⟨s, m⟩, _, run', hcurrent, owns, hload, ?_⟩
  simp [LoadServed, hload]

end Observed

end OsDesign.Virt
