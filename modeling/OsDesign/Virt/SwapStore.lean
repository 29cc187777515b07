import OsDesign.Lib.BlockStore
import OsDesign.Lib.Runs
import OsDesign.Virt.Memory

/-!
The swap file of `swap.c` as a store of pages, over every order of `swap_out` and
`swap_in` calls after the first `swap_init`. `SwapRecord` keeps, beside the
program's state, which offsets are outstanding and with which page each of them was
written.
-/
namespace OsDesign.Virt

open Loops ByteStore Runs BlockStore

/-- `swap_init`: the map cleared, the file made anew. The count is not touched. -/
def Vm.swapInit (s : Vm) : Vm :=
  { s with
    gSwap := forRange maxSwapSlots (fun i gSwap => Function.update gSwap i false) s.gSwap
    swapFile := fun _ => 0 }

/-- The program between two calls may have left any bytes in the frames. -/
def Vm.withFrames (s : Vm) (physicalMemory : Nat → UInt8) : Vm :=
  { s with physicalMemory := physicalMemory }

/-- The program's state and the pages written and not read back, by offset. -/
structure SwapRecord where
  vm : Vm
  outstanding : Blocks pageSize UInt8

/-- A `swap_out` finds any bytes in the physical memory; a `swap_in` reads to any
buffer. -/
inductive SwapCall
  | swapOut (physicalMemory : Nat → UInt8) (addr : Nat)
  | swapIn (offset buffer : Nat)

namespace SwapRecord

def call (s : SwapRecord) : SwapCall → Except Stop SwapRecord
  | .swapOut physicalMemory addr =>
      match (s.vm.withFrames physicalMemory).swapOut addr with
      | .error stop => .error stop
      | .ok (vm, offset) =>
          .ok ⟨vm, (offset, read pageSize physicalMemory addr) :: s.outstanding⟩
  | .swapIn offset buffer =>
      match s.vm.swapIn offset buffer with
      | .error stop => .error stop
      | .ok vm => .ok ⟨vm, s.outstanding.without offset⟩

/-- Only an outstanding offset is read back. -/
def Allowed (s : SwapRecord) : SwapCall → Prop
  | .swapOut _ _ => True
  | .swapIn offset _ => offset ∈ s.outstanding.offsets

def Step (s : SwapRecord) (c : SwapCall) (s' : SwapRecord) : Prop := s.call c = .ok s'

/-- The first `swap_init` of the process; a static `g_swap_count` starts at 0. -/
def Init (s : SwapRecord) : Prop :=
  ∃ vm : Vm, vm.gSwapCount = 0 ∧ s = ⟨vm.swapInit, []⟩

abbrev Reached : SwapRecord → Prop := Reachable Init Allowed Step

/-- The map and the file hold the outstanding pages, and the count counts them. -/
structure Faithful (s : SwapRecord) : Prop where
  holds : Holds maxSwapSlots s.vm.gSwap s.vm.swapFile s.outstanding
  counted : s.vm.gSwapCount = s.outstanding.length

end SwapRecord

theorem Vm.swapInit_clears (s : Vm) (k : Nat) (hk : k < maxSwapSlots) :
    s.swapInit.gSwap k = false := by
  refine forRange_induct (fun i gSwap => ∀ k, k < i → gSwap k = false) _ maxSwapSlots s.gSwap
    (fun k hk => by omega) ?_ k hk
  intro i gSwap _ clear k hk
  by_cases hki : k = i
  · rw [hki]
    exact Function.update_self i false gSwap
  · exact (Function.update_of_ne hki _ _).trans (clear k (by omega))

/-! One lemma for each of the two functions. -/

variable {s s' : SwapRecord} {addr offset buffer : Nat} {page : Fin pageSize → UInt8}
  {physicalMemory : Nat → UInt8}

/-- With a slot left `swap_out` writes the page to the first slot that is not outstanding. -/
theorem SwapRecord.Faithful.swapOut (faithful : s.Faithful)
    (room : s.outstanding.length < maxSwapSlots) (physicalMemory : Nat → UInt8) (addr : Nat) :
    ∃ k, k < maxSwapSlots ∧ s.vm.gSwap k = false ∧ (∀ i, i < k → s.vm.gSwap i = true) ∧
      (s.vm.withFrames physicalMemory).swapOut addr =
        .ok ({ s.vm.withFrames physicalMemory with
          gSwap := Function.update s.vm.gSwap k true
          gSwapCount := s.vm.gSwapCount + 1
          swapFile := write s.vm.swapFile (k * pageSize) (read pageSize physicalMemory addr) },
          k * pageSize) := by
  obtain ⟨k, hk, clear⟩ := faithful.holds.exists_clear (by decide) room
  obtain ⟨i, hi⟩ := firstIndex_isSome (fun i => !s.vm.gSwap i) hk (by simp [clear])
  obtain ⟨htest, hlt, hbefore⟩ := firstIndex_eq_some.mp hi
  have count := faithful.counted
  refine ⟨i, hlt, by simpa using htest, fun j hj => by simpa using hbefore j hj, ?_⟩
  have few : ¬ (maxSwapSlots : Int) ≤ s.vm.gSwapCount := by omega
  simp only [Vm.swapOut, Vm.withFrames, few, if_false, hi]

/-- With none left it panics before it looks for one. -/
theorem SwapRecord.Faithful.swapOut_full (faithful : s.Faithful)
    (full : maxSwapSlots ≤ s.outstanding.length) (physicalMemory : Nat → UInt8) (addr : Nat) :
    (s.vm.withFrames physicalMemory).swapOut addr =
      .error (.panic "swap_out: Swap file is full\n") := by
  have count := faithful.counted
  have many : (maxSwapSlots : Int) ≤ s.vm.gSwapCount := by omega
  exact if_pos many

/-- `swap_in` of an outstanding offset delivers its page and clears its slot. -/
theorem SwapRecord.Faithful.swapIn (faithful : s.Faithful)
    (mem : (offset, page) ∈ s.outstanding) (buffer : Nat) :
    s.vm.swapIn offset buffer =
      .ok { s.vm with
        gSwap := Function.update s.vm.gSwap (offset / pageSize) false
        gSwapCount := s.vm.gSwapCount - 1
        memory := write s.vm.memory buffer page } := by
  obtain ⟨k, _, rfl, set, bytes⟩ := faithful.holds.placed offset page mem
  have slot : k * pageSize / pageSize = k := Nat.mul_div_cancel k (by decide)
  rw [Vm.swapIn, if_neg (by simp), slot, if_pos set, bytes]

theorem SwapRecord.Faithful.init (init : SwapRecord.Init s) : s.Faithful := by
  obtain ⟨vm, zero, rfl⟩ := init
  exact ⟨.empty vm.swapInit_clears, zero⟩

theorem SwapRecord.Faithful.step {c : SwapCall} (allowed : s.Allowed c) (step : s.Step c s')
    (faithful : s.Faithful) : s'.Faithful := by
  rw [SwapRecord.Step] at step
  cases c with
  | swapOut physicalMemory addr =>
      by_cases room : s.outstanding.length < maxSwapSlots
      · obtain ⟨k, hk, clear, -, hok⟩ := faithful.swapOut room physicalMemory addr
        simp only [SwapRecord.call, hok, Except.ok.injEq] at step
        subst step
        refine ⟨faithful.holds.put (by decide) hk clear _, ?_⟩
        have count := faithful.counted
        simp only [List.length_cons]
        omega
      · have hfull := faithful.swapOut_full (Nat.not_lt.mp room) physicalMemory addr
        simp [SwapRecord.call, hfull] at step
  | swapIn offset buffer =>
      obtain ⟨⟨o, page⟩, hmem, same⟩ := List.mem_map.mp allowed
      obtain rfl : o = offset := same
      have hok := faithful.swapIn hmem buffer
      simp only [SwapRecord.call, hok, Except.ok.injEq] at step
      subst step
      obtain ⟨k, _, rfl, -, -⟩ := faithful.holds.placed o page hmem
      have slot : k * pageSize / pageSize = k := Nat.mul_div_cancel k (by decide)
      have fewer := Blocks.length_without faithful.holds.distinct allowed
      have count := faithful.counted
      refine ⟨?_, ?_⟩
      · simp only [slot]
        exact faithful.holds.take (by decide)
      · simp only
        omega

theorem SwapRecord.Reached.faithful (reached : s.Reached) : s.Faithful :=
  Reachable.invariant SwapRecord.Faithful (fun _ => SwapRecord.Faithful.init)
    (fun _ _ _ allowed step faithful => faithful.step allowed step) reached

/-- `swap_out` stops the process exactly when every slot is outstanding, and never at
its assertion. -/
theorem SwapRecord.Faithful.swapOut_panics_iff (faithful : s.Faithful)
    (physicalMemory : Nat → UInt8) (addr : Nat) :
    ((s.vm.withFrames physicalMemory).swapOut addr =
        .error (.panic "swap_out: Swap file is full\n") ↔ s.outstanding.length = maxSwapSlots) ∧
      (s.vm.withFrames physicalMemory).swapOut addr ≠ .error .assertion := by
  by_cases room : s.outstanding.length < maxSwapSlots
  · obtain ⟨k, -, -, -, hok⟩ := faithful.swapOut room physicalMemory addr
    rw [hok]
    refine ⟨⟨(fun panics => nomatch panics), ?_⟩, by simp⟩
    intro full
    omega
  · have most := faithful.holds.length_le
    rw [faithful.swapOut_full (Nat.not_lt.mp room) physicalMemory addr]
    refine ⟨⟨fun _ => by omega, fun _ => rfl⟩, by simp⟩

/-- What `swap_out` returns was not outstanding; its page is in the file there, and every
outstanding page is still in the file. -/
theorem SwapRecord.Faithful.swapOut_stored (faithful : s.Faithful) {vm : Vm}
    (h : (s.vm.withFrames physicalMemory).swapOut addr = .ok (vm, offset)) :
    (offset % 4096 = 0 ∧ offset < 16 * 1024 * 1024 ∧ offset ∉ s.outstanding.offsets) ∧
      read pageSize vm.swapFile offset = read pageSize physicalMemory addr ∧
      ∀ o page, (o, page) ∈ s.outstanding → read pageSize vm.swapFile o = page := by
  by_cases room : s.outstanding.length < maxSwapSlots
  · obtain ⟨k, hk, clear, -, hok⟩ := faithful.swapOut room physicalMemory addr
    rw [hok] at h
    cases h
    have unused := faithful.holds.notMem_of_clear (by decide) clear
    have after := faithful.holds.put (by decide) hk clear (read pageSize physicalMemory addr)
    have bytes : ∀ o page, (o, page) ∈ (k * pageSize, read pageSize physicalMemory addr) ::
        s.outstanding → read pageSize (write s.vm.swapFile (k * pageSize)
          (read pageSize physicalMemory addr)) o = page := by
      intro o page hmem
      obtain ⟨_, _, _, _, bytes⟩ := after.placed o page hmem
      exact bytes
    rw [maxSwapSlots_eq] at hk
    refine ⟨⟨?_, ?_, unused⟩, bytes _ _ List.mem_cons_self, ?_⟩
    · exact Nat.mul_mod_left k 4096
    · change k * 4096 < 16 * 1024 * 1024
      omega
    · exact fun o page hmem => bytes o page (List.mem_cons_of_mem _ hmem)
  · rw [faithful.swapOut_full (Nat.not_lt.mp room) physicalMemory addr] at h
    cases h

/-- In every state reached by `swap_out` and `swap_in` calls the swap file is a faithful
store of the outstanding pages. -/
theorem swap_file_is_slot_store (reached : s.Reached) :
    s.outstanding.offsets.Nodup ∧
    (∀ o ∈ s.outstanding.offsets, o % 4096 = 0 ∧ o < 16 * 1024 * 1024) ∧
    s.vm.gSwapCount = s.outstanding.length ∧
    (∀ offset page buffer, (offset, page) ∈ s.outstanding →
      ∃ vm, s.vm.swapIn offset buffer = .ok vm ∧
        vm.memory = write s.vm.memory buffer page ∧
        vm.gSwap (offset / 4096) = false ∧
        (∀ k, k ≠ offset / 4096 → vm.gSwap k = s.vm.gSwap k) ∧
        vm.swapFile = s.vm.swapFile) ∧
    ∀ physicalMemory addr,
      ((s.vm.withFrames physicalMemory).swapOut addr =
        .error (.panic "swap_out: Swap file is full\n") ↔ s.outstanding.length = 4096) ∧
      (s.vm.withFrames physicalMemory).swapOut addr ≠ .error .assertion ∧
      (s.outstanding.length < 4096 →
        ∃ vm offset, (s.vm.withFrames physicalMemory).swapOut addr = .ok (vm, offset)) ∧
      ∀ vm offset, (s.vm.withFrames physicalMemory).swapOut addr = .ok (vm, offset) →
        (offset % 4096 = 0 ∧ offset < 16 * 1024 * 1024 ∧ offset ∉ s.outstanding.offsets) ∧
        read pageSize vm.swapFile offset = read pageSize physicalMemory addr ∧
        ∀ o page, (o, page) ∈ s.outstanding → read pageSize vm.swapFile o = page := by
  have faithful := reached.faithful
  refine ⟨faithful.holds.distinct, ?_, faithful.counted, ?_, ?_⟩
  · intro o ho
    obtain ⟨⟨o, page⟩, hmem, rfl⟩ := List.mem_map.mp ho
    obtain ⟨k, hk, rfl, -, -⟩ := faithful.holds.placed o page hmem
    rw [maxSwapSlots_eq] at hk
    change k * 4096 % 4096 = 0 ∧ k * 4096 < 16 * 1024 * 1024
    omega
  · intro offset page buffer hmem
    refine ⟨_, faithful.swapIn hmem buffer, rfl, ?_, ?_, rfl⟩
    · exact Function.update_self _ _ _
    · intro k hk
      exact Function.update_of_ne hk _ _
  · intro physicalMemory addr
    obtain ⟨panics, asserts⟩ := faithful.swapOut_panics_iff physicalMemory addr
    rw [maxSwapSlots_eq] at panics
    refine ⟨panics, asserts, ?_, fun vm offset h => faithful.swapOut_stored h⟩
    intro room
    obtain ⟨k, -, -, -, hok⟩ := faithful.swapOut (maxSwapSlots_eq ▸ room) physicalMemory addr
    exact ⟨_, _, hok⟩

/-- A page of equal bytes is written to the first free slot. -/
theorem SwapRecord.Reached.swapsOut (reached : s.Reached)
    (room : s.outstanding.length < maxSwapSlots) {m : Nat} (clear : s.vm.gSwap m = false)
    (first : ∀ i, i < m → s.vm.gSwap i = true) (b : UInt8) :
    ∃ s' : SwapRecord, s'.Reached ∧ s'.vm.gSwap = Function.update s.vm.gSwap m true ∧
      s'.outstanding = (m * pageSize, fun _ => b) :: s.outstanding := by
  obtain ⟨k, -, clear', first', hok⟩ := reached.faithful.swapOut room (fun _ => b) 0
  have slot : k = m := by
    rcases Nat.lt_trichotomy k m with below | same | above
    · simp [first k below] at clear'
    · exact same
    · simp [first' m above] at clear
  rw [slot] at hok
  have allowed : s.Allowed (.swapOut (fun _ => b) 0) := trivial
  have taken : ∃ s', s.Step (.swapOut (fun _ => b) 0) s' ∧
      s'.vm.gSwap = Function.update s.vm.gSwap m true ∧
      s'.outstanding = (m * pageSize, fun _ => b) :: s.outstanding := by
    simp only [SwapRecord.Step, SwapRecord.call, hok]
    exact ⟨_, rfl, rfl, rfl⟩
  obtain ⟨s', taken, map, pages⟩ := taken
  exact ⟨s', reached.extend (.single allowed taken), map, pages⟩

theorem SwapRecord.Reached.swapsIn (reached : s.Reached) (mem : (offset, page) ∈ s.outstanding) :
    ∃ s' : SwapRecord, s'.Reached ∧
      s'.vm.gSwap = Function.update s.vm.gSwap (offset / pageSize) false ∧
      s'.outstanding = s.outstanding.without offset := by
  have hok := reached.faithful.swapIn mem 0
  have allowed : s.Allowed (.swapIn offset 0) := List.mem_map.mpr ⟨_, mem, rfl⟩
  have taken : ∃ s', s.Step (.swapIn offset 0) s' ∧
      s'.vm.gSwap = Function.update s.vm.gSwap (offset / pageSize) false ∧
      s'.outstanding = s.outstanding.without offset := by
    simp only [SwapRecord.Step, SwapRecord.call, hok]
    exact ⟨_, rfl, rfl, rfl⟩
  obtain ⟨s', taken, map, pages⟩ := taken
  exact ⟨s', reached.extend (.single allowed taken), map, pages⟩

/-- Two pages are written, the first is read back, and a third one is written to its slot. -/
theorem swap_file_is_slot_store_reused :
    ∃ s : SwapRecord, s.outstanding = [(0, fun _ => 3), (4096, fun _ => 2)] ∧
      s.vm.gSwapCount = 2 ∧
      (∃ vm, s.vm.swapIn 4096 0 = .ok vm ∧
        vm.memory = write s.vm.memory 0 fun _ : Fin pageSize => 2) ∧
      ∃ vm offset, (s.vm.withFrames fun _ => 4).swapOut 0 = .ok (vm, offset) ∧
        offset ∉ [0, 4096] ∧ read pageSize vm.swapFile offset = fun _ => 4 := by
  have slots := maxSwapSlots_eq
  have start : SwapRecord.Reached ⟨mmInit.swapInit, []⟩ := .start ⟨mmInit, rfl, rfl⟩
  have clear : ∀ k, k < 4096 → mmInit.swapInit.gSwap k = false := by
    rw [← slots]
    exact mmInit.swapInit_clears
  obtain ⟨s₁, reached₁, map₁, pages₁⟩ := start.swapsOut (m := 0) (by rw [slots]; decide)
    (clear 0 (by decide)) (fun i below => absurd below (Nat.not_lt_zero i)) 1
  obtain ⟨s₂, reached₂, map₂, pages₂⟩ := reached₁.swapsOut (m := 1) (by rw [pages₁, slots]; decide)
    (by rw [map₁, Function.update_of_ne (by decide), clear 1 (by decide)])
    (fun i below => by rw [map₁, Nat.lt_one_iff.mp below, Function.update_self]) 2
  have first : (0, fun _ => 1) ∈ s₂.outstanding := by simp [pages₂, pages₁]
  obtain ⟨s₃, reached₃, map₃, pages₃⟩ := reached₂.swapsIn first
  have left : s₃.outstanding = [(4096, fun _ => 2)] := by
    rw [pages₃, pages₂, pages₁]
    rfl
  obtain ⟨s, reached, -, pages⟩ := reached₃.swapsOut (m := 0) (by rw [left, slots]; decide)
    (by rw [map₃]; exact Function.update_self _ _ _)
    (fun i below => absurd below (Nat.not_lt_zero i)) 3
  rw [left] at pages
  obtain ⟨-, -, count, delivers, stores⟩ := swap_file_is_slot_store reached
  obtain ⟨vm, read, bytes, -⟩ := delivers 4096 (fun _ => 2) 0 (by simp [pages])
  obtain ⟨-, -, written, stored⟩ := stores (fun _ => 4) 0
  obtain ⟨vm', offset, hok⟩ := written (by simp [pages])
  obtain ⟨⟨-, -, unused⟩, content, -⟩ := stored vm' offset hok
  rw [pages] at count unused
  exact ⟨s, pages, count, ⟨vm, read, bytes⟩, vm', offset, hok, unused, content⟩

end OsDesign.Virt
