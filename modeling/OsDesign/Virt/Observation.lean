import OsDesign.Virt.PrivateMemory

/-!
Runs of the process next to the private memories they should show. The
discipline is that a thread touches only pages it has allocated. The pages
agree in every state, and a load or store by `CURRENT` is answered as by the
private memory, except where the page-fault handler does not know the address.
-/
namespace OsDesign.Virt

open Loops ByteStore

/-- A process with the private memories recorded from its steps. -/
structure Observed where
  process : Process
  memory : PrivateMemory

namespace Observed

def start (main : ThreadId) : Observed := ⟨Process.start main, fun _ _ => none⟩

/-- The address lies in a page that thread `t` has allocated, with these bytes. -/
def Owns (o : Observed) (t : ThreadId) (address : Nat) (block : Block) : Prop :=
  virtualHeapStart ≤ address ∧ o.memory t (miGetpteindex address) = some block

def Permitted (o : Observed) (e : Event) : Prop :=
  o.process.Enabled e ∧
    match e with
    | .load address | .store address _ =>
        ∃ t block, o.process.current = some t ∧ o.Owns t address block
    | _ => True

def Step (o : Observed) (e : Event) (o' : Observed) : Prop :=
  o.process.Step e o'.process ∧ o'.memory = o.memory.record o.process e

/-- The recorded memories are the ones the process stands for. -/
structure Agree (o : Observed) : Prop where
  inv : o.process.Inv
  agrees : ∀ t j, o.process.live t = true → j < maxVirtualPages →
    o.memory t j = o.process.privateMemory t j
  outside : ∀ t j, maxVirtualPages ≤ j → o.memory t j = none

variable {o o' : Observed} {t : ThreadId} {address : Nat} {block : Block}

theorem Agree.start (main : ThreadId) : (Observed.start main).Agree := by
  refine ⟨Process.Inv.start main, ?_, fun _ _ _ => rfl⟩
  intro t j _ _
  exact (Process.privateMemory_of_unused Mmpte.view_zero).symm

theorem Agree.index_lt (agree : o.Agree) (owns : o.Owns t address block) :
    miGetpteindex address < maxVirtualPages := by
  by_contra hj
  have hnone := agree.outside t _ (Nat.le_of_not_lt hj)
  rw [owns.2] at hnone
  cases hnone

/-- An allocated page of `CURRENT` is open and in memory, or closed and swapped out. -/
theorem Agree.owned_cases (agree : o.Agree) (hcurrent : o.process.current = some t)
    (owns : o.Owns t address block) :
    (∃ p, o.process.vm.view t (miGetpteindex address) = .inMemory p ∧
      o.process.vm.accessible (address / pageSize) = true) ∨
    ∃ k, o.process.vm.view t (miGetpteindex address) = .swappedOut (k * pageSize) ∧
      o.process.vm.accessible (address / pageSize) = false := by
  have hj := agree.index_lt owns
  have hlive := agree.inv.currentLive t hcurrent
  have hpage : pageAddress (miGetpteindex address) / pageSize = address / pageSize := by
    rw [← pageBase_eq owns.1, Nat.mul_div_cancel _ (by decide : 0 < pageSize)]
  have hsome := agree.agrees t _ hlive hj
  rw [owns.2] at hsome
  cases h : o.process.vm.view t (miGetpteindex address) with
  | unused =>
      rw [Process.privateMemory_of_unused h] at hsome
      cases hsome
  | stray => exact absurd h (agree.inv.swaps.regular t _ hlive hj)
  | inMemory p =>
      have hopen := agree.inv.opened t _ p hcurrent hj h
      rw [hpage] at hopen
      exact .inl ⟨p, rfl, hopen⟩
  | swappedOut off =>
      have hclosed := agree.inv.closed t _ off hcurrent hj h
      rw [hpage] at hclosed
      obtain ⟨k, -, hoff, -⟩ := agree.inv.swaps.held t _ off hlive hj h
      exact .inr ⟨k, by rw [hoff], hclosed⟩

/-- After a load or store was let through, the page is in memory and the
private memories are as before. -/
theorem Agree.accessed (agree : o.Agree) (hcurrent : o.process.current = some t)
    (owns : o.Owns t address block) {s : Process} (h : o.process.access address = .ok s) :
    s.current = some t ∧ s.live = o.process.live ∧
      (∃ p, s.vm.view t (miGetpteindex address) = .inMemory p) ∧
      ∀ t' j, s.live t' = true → j < maxVirtualPages →
        s.privateMemory t' j = o.process.privateMemory t' j := by
  rcases Process.access_cases agree.inv h with
    ⟨hopen, hsame⟩ | ⟨current, vm, p, k, hcur, hj, -, -, hentry, hk, hslot, alloc, hs⟩
  · subst hsame
    refine ⟨hcurrent, rfl, ?_, fun _ _ _ _ => rfl⟩
    rcases agree.owned_cases hcurrent owns with ⟨p, hp, -⟩ | ⟨k, -, hclosed⟩
    · exact ⟨p, hp⟩
    · simp [hopen] at hclosed
  · obtain rfl : t = current := Option.some.inj (hcurrent.symm.trans hcur)
    subst hs
    refine ⟨hcurrent, rfl, ⟨p, ?_⟩, ?_⟩
    · change (vm.setEntry t (miGetpteindex address) (Mmpte.faultedIn p)).view t _ = _
      rw [Vm.view_setEntry_self, Mmpte.view_faultedIn (frame_number_lt alloc.frame_lt)]
    · intro t' j ht' hj'
      exact agree.inv.privateMemory_served hcurrent hj hentry alloc ht' hj'

/-- The byte read behind the access is the one in the private memory. -/
theorem Agree.memory_read (agree : o.Agree) (hcurrent : o.process.current = some t)
    (owns : o.Owns t address block) {s : Process} (h : o.process.access address = .ok s) :
    s.vm.memory address = block (PrivateMemory.offset address) := by
  obtain ⟨hcur, hlive, ⟨p, hp⟩, hkept⟩ := agree.accessed hcurrent owns h
  have hlive' := agree.inv.currentLive t hcurrent
  have hj := agree.index_lt owns
  have hpage := hkept t _ (hlive ▸ hlive') hj
  rw [← agree.agrees t _ hlive' hj, owns.2, Process.privateMemory_of_inMemory hp,
    Process.resident, if_pos hcur] at hpage
  rw [← Option.some.inj hpage, read_apply, Process.pageAddress_offset owns.1]

theorem miGetpteindex_pageAddress (i : Nat) : miGetpteindex (pageAddress i) = i := by
  change (0x60000000 + i * 4096 - 0x60000000) / 4096 = i
  omega

/-- Every step of the process is the recorded step of the private memories. -/
theorem Agree.step (agree : o.Agree) {e : Event} (permitted : o.Permitted e)
    (taken : o.Step e o') : o'.Agree := by
  obtain ⟨hstep, hmemory⟩ := taken
  have hinv := agree.inv.step permitted.1 hstep
  cases e with
  | allocatePage =>
      obtain ⟨address, h⟩ := Process.allocatePage_of_step hstep
      rcases Process.allocatePage_cases agree.inv h with
        ⟨hs, hnull⟩ | ⟨current, i, vm, p, hcurrent, hi, -, alloc, haddress, hs⟩
      · have hrecord : o'.memory = o.memory := by
          rw [hmemory, PrivateMemory.record, h, hnull]
          cases o.process.current <;> rfl
        refine ⟨hinv, ?_, hrecord ▸ agree.outside⟩
        rw [hs, hrecord]
        exact agree.agrees
      · have hrecord : o'.memory = o.memory.grant current i := by
          rw [hmemory, PrivateMemory.record, h, hcurrent, haddress]
          exact congrArg (o.memory.grant current) (miGetpteindex_pageAddress i)
        refine ⟨hinv, ?_, ?_⟩
        · intro t j ht hj
          rw [hs] at ht ⊢
          rw [hrecord, PrivateMemory.grant_apply, agree.agrees t j ht hj,
            ← agree.inv.privateMemory_allocated hcurrent alloc ht hj]
          exact (Process.privateMemory_filled { o.process with vm := vm } hcurrent
            (Mmpte.view_granted _ (frame_number_lt alloc.frame_lt)) i _ t j).symm
        · intro t j hj
          have hji : j ≠ i := by omega
          rw [hrecord, PrivateMemory.grant_apply, if_neg fun same => hji same.2]
          exact agree.outside t j hj
  | load address =>
      obtain ⟨-, t, block, hcurrent, owns⟩ := permitted
      obtain ⟨-, hlive, -, hkept⟩ := agree.accessed hcurrent owns (Process.access_of_load hstep)
      refine ⟨hinv, ?_, hmemory ▸ agree.outside⟩
      intro t j ht hj
      rw [hkept t j ht hj, hmemory]
      exact agree.agrees t j (hlive ▸ ht) hj
  | store address byte =>
      obtain ⟨-, t, block, hcurrent, owns⟩ := permitted
      obtain ⟨s, h, hs⟩ := Process.access_of_store hstep
      obtain ⟨hcur, hlive, ⟨p, hp⟩, hkept⟩ := agree.accessed hcurrent owns h
      have hrecord : o'.memory = o.memory.store t address byte := by
        simp only [hmemory, PrivateMemory.record, hcurrent]
      refine ⟨hinv, ?_, ?_⟩
      · intro t' j ht' hj
        rw [hs] at ht' ⊢
        change s.live t' = true at ht'
        rw [Process.privateMemory_stored hcur owns.1 hp, hrecord]
        apply PrivateMemory.store_congr
        rw [hkept t' j ht' hj, ← agree.agrees t' j (hlive ▸ ht') hj]
      · intro t' j hj
        have hlt := agree.index_lt owns
        have hne : j ≠ miGetpteindex address := by omega
        rw [hrecord, PrivateMemory.store_apply, if_neg fun same => hne same.2]
        exact agree.outside t' j hj
  | switchTo next =>
      have hs : o.process.switchTo next = o'.process := Except.ok.inj hstep
      refine ⟨hinv, ?_, hmemory ▸ agree.outside⟩
      intro t j ht hj
      rw [← hs] at ht ⊢
      rw [Process.live_switchTo] at ht
      rw [hmemory, agree.inv.privateMemory_switchTo next ht hj]
      exact agree.agrees t j ht hj
  | create ti =>
      have hs : o.process.create ti = o'.process := Except.ok.inj hstep
      refine ⟨hinv, ?_, ?_⟩
      · intro t j ht hj
        rw [← hs] at ht ⊢
        rw [Process.privateMemory_create, hmemory]
        by_cases hsame : t = ti
        · simp [PrivateMemory.record, hsame]
        · have hlive : o.process.live t = true := by simpa [Process.create, hsame] using ht
          simp only [PrivateMemory.record, Function.update_of_ne hsame]
          exact agree.agrees t j hlive hj
      · intro t j hj
        rw [hmemory]
        by_cases hsame : t = ti
        · simp [PrivateMemory.record, hsame]
        · simp only [PrivateMemory.record, Function.update_of_ne hsame]
          exact agree.outside t j hj
  | exit next =>
      refine ⟨hinv, ?_, hmemory ▸ agree.outside⟩
      intro t j ht hj
      obtain ⟨hlive, hkept⟩ := agree.inv.privateMemory_exit hstep ht hj
      rw [hmemory, hkept]
      exact agree.agrees t j hlive hj

theorem Agree.reachable {main : ThreadId}
    (reach : Runs.Reachable (fun o => o = Observed.start main) Permitted Step o) : o.Agree := by
  refine reach.invariant Agree ?_ ?_
  · intro o ho
    rw [ho]
    exact Agree.start main
  · intro o e o' permitted taken agree
    exact agree.step permitted taken

end Observed

end OsDesign.Virt
