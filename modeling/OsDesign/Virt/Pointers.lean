import OsDesign.Lib.Outcome
import OsDesign.Virt.Process

/-!
The pointers that the paging layer follows: `CURRENT`, and `g_pfn[i].thread` of a used
frame, which is written together with `used`. With a `CURRENT` no call of `virt.c` ends
at NULL.
-/
namespace OsDesign.Virt

open Loops ByteStore Outcome

/-- A used frame is counted on some thread. -/
def Owned (s : Vm) : Prop := ∀ i, (s.gPfn i).used = true → (s.gPfn i).thread ≠ none

/-- The process did not end at a NULL pointer. -/
def NotNull (stop : Stop) : Prop := stop ≠ .nullDereference

theorem notNull_panic (errormsg : String) : NotNull (.panic errormsg) := by
  intro null
  cases null

theorem notNull_assertion : NotNull .assertion := by
  intro null
  cases null

theorem notNull_segv : NotNull .segv := by
  intro null
  cases null

variable {s s' : Vm} {current t : ThreadId}

theorem Owned.congr (owned : Owned s) (same : s'.gPfn = s.gPfn) : Owned s' := by
  rw [Owned, same]
  exact owned

/-- A frame gets a thread whenever it is marked. -/
theorem Owned.update (owned : Owned s) {i : Nat} {pfn : PfnT}
    (same : s'.gPfn = Function.update s.gPfn i pfn)
    (named : pfn.used = true → pfn.thread ≠ none) : Owned s' := by
  intro j used
  rw [same] at used ⊢
  by_cases hj : j = i
  · subst hj
    rw [Function.update_self] at used ⊢
    exact named used
  · rw [Function.update_of_ne hj] at used ⊢
    exact owned j used

theorem swapOut_ensures (s : Vm) (addr : Nat) :
    Ensures NotNull (fun r => r.1.gPfn = s.gPfn) (s.swapOut addr) := by
  rw [Vm.swapOut]
  split
  · exact .error (notNull_panic _)
  · split
    · exact .error notNull_assertion
    · exact .ok rfl

theorem evictPage_ensures (owned : Owned s) (current : ThreadId) :
    Ensures NotNull (fun r => Owned r.1) (s.evictPage current) := by
  rw [Vm.evictPage]
  split
  · exact .ok owned
  · rename_i i first
    have victim := (firstIndex_eq_some.mp first).1
    have used : (s.gPfn i).used = true := (Bool.and_eq_true_iff.mp victim).1
    have swapped := swapOut_ensures s (i * pageSize)
    split
    · exact .error (swapped.of_error ‹_›)
    · rename_i s₁ offset hswap
      have same : s₁.gPfn = s.gPfn := swapped.of_ok hswap
      split
      · rename_i unnamed
        rw [same] at unnamed
        exact absurd unnamed (owned i used)
      · split
        · exact .ok (owned.congr same)
        · exact .ok ((owned.congr same).update rfl fun _ => Option.some_ne_none _)

theorem allocatePhysicalPage_ensures (owned : Owned s) (current : ThreadId) :
    Ensures NotNull (fun r => Owned r.1) (s.allocatePhysicalPage current) := by
  rw [Vm.allocatePhysicalPage]
  split
  · exact evictPage_ensures owned current
  · split
    · exact .ok (owned.update rfl fun _ => Option.some_ne_none _)
    · exact .error (notNull_panic _)

theorem mmAllocatePage_ensures (owned : Owned s) (current : ThreadId) :
    Ensures NotNull (fun r => Owned r.1) (s.mmAllocatePage current) := by
  rw [Vm.mmAllocatePage]
  split
  · exact .ok owned
  · have allocated := allocatePhysicalPage_ensures owned current
    split
    · exact .error (allocated.of_error ‹_›)
    · rename_i s₁ pfn hpage
      exact .ok ((allocated.of_ok hpage : Owned s₁).congr rfl)

theorem swapIn_ensures (owned : Owned s) (offset buffer : Nat) :
    Ensures NotNull Owned (s.swapIn offset buffer) := by
  rw [Vm.swapIn]
  split
  · exact .error notNull_assertion
  · split
    · exact .ok (owned.congr rfl)
    · exact .error notNull_assertion

theorem pagefaultHandler_ensures (owned : Owned s) (current : ThreadId) (address : Nat) :
    Ensures NotNull Owned (s.pagefaultHandler current address) := by
  simp only [Vm.pagefaultHandler]
  split
  · split
    · split
      · have allocated := allocatePhysicalPage_ensures owned current
        split
        · exact .error (allocated.of_error ‹_›)
        · rename_i s₁ pfn hpage
          have owned₁ : Owned s₁ := allocated.of_ok hpage
          refine swapIn_ensures ?_ _ _
          exact owned₁.congr rfl
      · exact .error notNull_segv
    · exact .error (notNull_panic _)
  · exact .error notNull_segv

theorem gPfn_mmStoreVirtualPagesBack (s : Vm) (current : ThreadId) :
    (s.mmStoreVirtualPagesBack current).gPfn = s.gPfn := by
  refine forRange_induct (fun _ s' => s'.gPfn = s.gPfn) _ _ s rfl ?_
  intro i s' _ same
  split <;> exact same

theorem gPfn_mmSwitchVirtualPages (s : Vm) (current : ThreadId) :
    (s.mmSwitchVirtualPages current).gPfn = s.gPfn := by
  refine forRange_induct (fun _ s' => s'.gPfn = s.gPfn) _ _ s rfl ?_
  intro i s' _ same
  split <;> exact same

/-- `free_physical_page` leaves `thread` behind. -/
theorem Owned.freePhysicalPage (owned : Owned s) (pfn : Nat) : Owned (s.freePhysicalPage pfn) := by
  rw [Vm.freePhysicalPage]
  split
  · exact owned
  · split
    · exact owned
    · exact owned.update rfl fun used => absurd used Bool.false_ne_true

theorem Owned.freeThreadPages (owned : Owned s) (ti : ThreadId) : Owned (s.freeThreadPages ti) := by
  refine forRange_induct (fun _ s' => Owned s') _ _ s owned ?_
  intro i s' _ owned'
  split
  · exact (owned'.freePhysicalPage _).congr rfl
  · exact owned'

namespace Process

variable {p p' : Process}

theorem access_ensures (owned : Owned p.vm) (running : p.current = some t) (address : Nat) :
    Ensures NotNull (fun p' => Owned p'.vm ∧ p' = { p with vm := p'.vm }) (p.access address) := by
  rw [access]
  split
  · exact .ok ⟨owned, rfl⟩
  · simp only [running]
    have served := pagefaultHandler_ensures owned t address
    split
    · exact .error (served.of_error ‹_›)
    · exact .ok ⟨served.of_ok ‹_›, rfl⟩

theorem allocatePage_ensures (owned : Owned p.vm) (running : p.current = some t) :
    Ensures NotNull (fun r => Owned r.1.vm ∧ r.1 = { p with vm := r.1.vm }) p.allocatePage := by
  simp only [allocatePage, running]
  have allocated := mmAllocatePage_ensures owned t
  split
  · exact .error (allocated.of_error ‹_›)
  · rename_i vm address hpage
    exact .ok ⟨(allocated.of_ok hpage : Owned vm), rfl⟩

theorem Owned.enter (owned : Owned p.vm) (next : ThreadId) : Owned (p.enter next).vm := by
  rw [Process.enter]
  split
  · exact owned.congr (gPfn_mmSwitchVirtualPages p.vm next)
  · exact owned

theorem Owned.access (owned : Owned p.vm) {address : Nat} (taken : p.access address = .ok p') :
    Owned p'.vm := by
  cases running : p.current with
  | some t => exact ((access_ensures owned running address).of_ok taken).1
  | none =>
      simp only [Process.access, running] at taken
      split at taken
      · cases taken
        exact owned
      · cases taken

/-- Every step of the paging layer, from any page tables. -/
theorem Owned.step (owned : Owned p.vm) {e : Event} (step : p.Step e p') : Owned p'.vm := by
  cases e with
  | allocatePage =>
      obtain ⟨address, taken⟩ := allocatePage_of_step step
      cases running : p.current with
      | some t => exact ((allocatePage_ensures owned running).of_ok taken).1
      | none =>
          rw [allocatePage, running] at taken
          cases taken
  | load address => exact Owned.access owned (access_of_load step)
  | store address byte =>
      obtain ⟨p₁, taken, rfl⟩ := access_of_store step
      exact (Owned.access owned taken).congr rfl
  | switchTo next =>
      cases step
      rw [switchTo]
      split
      · exact Owned.enter owned next
      · rename_i current _
        have stored := owned.congr (gPfn_mmStoreVirtualPagesBack p.vm current)
        exact Owned.enter (p := { p with vm := p.vm.mmStoreVirtualPagesBack current }) stored next
  | create ti =>
      cases step
      exact owned.congr rfl
  | exit next =>
      rw [Step, Process.next, exit] at step
      split at step
      · cases step
      · rename_i current _
        have retired : Owned (p.retire current).vm := owned.freeThreadPages current
        split at step
        · cases step
          exact retired
        · cases step
          exact Owned.enter retired _

end Process

end OsDesign.Virt
