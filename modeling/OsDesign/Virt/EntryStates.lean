import OsDesign.Lib.Runs
import OsDesign.Virt.Switching

/-!
The life of one page-table entry: the writes that `virt.c` performs on it, each
behind the test that guards it, and what the entry reads as after any number of
them. The functions of `virt.c` change an entry by these writes only.
-/
namespace OsDesign.Virt

open Loops Runs

/-- The writes of `mm_allocate_page`, `evict_page`, `pagefault_handler` and
`free_thread_pages` to an entry. -/
inductive EntryWrite
  | grant (pfn : Nat)
  | evict (offset : Nat)
  | faultIn (pfn : Nat)
  | clear
  deriving DecidableEq

/-- The operand fits its bit-field. -/
def EntryWrite.Fits : EntryWrite → Prop
  | .grant pfn | .faultIn pfn => pfn < 2 ^ 20
  | .evict offset => offset < 2 ^ 30
  | .clear => True

instance : DecidablePred EntryWrite.Fits
  | .grant pfn | .faultIn pfn => inferInstanceAs (Decidable (pfn < 2 ^ 20))
  | .evict offset => inferInstanceAs (Decidable (offset < 2 ^ 30))
  | .clear => inferInstanceAs (Decidable True)

/-- What an entry stands for, without its bits. -/
inductive EntryState
  | unused
  | inMemory (pfn : Nat)
  | swappedOut (offset : Nat)
  deriving DecidableEq

/-- The state a write is meant to leave. -/
def EntryWrite.leaves : EntryWrite → EntryState
  | .grant pfn | .faultIn pfn => .inMemory pfn
  | .evict offset => .swappedOut offset
  | .clear => .unused

/-- The state after the writes, for an entry that starts unused. -/
def lastWritten (ws : List EntryWrite) : EntryState :=
  ws.foldl (fun _ w => w.leaves) .unused

namespace Mmpte

/-- A write behind its test; `none` when the code would not perform it. -/
def write (e : Mmpte) : EntryWrite → Option Mmpte
  | .grant pfn => if e.long = 0#64 then some (e.granted pfn) else none
  | .evict offset => if e.hardValid = 1#1 then some (e.evicted offset) else none
  | .faultIn pfn =>
      if e.hardValid = 0#1 ∧ e.softSwapout = 1#1 then some (faultedIn pfn) else none
  | .clear => if e.hardValid = 1#1 then some zero else none

/-- How the tests of `virt.c` recognise each state, and what they read with it. -/
def Reads (e : Mmpte) : EntryState → Prop
  | .unused => e.long = 0#64
  | .inMemory pfn => e.hardValid = 1#1 ∧ e.hardPageframenumber = pfn
  | .swappedOut offset =>
      e.hardValid = 0#1 ∧ e.softSwapout = 1#1 ∧ e.softGefileaPos = offset

/-- Where `view` puts each state. -/
def viewOf : EntryState → View
  | .unused => .unused
  | .inMemory pfn => .inMemory pfn
  | .swappedOut offset => .swappedOut offset

theorem viewOf_injective {st st' : EntryState} (h : viewOf st = viewOf st') : st = st' := by
  cases st with
  | unused => cases st' <;> simp_all [viewOf]
  | inMemory pfn => cases st' <;> simp_all [viewOf]
  | swappedOut offset => cases st' <;> simp_all [viewOf]

theorem reads_iff_view {e : Mmpte} {st : EntryState} : e.Reads st ↔ e.view = viewOf st := by
  cases st with
  | unused => exact view_eq_unused.symm
  | inMemory pfn => exact view_eq_inMemory.symm
  | swappedOut offset =>
      rw [viewOf, view_eq_swappedOut, Reads, hardValid_eq_zero_iff]

/-- The three readings exclude each other. -/
theorem Reads.unique {e : Mmpte} {st st' : EntryState} (h : e.Reads st) (h' : e.Reads st') :
    st = st' :=
  viewOf_injective ((reads_iff_view.mp h).symm.trans (reads_iff_view.mp h'))

/-- One write leaves the state it is meant to leave, over any earlier contents. -/
theorem reads_of_write {e e' : Mmpte} {w : EntryWrite} (fits : w.Fits)
    (written : e.write w = some e') : e'.Reads w.leaves := by
  rw [reads_iff_view]
  cases w with
  | grant pfn =>
      obtain ⟨-, h⟩ := Option.ite_none_right_eq_some.mp written
      obtain rfl := Option.some.inj h
      exact view_granted e fits
  | evict offset =>
      obtain ⟨-, h⟩ := Option.ite_none_right_eq_some.mp written
      obtain rfl := Option.some.inj h
      exact view_evicted e fits
  | faultIn pfn =>
      obtain ⟨-, h⟩ := Option.ite_none_right_eq_some.mp written
      obtain rfl := Option.some.inj h
      exact view_faultedIn fits
  | clear =>
      obtain ⟨-, h⟩ := Option.ite_none_right_eq_some.mp written
      obtain rfl := Option.some.inj h
      exact view_zero

end Mmpte

/-- A sequence of guarded writes to one entry. -/
abbrev EntryRun : Mmpte → List EntryWrite → Mmpte → Prop :=
  Steps (fun _ w => w.Fits) (fun e w e' => e.write w = some e')

theorem EntryRun.reads {ws : List EntryWrite} {e e' : Mmpte} {st : EntryState}
    (run : EntryRun e ws e') (start : e.Reads st) :
    e'.Reads (ws.foldl (fun _ w => w.leaves) st) := by
  induction run generalizing st with
  | nil e => exact start
  | cons fits written _ ih => exact ih (Mmpte.reads_of_write fits written)

theorem leaves_ne_unused {w : EntryWrite} (h : w ≠ .clear) : w.leaves ≠ .unused := by
  cases w with
  | clear => exact absurd rfl h
  | grant pfn | evict offset | faultIn pfn => simp [EntryWrite.leaves]

/-- An entry is used from a grant on until it is cleared. -/
theorem lastWritten_ne_unused (before : List EntryWrite) (p : Nat) {after : List EntryWrite}
    (kept : .clear ∉ after) : lastWritten (before ++ .grant p :: after) ≠ .unused := by
  induction after using List.reverseRecOn with
  | nil => simp [lastWritten, EntryWrite.leaves]
  | append_singleton after w _ =>
      have last : w ≠ .clear := by
        intro same
        exact kept (by simp [same])
      simpa [lastWritten] using leaves_ne_unused last

/-! The functions of `virt.c` on whole page tables. -/

/-- Every entry of every thread changed by guarded writes only. -/
def EntryChanges (s s' : Vm) : Prop :=
  ∀ t j, ∃ ws, EntryRun (s.pagetables t j) ws (s'.pagetables t j)

variable {s s' s'' : Vm} {t current : ThreadId} {i j p offset : Nat}

theorem EntryChanges.of_same (h : s'.pagetables = s.pagetables) : EntryChanges s s' := by
  intro t j
  exact ⟨[], h ▸ .nil _⟩

theorem EntryChanges.trans (first : EntryChanges s s') (second : EntryChanges s' s'') :
    EntryChanges s s'' := by
  intro t j
  obtain ⟨ws, run⟩ := first t j
  obtain ⟨ws', run'⟩ := second t j
  exact ⟨ws ++ ws', run.append run'⟩

/-- One entry is written behind its test. -/
theorem EntryChanges.setEntry {e : Mmpte} {w : EntryWrite} (fits : w.Fits)
    (written : (s.pagetables t j).write w = some e) : EntryChanges s (s.setEntry t j e) := by
  intro t' j'
  by_cases same : t' = t ∧ j' = j
  · obtain ⟨rfl, rfl⟩ := same
    refine ⟨[w], .single fits ?_⟩
    simpa [Vm.setEntry] using written
  · refine ⟨[], ?_⟩
    rw [s.pagetables_setEntry_of_ne e (by tauto)]
    exact .nil _

theorem swapOut_ok {address : Nat} (h : s.swapOut address = .ok (s', offset)) :
    s'.pagetables = s.pagetables ∧ s'.gPfn = s.gPfn ∧ offset < 2 ^ 30 := by
  unfold Vm.swapOut at h
  split at h
  · cases h
  · split at h
    · cases h
    · rename_i k hk
      cases h
      exact ⟨rfl, rfl, slot_offset_lt (firstIndex_eq_some.mp hk).2.1⟩

/-- Finding a frame evicts at most one page, and none of `CURRENT`. -/
theorem allocatePhysicalPage_ok (h : Vm.allocatePhysicalPage current s = .ok (s', p)) :
    p < 2 ^ 20 ∧ s'.pagetables current = s.pagetables current ∧ EntryChanges s s' := by
  have frames : maxPhysicalPages = 2048 := maxPhysicalPages_eq
  unfold Vm.allocatePhysicalPage Vm.evictPage at h
  split at h
  · split at h
    · cases h
      exact ⟨by omega, rfl, .of_same rfl⟩
    · rename_i i hi
      obtain ⟨hother, hlt, -⟩ := firstIndex_eq_some.mp hi
      split at h
      · cases h
      · rename_i s₁ offset hswap
        obtain ⟨tables, pfns, fits⟩ := swapOut_ok hswap
        split at h
        · cases h
        · rename_i thread howner
          split at h
          · cases h
            exact ⟨by omega, congrFun tables current, .of_same tables⟩
          · rename_i j hj
            cases h
            obtain ⟨hfound, -⟩ := firstIndex_eq_some.mp hj
            have valid : (s₁.pagetables thread j).hardValid = 1#1 := by
              simpa using (Bool.and_eq_true_iff.mp hfound).1
            have apart : current ≠ thread := by
              rintro rfl
              rw [← pfns, howner] at hother
              simp at hother
            have evicted : EntryChanges s₁
                (s₁.setEntry thread j ((s₁.pagetables thread j).evicted offset)) :=
              .setEntry (w := .evict offset) fits (if_pos valid)
            refine ⟨by omega, ?_, (EntryChanges.of_same tables).trans evicted⟩
            exact (Function.update_of_ne apart _ _).trans (congrFun tables current)
  · split at h
    · rename_i i hi
      cases h
      have hlt := (firstIndex_eq_some.mp hi).2.1
      exact ⟨by omega, rfl, .of_same rfl⟩
    · cases h

theorem entryChanges_mmAllocatePage {address : Option Nat}
    (h : Vm.mmAllocatePage current s = .ok (s', address)) : EntryChanges s s' := by
  unfold Vm.mmAllocatePage at h
  split at h
  · cases h
    exact .of_same rfl
  · rename_i i hi
    split at h
    · cases h
    · rename_i s₁ pfn halloc
      cases h
      obtain ⟨fits, own, changes⟩ := allocatePhysicalPage_ok halloc
      have unused : (s₁.pagetables current i).long = 0#64 := by
        rw [own]
        simpa using (firstIndex_eq_some.mp hi).1
      have granted : EntryChanges s₁
          (s₁.setEntry current i ((s₁.pagetables current i).granted pfn)) :=
        .setEntry (w := .grant pfn) fits (if_pos unused)
      exact changes.trans (granted.trans (.of_same rfl))

theorem entryChanges_pagefaultHandler {address : Nat}
    (h : Vm.pagefaultHandler current address s = .ok s') : EntryChanges s s' := by
  simp only [Vm.pagefaultHandler] at h
  split at h
  · split at h
    · rename_i invalid
      split at h
      · rename_i swapped
        split at h
        · cases h
        · rename_i s₁ pfn halloc
          obtain ⟨fits, own, changes⟩ := allocatePhysicalPage_ok halloc
          rw [← own] at invalid swapped
          have served : EntryChanges s₁
              (s₁.setEntry current (miGetpteindex address) (Mmpte.faultedIn pfn)) :=
            .setEntry (w := .faultIn pfn) fits (if_pos ⟨invalid, swapped⟩)
          refine changes.trans (served.trans (.of_same ?_))
          unfold Vm.swapIn at h
          split at h
          · cases h
          · split at h
            · cases h
              rfl
            · cases h
      · cases h
    · cases h
  · cases h

theorem entryChanges_freeThreadPages (ti : ThreadId) (s : Vm) :
    EntryChanges s (s.freeThreadPages ti) := by
  refine forRange_induct (fun _ s' => EntryChanges s s') _ _ s (.of_same rfl) ?_
  intro i s' _ changes
  split
  · rename_i valid
    have freed := s'.pagetables_freePhysicalPage (s'.pagetables ti i).hardPageframenumber
    have cleared : EntryChanges (s'.freePhysicalPage (s'.pagetables ti i).hardPageframenumber)
        ((s'.freePhysicalPage (s'.pagetables ti i).hardPageframenumber).setEntry ti i
          Mmpte.zero) := by
      refine .setEntry (w := .clear) trivial (if_pos ?_)
      rw [freed]
      exact valid
    exact changes.trans ((EntryChanges.of_same freed).trans cleared)
  · exact changes

/-- After every sequence of the guarded writes from `Long == 0` the entry reads as the
state last written and as no other, and while it is granted no grant finds it unused. -/
theorem entry_reads_last_written {ws : List EntryWrite} {e : Mmpte}
    (run : EntryRun Mmpte.zero ws e) :
    (∀ st, e.Reads st ↔ st = lastWritten ws) ∧
      ∀ before p after, ws = before ++ .grant p :: after → .clear ∉ after →
        e.long ≠ 0#64 ∧ ∀ q, e.write (.grant q) = none := by
  have last : e.Reads (lastWritten ws) := run.reads rfl
  refine ⟨?_, ?_⟩
  · intro st
    constructor
    · intro h
      exact h.unique last
    · rintro rfl
      exact last
  · rintro before p after rfl kept
    have used : e.long ≠ 0#64 := by
      intro zero
      have unused : e.Reads .unused := zero
      exact lastWritten_ne_unused before p kept (last.unique unused)
    exact ⟨used, fun q => if_neg used⟩

/-- A page granted, sent to the swap file and read back into another frame. -/
theorem entry_reads_last_written_fault :
    (Mmpte.faultedIn 7).Reads (.inMemory 7) ∧ (Mmpte.faultedIn 7).long ≠ 0#64 := by
  have granted : Mmpte.zero.write (.grant 5) = some (Mmpte.zero.granted 5) := by decide
  have evicted : (Mmpte.zero.granted 5).write (.evict 0x3000) =
      some ((Mmpte.zero.granted 5).evicted 0x3000) := by decide
  have faulted : ((Mmpte.zero.granted 5).evicted 0x3000).write (.faultIn 7) =
      some (Mmpte.faultedIn 7) := by decide
  have run : EntryRun Mmpte.zero [.grant 5, .evict 0x3000, .faultIn 7] (Mmpte.faultedIn 7) :=
    .cons (by decide) granted (.cons (by decide) evicted (.cons (by decide) faulted (.nil _)))
  have h := entry_reads_last_written run
  exact ⟨(h.1 _).mpr rfl, (h.2 [] 5 _ rfl (by decide)).1⟩

end OsDesign.Virt
