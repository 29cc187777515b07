import OsDesign.Lib.Outcome
import OsDesign.Lib.Runs
import OsDesign.Shm.Pages

/-!
Runs of `shalloc` and of `shfree` on what it returned. The flags, the count and
the ranges handed out agree as long as the first free pages stand in a row
wherever `shalloc` takes them, and as many pages are free as `shfree` releases.
-/
namespace OsDesign.Shm

open Loops Tally Virt

/-- What `shalloc` returned for a size, until it is given back. -/
structure Allocation where
  address : Nat
  size : BitVec 64
  deriving DecidableEq

namespace Allocation

def pages (a : Allocation) : Nat := Shm.pages a.size

/-- Page `k` of the share section begins inside the allocation. -/
def Covers (a : Allocation) (k : Nat) : Prop :=
  a.address ≤ virtualShareStart + k * pageSize ∧
    virtualShareStart + k * pageSize < a.address + a.pages * pageSize

instance (a : Allocation) (k : Nat) : Decidable (a.Covers k) :=
  inferInstanceAs (Decidable (a.address ≤ virtualShareStart + k * pageSize ∧
    virtualShareStart + k * pageSize < a.address + a.pages * pageSize))

theorem covers_iff {a : Allocation} {first k : Nat}
    (h : a.address = virtualShareStart + first * pageSize) :
    a.Covers k ↔ first ≤ k ∧ k < first + a.pages := by
  rw [Covers, h]
  simp only [pageSize]
  omega

end Allocation

/-- The charmap and the live allocations. -/
structure Section where
  charmap : Charmap
  live : List Allocation

inductive Call
  | shalloc (size : BitVec 64)
  | shfree (a : Allocation)

namespace Section

def start : Section := ⟨shinit, []⟩

def next (s : Section) : Call → Except Fault Section
  | .shalloc size =>
      match Shm.shalloc size s.charmap with
      | .error fault => .error fault
      | .ok (charmap, none) => .ok { s with charmap := charmap }
      | .ok (charmap, some address) => .ok ⟨charmap, s.live ++ [⟨address, size⟩]⟩
  | .shfree a =>
      match Shm.shfree a.address a.size s.charmap with
      | .error fault => .error fault
      | .ok charmap => .ok ⟨charmap, s.live.erase a⟩

def Step (s : Section) (c : Call) (s' : Section) : Prop := s.next c = .ok s'

/-- A live allocation is given back with the size it was requested with. -/
def Permitted (s : Section) : Call → Prop
  | .shalloc size => size.toNat < 2 ^ 31
  | .shfree a => a ∈ s.live

/-- The count is the number of pages marked; the live allocations lie in the
share section on pages of their own; and a page is marked exactly if one of them
covers it. -/
structure Consistent (s : Section) : Prop where
  counted : s.charmap.Counted
  placed : ∀ a, a ∈ s.live → ∃ first, a.address = virtualShareStart + first * pageSize ∧
    first + a.pages ≤ maxSharePages
  disjoint : s.live.Pairwise fun a b => ∀ k, ¬ (a.Covers k ∧ b.Covers k)
  marked : ∀ k, k < maxSharePages →
    (s.charmap.gShare k = true ↔ ∃ a, a ∈ s.live ∧ a.Covers k)

/-- The number of pages that are not marked. -/
def free (s : Section) : Nat := maxSharePages - tally maxSharePages s.charmap.gShare

/-- If there are enough free pages, the first of them stand in a row where
`shalloc` takes them; and `shfree` releases no more pages than are free. -/
def Orderly (s : Section) : Call → Prop
  | .shalloc size => pages size ≤ s.free →
      ∀ first, first ∈ firstIndex maxSharePages (fun i => !s.charmap.gShare i) →
        ∀ j, first ≤ j → j < first + pages size → s.charmap.gShare j = false
  | .shfree a => a.pages ≤ s.free

/-- Every live allocation has a page, and a size the runs allow. -/
def Sized (s : Section) : Prop := ∀ a, a ∈ s.live → 0 < a.pages ∧ a.size.toNat < 2 ^ 31

variable {s s' : Section} {size : BitVec 64} {a : Allocation}

theorem start_consistent : start.Consistent := by
  refine ⟨?_, ?_, List.Pairwise.nil, ?_⟩
  · change (0 : Int) = (tally maxSharePages fun _ => false : Nat)
    rw [tally_none]
    rfl
  · intro a ha
    cases ha
  · intro k _
    simp [start, shinit]

/-- A refused request changes nothing. -/
theorem next_null (consistent : s.Consistent) (small : size.toNat < 2 ^ 31)
    (h : pages size = 0 ∨ s.free < pages size) : s.next (.shalloc size) = .ok s := by
  rw [next, shalloc_null small consistent.counted h]

/-- A request that finds enough pages marks those up to a free page `last`. -/
theorem next_shalloc (consistent : s.Consistent) (small : size.toNat < 2 ^ 31)
    (pos : 0 < pages size) (fits : pages size ≤ s.free) :
    ∃ start, start + pages size ≤ maxSharePages ∧
      s.next (.shalloc size) = .ok
        ⟨⟨fill s.charmap.gShare start (pages size) true,
          s.charmap.gShareCount + BitVec.ofNat 32 (pages size)⟩,
          s.live ++ [⟨virtualShareStart + start * pageSize, size⟩]⟩ ∧
      ((∀ j, start ≤ j → j < start + pages size → s.charmap.gShare j = false) ↔
        s.Orderly (.shalloc size)) := by
  obtain ⟨first, last, hfirst, hfree, hle, hbelow, hlast, hcard, hwithin, hok⟩ :=
    shalloc_of_room small consistent.counted pos fits
  refine ⟨last + 1 - pages size, by omega, ?_, ?_⟩
  · rw [next, hok]
  · rw [marked_free_iff hfree hlast hle hcard]
    constructor
    · intro row _ first' hfirst'
      obtain rfl : first = first' := Option.some.inj (hfirst.symm.trans hfirst')
      exact row
    · intro orderly
      exact orderly fits first hfirst

theorem Consistent.allocated (consistent : s.Consistent) {start : Nat}
    (inside : start + pages size ≤ maxSharePages)
    (clear : ∀ j, start ≤ j → j < start + pages size → s.charmap.gShare j = false) :
    Consistent ⟨⟨fill s.charmap.gShare start (pages size) true,
      s.charmap.gShareCount + BitVec.ofNat 32 (pages size)⟩,
      s.live ++ [⟨virtualShareStart + start * pageSize, size⟩]⟩ := by
  have hcovers : ∀ k, Allocation.Covers ⟨virtualShareStart + start * pageSize, size⟩ k ↔
      start ≤ k ∧ k < start + pages size := fun k => Allocation.covers_iff rfl
  have hunused : ∀ b, b ∈ s.live → ∀ k, b.Covers k → ¬ (start ≤ k ∧ k < start + pages size) := by
    intro b hb k hk hrange
    have hset := (consistent.marked k (by omega)).mpr ⟨b, hb, hk⟩
    rw [clear k hrange.1 hrange.2] at hset
    cases hset
  refine ⟨consistent.counted.fill_set inside clear, ?_, ?_, ?_⟩
  · intro b hb
    cases List.mem_append.mp hb with
    | inl old => exact consistent.placed b old
    | inr new =>
        rw [List.mem_singleton.mp new]
        exact ⟨start, rfl, inside⟩
  · refine List.pairwise_append.mpr ⟨consistent.disjoint, List.pairwise_singleton _ _, ?_⟩
    intro b hb c hc k hboth
    rw [List.mem_singleton.mp hc, hcovers] at hboth
    exact hunused b hb k hboth.1 hboth.2
  · intro k hk
    change fill s.charmap.gShare start (pages size) true k = true ↔ _
    by_cases hrange : start ≤ k ∧ k < start + pages size
    · rw [fill_of_mem true hrange]
      refine iff_of_true rfl ⟨_, List.mem_append_right _ (List.mem_singleton_self _), ?_⟩
      exact (hcovers k).mpr hrange
    · rw [fill_of_notMem true hrange, consistent.marked k hk]
      constructor
      · intro old
        obtain ⟨b, hb, hcover⟩ := old
        exact ⟨b, List.mem_append_left _ hb, hcover⟩
      · intro some
        obtain ⟨b, hb, hcover⟩ := some
        cases List.mem_append.mp hb with
        | inl old => exact ⟨b, old, hcover⟩
        | inr new =>
            rw [List.mem_singleton.mp new, hcovers] at hcover
            exact absurd hcover hrange

/-- A page marked for two allocations. -/
theorem Consistent.not_allocated (consistent : s.Consistent) {start j : Nat}
    (inside : start + pages size ≤ maxSharePages) (hlow : start ≤ j)
    (hhigh : j < start + pages size) (used : s.charmap.gShare j = true) (charmap : Charmap) :
    ¬ Consistent ⟨charmap, s.live ++ [⟨virtualShareStart + start * pageSize, size⟩]⟩ := by
  intro after
  obtain ⟨b, hb, hcover⟩ := (consistent.marked j (by omega)).mp used
  have apart := (List.pairwise_append.mp after.disjoint).2.2 b hb _ (List.mem_singleton_self _) j
  exact apart ⟨hcover, (Allocation.covers_iff rfl).mpr ⟨hlow, hhigh⟩⟩

/-- The other live allocations have none of the pages of `a`. -/
theorem Consistent.apart (consistent : s.Consistent) (ha : a ∈ s.live) {b : Allocation}
    (hb : b ∈ s.live.erase a) (k : Nat) : ¬ (a.Covers k ∧ b.Covers k) := by
  have hpairs := ((List.perm_cons_erase ha).pairwise_iff fun h k both =>
    h k ⟨both.2, both.1⟩).mp consistent.disjoint
  exact (List.pairwise_cons.mp hpairs).1 b hb k

theorem Consistent.released (consistent : s.Consistent) (ha : a ∈ s.live) {start : Nat}
    (address : a.address = virtualShareStart + start * pageSize)
    (inside : start + a.pages ≤ maxSharePages) (small : a.size.toNat < 2 ^ 31) :
    Consistent ⟨⟨fill s.charmap.gShare start a.pages false,
      s.charmap.gShareCount - pageCount a.size⟩, s.live.erase a⟩ := by
  have hcovers : ∀ k, a.Covers k ↔ start ≤ k ∧ k < start + a.pages :=
    fun k => Allocation.covers_iff address
  have hset : ∀ k, start ≤ k → k < start + a.pages → s.charmap.gShare k = true := by
    intro k hlow hhigh
    exact (consistent.marked k (by omega)).mpr ⟨a, ha, (hcovers k).mpr ⟨hlow, hhigh⟩⟩
  refine ⟨consistent.counted.fill_clear (pageCount_toNat small) inside hset, ?_, ?_, ?_⟩
  · exact fun b hb => consistent.placed b (List.mem_of_mem_erase hb)
  · exact consistent.disjoint.sublist List.erase_sublist
  · intro k hk
    change fill s.charmap.gShare start a.pages false k = true ↔ _
    by_cases hrange : start ≤ k ∧ k < start + a.pages
    · rw [fill_of_mem false hrange]
      refine iff_of_false (by simp) ?_
      intro some
      obtain ⟨b, hb, hcover⟩ := some
      exact consistent.apart ha hb k ⟨(hcovers k).mpr hrange, hcover⟩
    · rw [fill_of_notMem false hrange, consistent.marked k hk]
      constructor
      · intro old
        obtain ⟨b, hb, hcover⟩ := old
        have other : b ≠ a := by
          intro same
          rw [same, hcovers] at hcover
          exact hrange hcover
        exact ⟨b, (List.mem_erase_of_ne other).mpr hb, hcover⟩
      · intro left
        obtain ⟨b, hb, hcover⟩ := left
        exact ⟨b, List.mem_of_mem_erase hb, hcover⟩

/-- A permitted call comes back, and leaves the state consistent exactly if it
is orderly. -/
theorem Consistent.call (consistent : s.Consistent) (sized : s.Sized) {c : Call}
    (permitted : s.Permitted c) : ∃ s', s.Step c s' ∧ s'.Sized ∧ (s'.Consistent ↔ s.Orderly c) := by
  cases c with
  | shalloc size =>
      by_cases served : 0 < pages size ∧ pages size ≤ s.free
      · obtain ⟨start, inside, hnext, horderly⟩ :=
          next_shalloc consistent permitted served.1 served.2
        refine ⟨_, hnext, ?_, ?_⟩
        · intro b hb
          cases List.mem_append.mp hb with
          | inl old => exact sized b old
          | inr new =>
              rw [List.mem_singleton.mp new]
              exact ⟨served.1, permitted⟩
        · rw [← horderly]
          constructor
          · intro after j hlow hhigh
            by_contra used
            exact consistent.not_allocated inside hlow hhigh (by simpa using used) _ after
          · exact consistent.allocated inside
      · have refused : pages size = 0 ∨ s.free < pages size := by omega
        refine ⟨s, next_null consistent permitted refused, sized, iff_of_true consistent ?_⟩
        intro fits first _ j hlow hhigh
        omega
  | shfree a =>
      obtain ⟨pos, small⟩ := sized a permitted
      obtain ⟨start, address, inside⟩ := consistent.placed a permitted
      have kept : ∀ charmap, Sized ⟨charmap, s.live.erase a⟩ :=
        fun _ b hb => sized b (List.mem_of_mem_erase hb)
      have hroom : s.charmap.room = (s.free : Nat) := consistent.counted.room
      by_cases fits : a.pages ≤ s.free
      · have hfree := shfree_of_room (pageCount_toInt small) (hroom ▸ Int.ofNat_le.mpr fits)
          inside pos
        have released := consistent.released permitted address inside small
        refine ⟨_, ?_, kept _, iff_of_true released fits⟩
        rw [Step, next, address, hfree]
        rfl
      · have hlarge : s.charmap.room < (pageCount a.size).toInt := by
          rw [hroom, pageCount_toInt small]
          exact Int.ofNat_lt.mpr (Nat.lt_of_not_le fits)
        have hfree := shfree_refused a.address hlarge
        refine ⟨⟨s.charmap, s.live.erase a⟩, ?_, kept _, iff_of_false ?_ fits⟩
        · rw [Step, next, hfree]
        · intro after
          have hcover : a.Covers start := (Allocation.covers_iff address).mpr (by omega)
          have hset := (consistent.marked start (by omega)).mpr ⟨a, permitted, hcover⟩
          obtain ⟨b, hb, hother⟩ := (after.marked start (by omega)).mp hset
          exact consistent.apart permitted hb start ⟨hcover, hother⟩

/-- In a run of orderly calls the charmap and the live allocations agree, every
call comes back, and the first call that is not orderly ends the agreement. -/
theorem consistent_of_reachable
    (reach : Runs.Reachable (fun s => s = start) (fun s c => s.Permitted c ∧ s.Orderly c) Step s) :
    s.Consistent ∧
      ∀ c, s.Permitted c → ∃ s', s.Step c s' ∧ (s'.Consistent ↔ s.Orderly c) := by
  have both : s.Consistent ∧ s.Sized := by
    refine reach.invariant (fun s => s.Consistent ∧ s.Sized) ?_ ?_
    · intro s hs
      rw [hs]
      exact ⟨start_consistent, fun a ha => by cases ha⟩
    · intro s c s' permitted taken before
      obtain ⟨s'', step, sized, horderly⟩ := before.1.call before.2 permitted.1
      obtain rfl : s'' = s' := Except.ok.inj (step.symm.trans taken)
      exact ⟨horderly.mpr permitted.2, sized⟩
  refine ⟨both.1, ?_⟩
  intro c permitted
  obtain ⟨s', step, -, horderly⟩ := both.1.call both.2 permitted
  exact ⟨s', step, horderly⟩

instance (s : Section) : DecidablePred s.Permitted
  | .shalloc size => inferInstanceAs (Decidable (size.toNat < 2 ^ 31))
  | .shfree a => inferInstanceAs (Decidable (a ∈ s.live))

instance (s : Section) : DecidablePred s.Orderly
  | .shalloc size => inferInstanceAs (Decidable (pages size ≤ s.free →
      ∀ first, first ∈ firstIndex maxSharePages (fun i => !s.charmap.gShare i) →
        ∀ j, first ≤ j → j < first + pages size → s.charmap.gShare j = false))
  | .shfree a => inferInstanceAs (Decidable (a.pages ≤ s.free))

/-- The calls one after another, each allowed where it is made. -/
def execute (allowed : Section → Call → Prop) [∀ s c, Decidable (allowed s c)] :
    Section → List Call → Option Section :=
  Runs.run (fun s c => decide (allowed s c)) fun s c => (s.next c).toOption

theorem reachable_of_execute {allowed : Section → Call → Prop} [∀ s c, Decidable (allowed s c)]
    {cs : List Call} (h : execute allowed start cs = some s) :
    Runs.Reachable (fun s => s = start) allowed Step s := by
  refine ⟨start, cs, rfl, (Runs.steps_of_run _ _ h).mapStep ?_⟩
  intro s c s' permitted taken
  exact ⟨of_decide_eq_true permitted, Outcome.toOption_eq_some_iff.mp taken⟩

/-- Two allocations, the first given back, and its page taken again. -/
theorem consistent_after_reuse :
    ∃ s, execute (fun s c => s.Permitted c ∧ s.Orderly c) start
        [.shalloc 4096, .shalloc 8000, .shfree ⟨virtualShareStart, 4096⟩, .shalloc 1] = some s ∧
      s.Consistent := by
  have hrun : (execute (fun s c => s.Permitted c ∧ s.Orderly c) start
      [.shalloc 4096, .shalloc 8000, .shfree ⟨virtualShareStart, 4096⟩, .shalloc 1]).isSome := by
    decide +kernel
  obtain ⟨s, hs⟩ := Option.isSome_iff_exists.mp hrun
  exact ⟨s, hs, (consistent_of_reachable (reachable_of_execute hs)).1⟩

/-- With page 1 allocated and page 0 free, two pages are taken at page 1. -/
theorem exists_overlap : ∃ s, Runs.Reachable (fun s => s = start) Permitted Step s ∧
    ¬ s.Consistent ∧
    s.live = [⟨virtualShareStart + pageSize, 4096⟩, ⟨virtualShareStart + pageSize, 8192⟩] := by
  have hrun : (execute Permitted start [.shalloc 4096, .shalloc 4096,
      .shfree ⟨virtualShareStart, 4096⟩, .shalloc 8192]).any (fun s => decide (s.live =
        [⟨virtualShareStart + pageSize, 4096⟩, ⟨virtualShareStart + pageSize, 8192⟩])) = true := by
    decide +kernel
  obtain ⟨s, hs, hlive⟩ := (Option.any_eq_true _ _).mp hrun
  refine ⟨s, reachable_of_execute hs, ?_, of_decide_eq_true hlive⟩
  intro consistent
  have apart := consistent.disjoint
  rw [of_decide_eq_true hlive] at apart
  exact (List.pairwise_cons.mp apart).1 _ (List.mem_singleton_self _) 1 ⟨by decide, by decide⟩

/-- All four pages are allocated, and `shfree` lets none of them go. -/
theorem exists_leak : ∃ s, Runs.Reachable (fun s => s = start) Permitted Step s ∧
    ¬ s.Consistent ∧ s.live = [] := by
  have hrun : (execute Permitted start [.shalloc 16384, .shfree ⟨virtualShareStart, 16384⟩]).any
      (fun s => decide (s.live = [] ∧ s.charmap.gShare 0 = true)) = true := by
    decide +kernel
  obtain ⟨s, hs, hleft⟩ := (Option.any_eq_true _ _).mp hrun
  obtain ⟨hlive, hmarked⟩ := of_decide_eq_true hleft
  refine ⟨s, reachable_of_execute hs, ?_, hlive⟩
  intro consistent
  obtain ⟨a, ha, -⟩ := (consistent.marked 0 (by rw [maxSharePages_eq]; decide)).mp hmarked
  rw [hlive] at ha
  cases ha

/-- Permitted calls alone do not keep the charmap and the allocations in
agreement: `shalloc` may hand a page out twice, and `shfree` may keep pages. -/
theorem pages_overlap_or_leak :
    (∃ s, Runs.Reachable (fun s => s = start) Permitted Step s ∧ ¬ s.Consistent ∧
      s.live = [⟨virtualShareStart + pageSize, 4096⟩, ⟨virtualShareStart + pageSize, 8192⟩]) ∧
    ∃ s, Runs.Reachable (fun s => s = start) Permitted Step s ∧ ¬ s.Consistent ∧
      s.live = [] :=
  ⟨exists_overlap, exists_leak⟩

end Section

end OsDesign.Shm
