import OsDesign.Heap.MyMalloc

/-!
The trunks of a heap side by side: a record for each page behind the first one,
and the live blocks of all of them. A call changes one record and the blocks of
its trunk.
-/
namespace OsDesign.Heap

open Virt

namespace ThreadHeap

/-- The trunk an address lies in. -/
def trunkOf (address : Nat) : Nat := (address - (virtualHeapStart + pageSize)) / pageSize

def trunkBlocks (blocks : List Block) (i : Nat) : List Block :=
  blocks.filter fun b => trunkOf b.address = i

variable {blocks : List Block} {b : Block} {i : Nat}

theorem mem_trunkBlocks : b ∈ trunkBlocks blocks i ↔ b ∈ blocks ∧ trunkOf b.address = i := by
  rw [trunkBlocks, List.mem_filter, decide_eq_true_eq]

theorem trunkOf_eq {address : Nat} (hlow : virtualHeapStart + pageSize + i * pageSize ≤ address)
    (hhigh : address < virtualHeapStart + pageSize + i * pageSize + 0x1000) :
    trunkOf address = i := by
  change 0x60001000 + i * 4096 ≤ address at hlow
  change address < 0x60001000 + i * 4096 + 4096 at hhigh
  change (address - 0x60001000) / 4096 = i
  omega

end ThreadHeap

open ThreadHeap

/-- The live blocks lie in the first `n` trunks, and the record of each tells its
blocks. The page of trunk `i` is page `i + 1`. -/
structure TrunksHold (records : Nat → HeapMetadataT) (n : Nat) (blocks : List Block) : Prop where
  held : ∀ i, i < n → (records i).Holds (pageAddress (i + 1)) (trunkBlocks blocks i)
  placed : ∀ b, b ∈ blocks → virtualHeapStart + pageSize ≤ b.address ∧ trunkOf b.address < n

namespace TrunksHold

variable {records records' : Nat → HeapMetadataT} {n i size ptr : Nat} {blocks : List Block}
  {b : Block}

theorem pageAddress_succ (i : Nat) : pageAddress (i + 1) = 0x60001000 + i * 4096 := by
  change 0x60000000 + (i + 1) * 4096 = _
  omega

theorem congr (hold : TrunksHold records n blocks) (h : ∀ i, i < n → records' i = records i) :
    TrunksHold records' n blocks := by
  refine ⟨?_, hold.placed⟩
  intro i hi
  rw [h i hi]
  exact hold.held i hi

/-- A block of trunk `i` lies in its page. -/
theorem inside (hold : TrunksHold records n blocks) (hb : b ∈ blocks) :
    trunkOf b.address < n ∧ 0 < b.size ∧ 0x60001000 + trunkOf b.address * 4096 ≤ b.address ∧
      b.address + b.size ≤ 0x60001000 + trunkOf b.address * 4096 + 4096 := by
  have hlt := (hold.placed b hb).2
  have hmem := mem_trunkBlocks.mpr ⟨hb, rfl⟩
  have hholds := hold.held _ hlt
  have hinside := hholds.inside hmem
  obtain ⟨-, -, -, hpos, -⟩ := hholds.placed b hmem
  rw [pageAddress_succ] at hinside
  exact ⟨hlt, hpos, hinside⟩

/-- A block taken from trunk `i` joins its blocks. -/
theorem grow (hold : TrunksHold records n blocks) (hi : i < n) {md : HeapMetadataT}
    (hok : (records i)._malloc (pageAddress (i + 1)) size = (md, some ptr)) :
    TrunksHold (Function.update records i md) n (⟨ptr, size⟩ :: blocks) := by
  have hmore := (hold.held i hi).malloc size
  rw [hok] at hmore
  change md.Holds (pageAddress (i + 1)) (⟨ptr, size⟩ :: trunkBlocks blocks i) at hmore
  have hinside := hmore.inside List.mem_cons_self
  obtain ⟨-, -, -, hpos, -⟩ := hmore.placed _ List.mem_cons_self
  rw [pageAddress_succ] at hinside
  change 0x60001000 + i * 4096 ≤ ptr ∧ ptr + size ≤ 0x60001000 + i * 4096 + 4096 at hinside
  change 0 < size at hpos
  have htrunk : trunkOf ptr = i := trunkOf_eq hinside.1 (by
    change ptr < 0x60001000 + i * 4096 + 4096
    omega)
  refine ⟨?_, ?_⟩
  · intro j hj
    by_cases hji : j = i
    · subst hji
      have hcons : trunkBlocks (⟨ptr, size⟩ :: blocks) j = ⟨ptr, size⟩ :: trunkBlocks blocks j :=
        List.filter_cons_of_pos (decide_eq_true htrunk)
      rw [Function.update_self, hcons]
      exact hmore
    · have hskip : trunkBlocks (⟨ptr, size⟩ :: blocks) j = trunkBlocks blocks j := by
        apply List.filter_cons_of_neg
        rw [decide_eq_true_eq]
        exact fun same => hji (same.symm.trans htrunk)
      rw [Function.update_of_ne hji, hskip]
      exact hold.held j hj
  · intro b hb
    rcases List.mem_cons.mp hb with rfl | hold'
    · refine ⟨?_, ?_⟩
      · change 0x60001000 ≤ ptr
        omega
      · rw [htrunk]
        exact hi
    · exact hold.placed b hold'

/-- The blocks left behind `free(ptr)` are those of the trunks left behind it. -/
theorem trunkBlocks_release (blocks : List Block) (ptr i : Nat) :
    trunkBlocks (release blocks ptr) i = release (trunkBlocks blocks i) ptr := by
  simp only [trunkBlocks, Heap.release, List.filter_filter, Bool.and_comm]

/-- What trunk `i` gives up leaves its blocks; the other trunks keep theirs. -/
theorem release (hold : TrunksHold records n blocks) {md : HeapMetadataT}
    (hmd : i < n → md.Holds (pageAddress (i + 1)) (Heap.release (trunkBlocks blocks i) ptr))
    (only : ∀ b, b ∈ blocks → b.address = ptr → trunkOf b.address = i) :
    TrunksHold (Function.update records i md) n (Heap.release blocks ptr) := by
  refine ⟨?_, fun b hb => hold.placed b (mem_release.mp hb).1⟩
  intro j hj
  rw [trunkBlocks_release]
  by_cases hji : j = i
  · subst hji
    rw [Function.update_self]
    exact hmd hj
  · have hsame : Heap.release (trunkBlocks blocks j) ptr = trunkBlocks blocks j := by
      apply release_of_absent
      intro b hb same
      obtain ⟨hmem, htrunk⟩ := mem_trunkBlocks.mp hb
      exact hji (htrunk.symm.trans (only b hmem same))
    rw [Function.update_of_ne hji, hsame]
    exact hold.held j hj

/-- A block that is freed leaves the blocks of its trunk. -/
theorem free (hold : TrunksHold records n blocks) (hb : b ∈ blocks) :
    TrunksHold (Function.update records (trunkOf b.address) ((records (trunkOf b.address))._free
      (pageAddress (trunkOf b.address + 1)) b.address)) n (Heap.release blocks b.address) := by
  obtain ⟨hlt, -, hstart, hend⟩ := hold.inside hb
  refine hold.release ?_ fun b' _ same => by rw [same]
  intro _
  apply (hold.held _ hlt).free
  rw [pageAddress_succ]
  exact ptrOffset_eq (by omega) (by omega)

/-- Behind the trunks there are no blocks. -/
theorem trunkBlocks_eq_nil (hold : TrunksHold records n blocks) {i : Nat} (behind : n ≤ i) :
    trunkBlocks blocks i = [] := by
  apply List.filter_eq_nil_iff.mpr
  intro b hb
  have hlt := (hold.placed b hb).2
  rw [decide_eq_true_eq]
  omega

/-- A trunk more, with nothing taken. -/
theorem extend (hold : TrunksHold records n blocks) (blank : records n = .zero) :
    TrunksHold records (n + 1) blocks := by
  refine ⟨?_, fun b hb => ⟨(hold.placed b hb).1, Nat.lt_succ_of_lt (hold.placed b hb).2⟩⟩
  intro i hi
  rcases Nat.lt_succ_iff_lt_or_eq.mp hi with hold' | hnew
  · exact hold.held i hold'
  · rw [hold.trunkBlocks_eq_nil (Nat.le_of_eq hnew.symm), hnew, blank]
    exact .zero _

theorem apart (hold : TrunksHold records n blocks) : blocks.Pairwise Block.Apart := by
  have hclasses : ∀ i, (blocks.filter fun b => trunkOf b.address = i).Pairwise Block.Apart := by
    intro i
    rw [← trunkBlocks]
    by_cases hi : i < n
    · exact (hold.held i hi).apart
    · rw [hold.trunkBlocks_eq_nil (Nat.le_of_not_lt hi)]
      exact .nil
  refine pairwise_of_classes _ hclasses ?_
  intro b b' hb hb' hne
  have hinside := hold.inside hb
  have hinside' := hold.inside hb'
  rcases Nat.lt_or_gt_of_ne hne with hlt | hlt
  · exact .inl (by omega)
  · exact .inr (by omega)

end TrunksHold

end OsDesign.Heap
