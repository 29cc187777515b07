import Mathlib.Data.Finset.Card
import Mathlib.Data.Fintype.Card
import OsDesign.Heap.Metadata

/-!
One page of heap as the set of blocks handed out from it. The metadata stand for
a list of live blocks: a slot's flag is set exactly if a block starts there.
-/
namespace OsDesign.Heap

/-- What `malloc` returned for a size, until it is freed. -/
structure Block where
  address : Nat
  size : Nat
  deriving DecidableEq

def Block.Apart (b b' : Block) : Prop :=
  b.address + b.size ≤ b'.address ∨ b'.address + b'.size ≤ b.address

/-- The live blocks after `malloc(size)` returned `ptr`. -/
def grow (blocks : List Block) (size : Nat) : Option Nat → List Block
  | none => blocks
  | some address => ⟨address, size⟩ :: blocks

/-- The live blocks after `free(ptr)`. -/
def release (blocks : List Block) (ptr : Nat) : List Block :=
  blocks.filter fun b => b.address ≠ ptr

/-- A relation that holds within every class of a list and across the classes
holds along the list. -/
theorem pairwise_of_classes {α : Type} {R : α → α → Prop} (f : α → Nat) {l : List α}
    (within : ∀ i, (l.filter fun a => f a = i).Pairwise R)
    (across : ∀ a a', a ∈ l → a' ∈ l → f a ≠ f a' → R a a') : l.Pairwise R := by
  induction l with
  | nil => exact .nil
  | cons a l ih =>
      refine .cons ?_ (ih ?_ ?_)
      · intro a' ha'
        by_cases same : f a = f a'
        · have hclass := within (f a)
          simp only [List.filter_cons, decide_true, if_true, List.pairwise_cons] at hclass
          exact hclass.1 a' (List.mem_filter.mpr ⟨ha', decide_eq_true same.symm⟩)
        · exact across a a' List.mem_cons_self (List.mem_cons_of_mem _ ha') same
      · intro i
        have hclass := within i
        by_cases hi : f a = i
        · simp only [List.filter_cons, hi, decide_true, if_true, List.pairwise_cons] at hclass
          exact hclass.2
        · simpa [List.filter_cons, hi] using hclass
      · exact fun a' a'' ha' ha'' =>
          across a' a'' (List.mem_cons_of_mem _ ha') (List.mem_cons_of_mem _ ha'')

theorem mem_release {blocks : List Block} {ptr : Nat} {b : Block} :
    b ∈ release blocks ptr ↔ b ∈ blocks ∧ b.address ≠ ptr := by
  rw [release, List.mem_filter, decide_eq_true_eq]

/-- Where no block starts nothing is released. -/
theorem release_of_absent {blocks : List Block} {ptr : Nat}
    (absent : ∀ b, b ∈ blocks → b.address ≠ ptr) : release blocks ptr = blocks :=
  List.filter_eq_self.mpr fun b hb => decide_eq_true (absent b hb)

namespace HeapMetadataT

/-- The number of set flags of a region. -/
def used (md : HeapMetadataT) (r : Region) : Nat :=
  (Finset.univ.filter fun i => md.flag r i = 1).card

/-- The metadata of the page at `base` when exactly these blocks are live. -/
structure Holds (md : HeapMetadataT) (base : Nat) (blocks : List Block) : Prop where
  binary : ∀ r i, md.flag r i = 0 ∨ md.flag r i = 1
  counted : ∀ r, (md.count r).toNat = md.used r
  held : ∀ r i, md.flag r i = 1 ↔ ∃ b, b ∈ blocks ∧ b.address = base + r.place i
  placed : ∀ b, b ∈ blocks → ∃ r i, b.address = base + Region.place r i ∧ 0 < b.size ∧
    b.size ≤ r.size
  starts : blocks.Pairwise fun b b' => b.address ≠ b'.address

variable {md : HeapMetadataT} {base : Nat} {blocks : List Block} {r r' : Region}

theorem zero_flag_ne (r : Region) (i : Fin r.slots) : HeapMetadataT.zero.flag r i ≠ 1 := by
  change (0 : UInt8) ≠ 1
  decide

theorem Holds.zero (base : Nat) : HeapMetadataT.zero.Holds base [] := by
  refine ⟨fun _ _ => .inl rfl, ?_, ?_, ?_, .nil⟩
  · intro r
    have hnone : HeapMetadataT.zero.used r = 0 :=
      Finset.card_eq_zero.mpr (Finset.filter_false_of_mem fun i _ => zero_flag_ne r i)
    rw [hnone]
    rfl
  · intro r i
    refine iff_of_false (zero_flag_ne r i) ?_
    rintro ⟨b, hb, -⟩
    cases hb
  · intro b hb
    cases hb

theorem used_le (md : HeapMetadataT) (r : Region) : md.used r ≤ r.slots := by
  have h := Finset.card_filter_le Finset.univ fun i : Fin r.slots => md.flag r i = 1
  rwa [Finset.card_univ, Fintype.card_fin] at h

theorem used_occupy_of_ne (md : HeapMetadataT) (i : Fin r.slots) (h : r' ≠ r) :
    (md.occupy r i).used r' = md.used r' := by
  simp only [used, md.flag_occupy_of_ne i _ fun same => h same.1]

theorem used_vacate_of_ne (md : HeapMetadataT) (i : Fin r.slots) (h : r' ≠ r) :
    (md.vacate r i).used r' = md.used r' := by
  simp only [used, md.flag_vacate_of_ne i _ fun same => h same.1]

/-- A clear flag that is set is counted. -/
theorem used_occupy {i : Fin r.slots} (hclear : md.flag r i = 0) :
    (md.occupy r i).used r = md.used r + 1 := by
  have hset : (Finset.univ.filter fun j => (md.occupy r i).flag r j = 1) =
      insert i (Finset.univ.filter fun j => md.flag r j = 1) := by
    ext j
    by_cases hj : j = i
    · simp [hj]
    · have hne : ¬ (r = r ∧ j.val = i.val) := fun same => hj (Fin.ext same.2)
      simp [hj, flag_occupy_of_ne md i j hne]
  rw [used, hset, Finset.card_insert_of_notMem (by simp [hclear]), used]

theorem used_vacate {i : Fin r.slots} (hset : md.flag r i = 1) :
    (md.vacate r i).used r + 1 = md.used r := by
  have herase : (Finset.univ.filter fun j => (md.vacate r i).flag r j = 1) =
      (Finset.univ.filter fun j => md.flag r j = 1).erase i := by
    ext j
    by_cases hj : j = i
    · simp [hj]
    · have hne : ¬ (r = r ∧ j.val = i.val) := fun same => hj (Fin.ext same.2)
      simp [hj, flag_vacate_of_ne md i j hne]
  rw [used, herase]
  exact Finset.card_erase_add_one (by simp [hset])

/-- The blocks of a page lie in it, apart from each other. -/
theorem Holds.inside (h : md.Holds base blocks) {b : Block} (hb : b ∈ blocks) :
    base ≤ b.address ∧ b.address + b.size ≤ base + 0x1000 := by
  obtain ⟨r, i, haddress, -, hsize⟩ := h.placed b hb
  have hlt := r.place_lt i
  omega

theorem Holds.apart (h : md.Holds base blocks) : blocks.Pairwise Block.Apart := by
  refine h.starts.imp_of_mem ?_
  intro b b' hb hb' hne
  obtain ⟨r, i, haddress, -, hsize⟩ := h.placed b hb
  obtain ⟨r', i', haddress', -, hsize'⟩ := h.placed b' hb'
  have hslots : ¬ (r = r' ∧ i.val = i'.val) := by
    rintro ⟨rfl, hval⟩
    rw [Fin.ext hval] at haddress
    exact hne (haddress.trans haddress'.symm)
  rcases Region.place_apart i i' hslots with hbefore | hafter
  · exact .inl (by omega)
  · exact .inr (by omega)

/-- Two slots with one address are the same slot. -/
theorem slot_of_address {i : Fin r.slots} {j : Fin r'.slots}
    (h : base + r.place i = base + r'.place j) : r = r' ∧ i.val = j.val := by
  by_contra hne
  have hsize := r.size_pos
  have hsize' := r'.size_pos
  rcases Region.place_apart i j hne with hbefore | hafter <;> omega

theorem Holds.occupy (h : md.Holds base blocks) {i : Fin r.slots} (hclear : md.flag r i = 0)
    {size : Nat} (hsize : 0 < size ∧ size ≤ r.size) :
    (md.occupy r i).Holds base (⟨base + r.place i, size⟩ :: blocks) := by
  have hnew : ∀ b, b ∈ blocks → b.address ≠ base + r.place i := by
    intro b hb same
    have hset := (h.held r i).mpr ⟨b, hb, same⟩
    rw [hclear] at hset
    exact absurd hset (by decide)
  refine ⟨?_, ?_, ?_, ?_, .cons ?_ h.starts⟩
  · intro r' j
    by_cases same : r' = r ∧ j.val = i.val
    · obtain ⟨rfl, hval⟩ := same
      rw [Fin.ext hval, flag_occupy_self]
      exact .inr rfl
    · rw [flag_occupy_of_ne md i j same]
      exact h.binary r' j
  · intro r'
    by_cases same : r' = r
    · subst same
      have hcounted := h.counted r'
      have hused := used_occupy hclear
      have hle := used_le (md.occupy r' i) r'
      have hslots : r'.slots ≤ 32 := by cases r' <;> decide
      rw [count_occupy_self, BitVec.toNat_add, hcounted, hused]
      change (md.used r' + 1) % 2 ^ 32 = _
      omega
    · rw [count_occupy_of_ne md i same, used_occupy_of_ne md i same]
      exact h.counted r'
  · intro r' j
    by_cases same : r' = r ∧ j.val = i.val
    · obtain ⟨rfl, hval⟩ := same
      rw [Fin.ext hval, flag_occupy_self]
      exact iff_of_true rfl ⟨_, List.mem_cons_self, rfl⟩
    · rw [flag_occupy_of_ne md i j same, h.held r' j]
      constructor
      · intro ⟨b, hb, haddress⟩
        exact ⟨b, List.mem_cons_of_mem _ hb, haddress⟩
      · intro ⟨b, hb, haddress⟩
        rcases List.mem_cons.mp hb with rfl | hold
        · obtain ⟨hr, hval⟩ := slot_of_address haddress
          exact absurd ⟨hr.symm, hval.symm⟩ same
        · exact ⟨b, hold, haddress⟩
  · intro b hb
    rcases List.mem_cons.mp hb with rfl | hold
    · exact ⟨r, i, rfl, hsize⟩
    · exact h.placed b hold
  · exact fun b hb same => hnew b hb same.symm

theorem Holds.vacate (h : md.Holds base blocks) {i : Fin r.slots} (hset : md.flag r i = 1) :
    (md.vacate r i).Holds base (release blocks (base + r.place i)) := by
  have hmem := @mem_release blocks (base + r.place i)
  refine ⟨?_, ?_, ?_, ?_, h.starts.filter _⟩
  · intro r' j
    by_cases same : r' = r ∧ j.val = i.val
    · obtain ⟨rfl, hval⟩ := same
      rw [Fin.ext hval, flag_vacate_self]
      exact .inl rfl
    · rw [flag_vacate_of_ne md i j same]
      exact h.binary r' j
  · intro r'
    by_cases same : r' = r
    · subst same
      have hcounted := h.counted r'
      have hused := used_vacate hset
      have hword := (md.count r').isLt
      rw [count_vacate_self, BitVec.toNat_sub]
      change (2 ^ 32 - 1 + (md.count r').toNat) % 2 ^ 32 = _
      omega
    · rw [count_vacate_of_ne md i same, used_vacate_of_ne md i same]
      exact h.counted r'
  · intro r' j
    by_cases same : r' = r ∧ j.val = i.val
    · obtain ⟨rfl, hval⟩ := same
      rw [Fin.ext hval, flag_vacate_self]
      refine iff_of_false (by decide) ?_
      rintro ⟨b, hb, haddress⟩
      exact (hmem.mp hb).2 haddress
    · rw [flag_vacate_of_ne md i j same, h.held r' j]
      constructor
      · intro ⟨b, hb, haddress⟩
        refine ⟨b, hmem.mpr ⟨hb, ?_⟩, haddress⟩
        intro hfreed
        exact same (slot_of_address (haddress.symm.trans hfreed))
      · intro ⟨b, hb, haddress⟩
        exact ⟨b, (hmem.mp hb).1, haddress⟩
  · exact fun b hb => h.placed b (hmem.mp hb).1

/-- A block that `_malloc` returns joins the live blocks. -/
theorem Holds.malloc (h : md.Holds base blocks) (size : Nat) :
    (md._malloc base size).1.Holds base (grow blocks size (md._malloc base size).2) := by
  rcases malloc_cases md base size with hnull | ⟨r, i, hr, hclear, -, hok⟩
  · rw [hnull]
    exact h
  · rw [hok]
    exact h.occupy hclear (Region.le_size_of_ofSize hr)

/-- A class with fewer flags set than it has slots serves its requests. -/
theorem Holds.malloc_ne_none (h : md.Holds base blocks) {size : Nat}
    (hr : Region.ofSize size = some r) (room : (md.count r).toInt < r.slots) :
    (md._malloc base size).2 ≠ none := by
  have hfull : ¬ (r.slots : Int) ≤ (md.count r).toInt := by omega
  simp only [_malloc, hr, mallocIn, if_neg hfull]
  cases hfind : Fin.find? fun i => md.flag r i == 0 with
  | some i => simp
  | none =>
      have hall : ∀ i, md.flag r i = 1 := by
        intro i
        have hset := Fin.find?_eq_none_iff.mp hfind i
        exact (h.binary r i).resolve_left (by simpa using hset)
      have hused : md.used r = r.slots := by
        rw [used, Finset.filter_true_of_mem fun i _ => hall i, Finset.card_univ, Fintype.card_fin]
      have hcounted := h.counted r
      have hslots : r.slots ≤ 32 := by cases r <;> decide
      rw [BitVec.toInt_eq_toNat_of_lt (by omega)] at room
      omega

/-- A count that is not zero lets `_free` look at the flag. -/
theorem Holds.freeIn_of_live (h : md.Holds base blocks) {r : Region} {i : Fin r.slots}
    (hset : md.flag r i = 1) : md.freeIn r i = md.vacate r i := by
  have hpos : md.count r ≠ 0 := by
    intro hzero
    have hcounted := h.counted r
    have hused := used_vacate hset
    rw [hzero] at hcounted
    change 0 = _ at hcounted
    omega
  rw [freeIn, if_neg hpos, if_pos hset]

theorem freeIn_of_not_live {r : Region} {i : Fin r.slots} (hclear : md.flag r i ≠ 1) :
    md.freeIn r i = md := by
  rw [freeIn, if_neg hclear, ite_self]

/-- `_free` releases the block that starts at `ptr`, if there is one. -/
theorem Holds.free (h : md.Holds base blocks) {ptr : Nat}
    (fits : ptrOffset base ptr = (ptr : Int) - base) :
    (md._free base ptr).Holds base (release blocks ptr) := by
  rcases free_cases md base ptr with ⟨r, i, hplace, hfree⟩ | ⟨hnowhere, hfree⟩
  · have hptr : ptr = base + r.place i := by omega
    rw [hfree, hptr]
    by_cases hset : md.flag r i = 1
    · rw [h.freeIn_of_live hset]
      exact h.vacate hset
    · rw [freeIn_of_not_live hset, ← hptr, release_of_absent]
      · exact h
      · intro b hb haddress
        exact hset ((h.held r i).mpr ⟨b, hb, haddress.trans hptr⟩)
  · rw [hfree, release_of_absent]
    · exact h
    · intro b hb haddress
      obtain ⟨r, i, hb, -⟩ := h.placed b hb
      apply hnowhere r i
      omega

end HeapMetadataT

end OsDesign.Heap
