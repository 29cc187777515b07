import OsDesign.Lib.Runs
import OsDesign.Heap.Trunk

/-!
One page of heap as a set of live slots. A request takes the lowest free slot of
the smallest class that holds its size, and `_free` gives back the slot that
starts at the pointer, if it is live; the metadata follow the set through every
sequence of calls.
-/
namespace OsDesign.Heap

open HeapMetadataT

/-- A slot of the page, of either size class. -/
abbrev Slot : Type := (r : Region) × Fin r.slots

namespace Slot

def place (s : Slot) : Nat := s.1.place s.2

def length (s : Slot) : Nat := s.1.size

def Apart (s s' : Slot) : Prop :=
  s.place + s.length ≤ s'.place ∨ s'.place + s'.length ≤ s.place

theorem place_lt (s : Slot) : s.place + s.length ≤ 0x1000 := s.1.place_lt s.2

theorem ext_val {r r' : Region} {i : Fin r.slots} {i' : Fin r'.slots}
    (h : r = r' ∧ i.val = i'.val) : (⟨r, i⟩ : Slot) = ⟨r', i'⟩ := by
  obtain ⟨rfl, hval⟩ := h
  rw [Fin.ext hval]

theorem apart_of_ne {s s' : Slot} (h : s ≠ s') : s.Apart s' :=
  Region.place_apart s.2 s'.2 fun same => h (ext_val same)

end Slot

/-- The smallest class that holds the size. -/
structure Region.Smallest (r : Region) (size : Nat) : Prop where
  holds : size ≤ r.size
  least : ∀ r' : Region, size ≤ r'.size → r.size ≤ r'.size

theorem Region.ofSize_eq_none {size : Nat} : ofSize size = none ↔ size = 0 ∨ 512 < size := by
  simp only [ofSize]
  grind

theorem Region.ofSize_eq_some {size : Nat} {r : Region} :
    ofSize size = some r ↔ 0 < size ∧ r.Smallest size := by
  constructor
  · intro h
    obtain ⟨hpos, hle⟩ := le_size_of_ofSize h
    refine ⟨hpos, hle, ?_⟩
    intro r' hr'
    simp only [ofSize] at h
    cases r' <;> grind [Region.size]
  · rintro ⟨hpos, hholds, hleast⟩
    have h32 := hleast .region32
    have h64 := hleast .region64
    have h128 := hleast .region128
    simp only [ofSize]
    cases r <;> grind [Region.size]

namespace HeapMetadataT

/-- The slots whose flag is set. -/
def live (md : HeapMetadataT) : Set Slot := fun s => md.flag s.1 s.2 = 1

variable {md : HeapMetadataT} {base : Nat} {blocks : List Block} {r : Region}

theorem mem_live {i : Fin r.slots} : (⟨r, i⟩ : Slot) ∈ md.live ↔ md.flag r i = 1 := Iff.rfl

theorem live_occupy (md : HeapMetadataT) (i : Fin r.slots) :
    (md.occupy r i).live = insert ⟨r, i⟩ md.live := by
  ext ⟨r', j⟩
  rw [Set.mem_insert_iff, mem_live, mem_live]
  by_cases same : r' = r ∧ j.val = i.val
  · obtain ⟨rfl, hval⟩ := same
    rw [Fin.ext hval, flag_occupy_self]
    exact iff_of_true rfl (.inl rfl)
  · rw [flag_occupy_of_ne md i j same]
    refine ⟨.inr, fun h => h.resolve_left ?_⟩
    intro heq
    cases heq
    exact same ⟨rfl, rfl⟩

theorem live_vacate (md : HeapMetadataT) (i : Fin r.slots) :
    (md.vacate r i).live = md.live \ {⟨r, i⟩} := by
  ext ⟨r', j⟩
  rw [Set.mem_sdiff, Set.mem_singleton_iff, mem_live, mem_live]
  by_cases same : r' = r ∧ j.val = i.val
  · obtain ⟨rfl, hval⟩ := same
    rw [Fin.ext hval, flag_vacate_self]
    exact iff_of_false (by decide) fun h => h.2 rfl
  · rw [flag_vacate_of_ne md i j same]
    refine ⟨fun h => ⟨h, ?_⟩, And.left⟩
    intro heq
    cases heq
    exact same ⟨rfl, rfl⟩

/-- Giving back the slot that was just taken restores the metadata. -/
theorem vacate_occupy {i : Fin r.slots} (hclear : md.flag r i = 0) :
    (md.occupy r i).vacate r i = md := by
  have hflag : ((md.occupy r i).vacate r i).flag = md.flag := by
    funext r' j
    by_cases same : r' = r ∧ j.val = i.val
    · obtain ⟨rfl, hval⟩ := same
      rw [Fin.ext hval, flag_vacate_self, hclear]
    · rw [flag_vacate_of_ne _ i j same, flag_occupy_of_ne md i j same]
  have hcount : ((md.occupy r i).vacate r i).count = md.count := by
    funext r'
    by_cases same : r' = r
    · rw [same, count_vacate_self, count_occupy_self, BitVec.add_sub_cancel]
    · rw [count_vacate_of_ne _ i same, count_occupy_of_ne md i same]
  obtain ⟨flag, count⟩ := md
  generalize (occupy ⟨flag, count⟩ r i).vacate r i = md' at hflag hcount
  obtain ⟨flag', count'⟩ := md'
  cases hflag
  cases hcount
  rfl

theorem vacate_ne {i : Fin r.slots} (hset : md.flag r i = 1) : md.vacate r i ≠ md := by
  intro same
  have hcleared := md.flag_vacate_self i
  rw [same, hset] at hcleared
  exact absurd hcleared (by decide)

/-- The class of the size has no free slot. -/
def ClassFull (md : HeapMetadataT) (size : Nat) : Prop :=
  ∃ r : Region, r.Smallest size ∧ ∀ i, (⟨r, i⟩ : Slot) ∈ md.live

/-- `_malloc` returned `a` for the lowest free slot of the smallest class. -/
def TakesLowest (md md' : HeapMetadataT) (base size a : Nat) : Prop :=
  ∃ (r : Region) (i : Fin r.slots), r.Smallest size ∧ (⟨r, i⟩ : Slot) ∉ md.live ∧
    (∀ j, j < i → (⟨r, j⟩ : Slot) ∈ md.live) ∧ a = base + r.place i ∧
    md' = md.occupy r i ∧ md'.live = insert ⟨r, i⟩ md.live

/-- The metadata of the page at `base` next to the blocks that `_malloc` returned
and `_free` was not given. -/
structure Refines (md : HeapMetadataT) (base : Nat) (blocks : List Block) : Prop where
  binary : ∀ r i, md.flag r i = 0 ∨ md.flag r i = 1
  counted : ∀ r, (md.count r).toNat = md.used r
  null : ∀ size, (md._malloc base size).2 = none ↔ size = 0 ∨ 512 < size ∨ md.ClassFull size
  refused : ∀ size, (md._malloc base size).2 = none → (md._malloc base size).1 = md
  taken : ∀ size a, (md._malloc base size).2 = some a →
    md.TakesLowest (md._malloc base size).1 base size a
  starts : blocks.Pairwise fun b b' => b.address ≠ b'.address
  slots : ∀ s, s ∈ md.live ↔ ∃ b, b ∈ blocks ∧ b.address = base + s.place
  placed : ∀ b, b ∈ blocks → ∃ s, s ∈ md.live ∧ b.address = base + s.place ∧ b.size ≤ s.length
  inside : ∀ s, s ∈ md.live → s.place + s.length ≤ 0x1000
  apart : ∀ s s', s ∈ md.live → s' ∈ md.live → s ≠ s' → s.Apart s'
  changed : ∀ ptr, ptrOffset base ptr = (ptr : Int) - base →
    (md._free base ptr ≠ md ↔ ∃ b, b ∈ blocks ∧ b.address = ptr)
  cleared : ∀ s, s ∈ md.live → md._free base (base + s.place) = md.vacate s.1 s.2 ∧
    (md._free base (base + s.place)).live = md.live \ {s}
  undone : ∀ size a, (md._malloc base size).2 = some a → (md._malloc base size).1._free base a = md

theorem ptrOffset_place (base : Nat) (s : Slot) : ptrOffset base (base + s.place) = s.place := by
  have hlt := s.place_lt
  rw [ptrOffset_eq (by omega) (by omega)]
  omega

theorem Holds.malloc_eq_none (h : md.Holds base blocks) {size : Nat} :
    (md._malloc base size).2 = none ↔ size = 0 ∨ 512 < size ∨ md.ClassFull size := by
  cases hr : Region.ofSize size with
  | none =>
      have hnull : (md._malloc base size).2 = none := by simp only [_malloc, hr]
      refine iff_of_true hnull ?_
      rcases Region.ofSize_eq_none.mp hr with hzero | hlarge
      · exact .inl hzero
      · exact .inr (.inl hlarge)
  | some r =>
      obtain ⟨hpos, hsmallest⟩ := Region.ofSize_eq_some.mp hr
      have hle : size ≤ 512 := by
        by_contra hlarge
        rw [Region.ofSize_eq_none.mpr (.inr (Nat.lt_of_not_le hlarge))] at hr
        cases hr
      constructor
      · intro hnull
        refine .inr (.inr ⟨r, hsmallest, ?_⟩)
        by_contra hclear
        refine h.malloc_ne_none hr ?_ hnull
        obtain ⟨i, hi⟩ := not_forall.mp hclear
        have hused : md.used r < r.slots := by
          have hsub : (Finset.univ.filter fun j => md.flag r j = 1) ⊂ Finset.univ :=
            Finset.filter_ssubset.mpr ⟨i, Finset.mem_univ i, hi⟩
          have hlt := Finset.card_lt_card hsub
          rwa [Finset.card_univ, Fintype.card_fin] at hlt
        have hslots : r.slots ≤ 32 := by cases r <;> decide
        have hcounted := h.counted r
        rw [BitVec.toInt_eq_toNat_of_lt (by omega)]
        omega
      · rintro (hzero | hlarge | ⟨r', hsmallest', hall⟩)
        · omega
        · omega
        · have hsame : r' = r := by
            have hr' := Region.ofSize_eq_some.mpr ⟨hpos, hsmallest'⟩
            exact Option.some.inj (hr'.symm.trans hr)
          subst hsame
          rcases malloc_cases md base size with hnull | ⟨r, i, hr₂, hclear, -⟩
          · rw [hnull]
          · obtain rfl : r' = r := Option.some.inj (hr.symm.trans hr₂)
            have hset := mem_live.mp (hall i)
            rw [hclear] at hset
            exact absurd hset (by decide)

theorem Holds.takesLowest (h : md.Holds base blocks) {size a : Nat}
    (hsome : (md._malloc base size).2 = some a) :
    md.TakesLowest (md._malloc base size).1 base size a := by
  rcases malloc_cases md base size with hnull | ⟨r, i, hr, hclear, hfirst, hok⟩
  · rw [hnull] at hsome
    cases hsome
  · rw [hok] at hsome ⊢
    refine ⟨r, i, (Region.ofSize_eq_some.mp hr).2, ?_, ?_, (Option.some.inj hsome).symm, rfl,
      md.live_occupy i⟩
    · rw [mem_live, hclear]
      decide
    · intro j hj
      exact (h.binary r j).resolve_left (hfirst j hj)

theorem Holds.cleared (h : md.Holds base blocks) {s : Slot} (hs : s ∈ md.live) :
    md._free base (base + s.place) = md.vacate s.1 s.2 := by
  rw [free_of_place s.2 (ptrOffset_place base s), h.freeIn_of_live hs]

theorem Holds.free_ne (h : md.Holds base blocks) {ptr : Nat}
    (fits : ptrOffset base ptr = (ptr : Int) - base) :
    md._free base ptr ≠ md ↔ ∃ b, b ∈ blocks ∧ b.address = ptr := by
  constructor
  · intro hchanged
    rcases free_cases md base ptr with ⟨r, i, hplace, hfree⟩ | ⟨-, hfree⟩
    · have hset : md.flag r i = 1 := by
        by_contra hclear
        exact hchanged (hfree.trans (freeIn_of_not_live hclear))
      obtain ⟨b, hb, haddress⟩ := (h.held r i).mp hset
      exact ⟨b, hb, by omega⟩
    · exact absurd hfree hchanged
  · rintro ⟨b, hb, rfl⟩
    obtain ⟨r, i, haddress, -⟩ := h.placed b hb
    have hset := (h.held r i).mpr ⟨b, hb, haddress⟩
    have hcleared := h.cleared (s := ⟨r, i⟩) hset
    rw [Slot.place] at hcleared
    rw [haddress, hcleared]
    exact vacate_ne hset

/-- Giving a block back right after it was returned restores the metadata. -/
theorem Holds.free_malloc (h : md.Holds base blocks) {size a : Nat}
    (hsome : (md._malloc base size).2 = some a) : (md._malloc base size).1._free base a = md := by
  have hafter := h.malloc size
  rcases malloc_cases md base size with hnull | ⟨r, i, -, hclear, -, hok⟩
  · rw [hnull] at hsome
    cases hsome
  · rw [hok] at hsome hafter ⊢
    obtain rfl := Option.some.inj hsome
    have hset : (⟨r, i⟩ : Slot) ∈ (md.occupy r i).live := md.flag_occupy_self i
    exact (hafter.cleared hset).trans (vacate_occupy hclear)

theorem Holds.refines (h : md.Holds base blocks) : md.Refines base blocks where
  binary := h.binary
  counted := h.counted
  null _ := h.malloc_eq_none
  refused size hnull := by
    rcases malloc_cases md base size with hsame | ⟨r, i, -, -, -, hok⟩
    · rw [hsame]
    · rw [hok] at hnull
      cases hnull
  taken _ _ := h.takesLowest
  starts := h.starts
  slots s := h.held s.1 s.2
  placed b hb := by
    obtain ⟨r, i, haddress, -, hsize⟩ := h.placed b hb
    exact ⟨⟨r, i⟩, (h.held r i).mpr ⟨b, hb, haddress⟩, haddress, hsize⟩
  inside s _ := s.place_lt
  apart _ _ _ _ := Slot.apart_of_ne
  changed _ := h.free_ne
  cleared s hs := by
    have hcleared := h.cleared hs
    refine ⟨hcleared, ?_⟩
    rw [hcleared]
    exact md.live_vacate s.2
  undone _ _ := h.free_malloc

end HeapMetadataT

/-- A call on the page. -/
inductive TrunkCall
  | malloc (size : Nat)
  | free (ptr : Nat)

/-- The metadata of the page with the blocks that were handed out. -/
structure Trunk where
  metadata : HeapMetadataT
  blocks : List Block

namespace Trunk

def zeroed : Trunk := ⟨.zero, []⟩

def next (base : Nat) (s : Trunk) : TrunkCall → Trunk
  | .malloc size =>
      ⟨(s.metadata._malloc base size).1, grow s.blocks size (s.metadata._malloc base size).2⟩
  | .free ptr => ⟨s.metadata._free base ptr, release s.blocks ptr⟩

def Step (base : Nat) (s : Trunk) (c : TrunkCall) (s' : Trunk) : Prop := s.next base c = s'

/-- `ptr - base` fits in an `int`. -/
def Fits (base : Nat) : TrunkCall → Prop
  | .malloc _ => True
  | .free ptr => base ≤ ptr + 2 ^ 31 ∧ ptr < base + 2 ^ 31

variable {base : Nat} {s : Trunk}

theorem holds_of_reachable (reach : Runs.Reachable (fun s => s = zeroed) (fun _ c => Fits base c)
    (Step base) s) : s.metadata.Holds base s.blocks := by
  refine reach.invariant (fun s => s.metadata.Holds base s.blocks) ?_ ?_
  · intro s hs
    rw [hs]
    exact .zero base
  · intro s c s' fits taken holds
    rw [← taken]
    cases c with
    | malloc size => exact holds.malloc size
    | free ptr => exact holds.free (ptrOffset_eq fits.1 fits.2)

/-- After every sequence of calls the metadata refine a set of live slots, and
every further call does to the set what it is meant to do. -/
theorem refines_of_reachable (reach : Runs.Reachable (fun s => s = zeroed)
    (fun _ c => Fits base c) (Step base) s) : s.metadata.Refines base s.blocks :=
  (holds_of_reachable reach).refines

/-- A block taken, freed twice, and another one taken. -/
theorem refines_after_reuse :
    ∃ s, Runs.Steps (fun _ c => Fits 0x60001000 c) (Step 0x60001000) zeroed
        [.malloc 100, .free 0x60001800, .free 0x60001800, .malloc 33] s ∧
      s.blocks = [⟨0x60001400, 33⟩] ∧ s.metadata.Refines 0x60001000 s.blocks := by
  have fits : Fits 0x60001000 (.free 0x60001800) := ⟨by decide, by decide⟩
  have run : Runs.Steps (fun _ c => Fits 0x60001000 c) (Step 0x60001000) zeroed
      [.malloc 100, .free 0x60001800, .free 0x60001800, .malloc 33] _ :=
    .cons trivial rfl (.cons fits rfl (.cons fits rfl (.single trivial rfl)))
  refine ⟨_, run, by decide +kernel, ?_⟩
  exact refines_of_reachable ⟨zeroed, _, rfl, run⟩

end Trunk

end OsDesign.Heap
