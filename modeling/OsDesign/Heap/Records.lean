import OsDesign.Heap.Metadata

/-!
A `heap_metadata_t` in memory: 76 bytes, the arrays and counts one after another
with two bytes of padding before the last count. Loading gives back what was
stored, and a store touches the bytes of its own record only.
-/
namespace OsDesign.Heap

open ByteStore

namespace Region

/-- The offset of the array in the record. -/
def flagsAt : Region → Nat
  | region32 => 0
  | region64 => 36
  | region128 => 56
  | region512 => 68

/-- The offset of the count in the record. -/
def countAt : Region → Nat
  | region32 => 32
  | region64 => 52
  | region128 => 64
  | region512 => 72

end Region

/-- `sizeof(heap_metadata_t)` -/
abbrev metadataSize : Nat := 76

namespace HeapMetadataT

/-- The record at address `a`. -/
def load (memory : Nat → UInt8) (a : Nat) : HeapMetadataT where
  flag r := read r.slots memory (a + r.flagsAt)
  count r := wordOf (read 4 memory (a + r.countAt))

def storeRegion (md : HeapMetadataT) (a : Nat) (r : Region) (memory : Nat → UInt8) : Nat → UInt8 :=
  write (write memory (a + r.flagsAt) (md.flag r)) (a + r.countAt) (wordBytes (md.count r))

def storeRegions (md : HeapMetadataT) (a : Nat) (memory : Nat → UInt8) :
    List Region → Nat → UInt8 :=
  List.foldr (md.storeRegion a) memory

/-- The memory with the record at address `a` replaced. -/
def store (md : HeapMetadataT) (a : Nat) (memory : Nat → UInt8) : Nat → UInt8 :=
  md.storeRegions a memory [.region32, .region64, .region128, .region512]

variable {md : HeapMetadataT} {memory memory' : Nat → UInt8} {a x : Nat}

theorem load_congr (h : ∀ x, a ≤ x → x < a + metadataSize → memory x = memory' x) :
    load memory a = load memory' a := by
  have hflags : ∀ r : Region, r.flagsAt + r.slots ≤ metadataSize := by
    intro r
    cases r <;> decide
  have hcounts : ∀ r : Region, r.countAt + 4 ≤ metadataSize := by
    intro r
    cases r <;> decide
  have hflag : (load memory a).flag = (load memory' a).flag := by
    funext r
    have := hflags r
    exact read_congr fun k hk => h _ (by omega) (by omega)
  have hcount : (load memory a).count = (load memory' a).count := by
    funext r
    have := hcounts r
    exact congrArg wordOf (read_congr fun k hk => h _ (by omega) (by omega))
  rw [load, load, HeapMetadataT.mk.injEq]
  exact ⟨hflag, hcount⟩

theorem load_of_zero (h : ∀ x, a ≤ x → x < a + metadataSize → memory x = 0) :
    load memory a = .zero := by
  have hcount : (fun r : Region => wordOf (read 4 (fun _ => 0) (a + r.countAt))) = fun _ => 0 := by
    funext r
    change wordOf (fun _ => 0) = 0
    decide
  rw [@load_congr memory (fun _ => 0) a h, load, zero, hcount]
  rfl

theorem storeRegion_apply_of_outside (md : HeapMetadataT) (r : Region)
    (h : x < a ∨ a + metadataSize ≤ x) : md.storeRegion a r memory x = memory x := by
  have hr : r.flagsAt + r.slots ≤ metadataSize ∧ r.countAt + 4 ≤ metadataSize := by
    cases r <;> decide
  rw [storeRegion, write_apply_of_outside _ _ _ _ (by omega),
    write_apply_of_outside _ _ _ _ (by omega)]

theorem store_apply_of_outside (md : HeapMetadataT) (h : x < a ∨ a + metadataSize ≤ x) :
    md.store a memory x = memory x := by
  simp only [store, storeRegions, List.foldr_cons, List.foldr_nil,
    storeRegion_apply_of_outside _ _ h]

theorem store_congr (md : HeapMetadataT) (same : memory' x = memory x) :
    md.store a memory' x = md.store a memory x := by
  have region : ∀ r (m m' : Nat → UInt8), m' x = m x →
      md.storeRegion a r m' x = md.storeRegion a r m x :=
    fun r m m' h => write_congr _ _ (write_congr _ _ h)
  simp only [store, storeRegions, List.foldr_cons, List.foldr_nil]
  exact region _ _ _ (region _ _ _ (region _ _ _ (region _ _ _ same)))

/-- The fields of one region do not meet those of another one. -/
theorem load_storeRegion_of_ne (md : HeapMetadataT) {r r' : Region} (h : r' ≠ r) :
    (load (md.storeRegion a r memory) a).flag r' = (load memory a).flag r' ∧
      (load (md.storeRegion a r memory) a).count r' = (load memory a).count r' := by
  have apart : ∀ {x n : Nat}, x + n ≤ r.flagsAt ∨ r.countAt + 4 ≤ x →
      read n (md.storeRegion a r memory) (a + x) = read n memory (a + x) := by
    intro x n hx
    have hfields : r.flagsAt + r.slots ≤ r.countAt + 4 ∧ r.flagsAt ≤ r.countAt := by
      cases r <;> decide
    rw [storeRegion, read_write_of_disjoint _ _ _ _ (by omega),
      read_write_of_disjoint _ _ _ _ (by omega)]
  constructor
  · apply apart
    cases r <;> cases r' <;> first | exact absurd rfl h | decide
  · apply congrArg wordOf
    apply apart
    cases r <;> cases r' <;> first | exact absurd rfl h | decide

theorem load_storeRegion_self (md : HeapMetadataT) (r : Region) :
    (load (md.storeRegion a r memory) a).flag r = md.flag r ∧
      (load (md.storeRegion a r memory) a).count r = md.count r := by
  have hfields : r.flagsAt + r.slots ≤ r.countAt := by cases r <;> decide
  constructor
  · change read r.slots (write _ _ _) _ = _
    rw [read_write_of_disjoint _ _ _ _ (by omega), read_write_self]
  · change wordOf (read 4 (write _ _ _) _) = _
    rw [read_write_self, wordOf_wordBytes]

theorem load_storeRegions (md : HeapMetadataT) {rs : List Region} {r : Region} (hr : r ∈ rs) :
    (load (md.storeRegions a memory rs) a).flag r = md.flag r ∧
      (load (md.storeRegions a memory rs) a).count r = md.count r := by
  induction rs with
  | nil => cases hr
  | cons r' rs ih =>
      change (load (md.storeRegion a r' (md.storeRegions a memory rs)) a).flag r = _ ∧
        (load (md.storeRegion a r' (md.storeRegions a memory rs)) a).count r = _
      by_cases same : r = r'
      · rw [same]
        exact load_storeRegion_self md r'
      · have hkept := @load_storeRegion_of_ne (md.storeRegions a memory rs) a md _ _ same
        rw [hkept.1, hkept.2]
        exact ih (List.mem_of_ne_of_mem same hr)

theorem load_store_self (md : HeapMetadataT) (a : Nat) (memory : Nat → UInt8) :
    load (md.store a memory) a = md := by
  have hfield : ∀ r, (load (md.store a memory) a).flag r = md.flag r ∧
      (load (md.store a memory) a).count r = md.count r := by
    intro r
    apply load_storeRegions
    cases r <;> decide
  have hflag : (load (md.store a memory) a).flag = md.flag := funext fun r => (hfield r).1
  have hcount : (load (md.store a memory) a).count = md.count := funext fun r => (hfield r).2
  generalize load (md.store a memory) a = md' at hflag hcount
  obtain ⟨flag, count⟩ := md'
  cases hflag
  cases hcount
  rfl

end HeapMetadataT

end OsDesign.Heap
