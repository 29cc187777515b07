import OsDesign.Heap.WindowRecords

/-!
`my_malloc` and `my_free` on the bytes of the window match the calls on records
kept apart: they fail alike or return the same, and the bytes stand for the
records behind the call.
-/
namespace OsDesign.Heap

open Loops Virt ThreadHeap

/-- `h` is `r` with its records written into the window. -/
structure RecordHeap.Bytes (t : ThreadId) (limit : Nat) (h : ThreadHeap) (r : RecordHeap) :
    Prop where
  heap : ∃ memory, h = { r.heap with process := { r.heap.process with
    vm := { r.heap.process.vm with memory := memory } } }
  records : (h.recorded t limit).records = r.records

namespace ThreadHeap

/-- The records are those of the bytes, behind some page faults from `h` on. -/
def Follows (h : ThreadHeap) (t : ThreadId) (limit : Nat) (h₁ : ThreadHeap) (r₁ : RecordHeap) :
    Prop :=
  r₁ = h₁.recorded t limit ∧ (h.recorded t limit).Faulted r₁

variable {h h' : ThreadHeap} {r : RecordHeap} {t : ThreadId} {limit i size : Nat}
  {blocks : List Block}

theorem recorded_heap (h : ThreadHeap) (t : ThreadId) (limit : Nat) :
    (h.recorded t limit).heap = h := rfl

theorem bytes_recorded (h : ThreadHeap) (t : ThreadId) (limit : Nat) :
    RecordHeap.Bytes t limit h (h.recorded t limit) :=
  ⟨⟨h.process.vm.memory, rfl⟩, rfl⟩

/-- What holds of the records holds of the bytes that stand for them. -/
theorem sound_bytes (sound : r.Sound t limit blocks) (bytes : RecordHeap.Bytes t limit h r) :
    (h.recorded t limit).Sound t limit blocks := by
  obtain ⟨memory, hheap⟩ := bytes.heap
  have hcount : h.heapTrunkCount = r.heap.heapTrunkCount := by rw [hheap]
  refine ⟨?_, ?_, ?_, ?_, ?_, sound.fits, ?_, ?_⟩
  · change h.process.FirstPages t (min (h.heapTrunkCount + 1) maxVirtualPages)
    rw [hheap]
    exact sound.pages.stored memory
  · change h.heapInit = true
    rw [hheap]
    exact sound.init
  · change h.gMetadata = _
    rw [hheap]
    exact sound.metadataAt
  · change h.gHeapPages = _
    rw [hheap]
    exact sound.pagesAt
  · change h.heapTrunkCount ≤ limit
    rw [hcount]
    exact sound.few
  · change ∀ i, h.heapTrunkCount ≤ i → _
    rw [hcount, bytes.records]
    exact sound.blank
  · change TrunksHold (h.recorded t limit).records h.heapTrunkCount blocks
    rw [hcount, bytes.records]
    exact sound.hold

theorem inWindow (sound : (h.recorded t limit).Sound t limit blocks) : h.InWindow limit :=
  ⟨sound.metadataAt, sound.fits⟩

/-- Page faults of the running thread do the same to both. -/
theorem recorded_served (sound : (h.recorded t limit).Sound t limit blocks) {process : Process}
    (served : h.process.Served process) :
    ({ h with process := process } : ThreadHeap).recorded t limit =
      ⟨{ h with process := process }, (h.recorded t limit).records⟩ := by
  have hrecords := (inWindow sound).records_served sound.pages.live served
  rw [← hrecords]
  rfl

/-- Opening the record of a trunk fails alike or serves the same page faults. -/
theorem openRecord_recorded (sound : (h.recorded t limit).Sound t limit blocks)
    (hcurrent : h.process.current = some t) (hi : i < h.heapTrunkCount) :
    (∃ stop, h.openRecord i = .error stop ∧
      (h.recorded t limit).openRecord i = .error stop) ∨
    ∃ h₁ : ThreadHeap, h.openRecord i = .ok h₁ ∧
      (h.recorded t limit).openRecord i = .ok (h₁.recorded t limit) ∧
      (h.recorded t limit).Faulted (h₁.recorded t limit) ∧ h₁.Opened t i := by
  rcases ThreadHeap.openRecord_cases sound.pages hcurrent sound.metadataAt (sound.record_fits hi)
    (Nat.min_le_right _ _) with ⟨hpanic, -⟩ | ⟨process, hopen, served, opened⟩
  · change h.openRecord i = _ at hpanic
    exact .inl ⟨_, hpanic, by simp only [RecordHeap.openRecord, recorded, hpanic]⟩
  · change h.openRecord i = _ at hopen
    have hserved := recorded_served sound served
    refine .inr ⟨{ h with process := process }, hopen, ?_, ⟨served, hserved⟩, opened⟩
    rw [hserved]
    simp only [RecordHeap.openRecord, recorded, hopen]

/-- `_malloc` on a trunk in use, on the bytes and on the records. -/
theorem mallocTrunk_matches (sound : (h.recorded t limit).Sound t limit blocks)
    (hcurrent : h.process.current = some t) (hi : i < h.heapTrunkCount) (size : Nat) :
    Matches (h.Follows t limit) (RecordHeap.Bytes t limit)
      (h.mallocTrunk i size) (RecordHeap.mallocTrunk size i (h.recorded t limit)) := by
  cases hr : Region.ofSize size with
  | none =>
      simp only [ThreadHeap.mallocTrunk, RecordHeap.mallocTrunk, hr]
      exact .misses ⟨rfl, .refl sound.pages.inv⟩
  | some region =>
      simp only [ThreadHeap.mallocTrunk, RecordHeap.mallocTrunk, hr]
      rcases openRecord_recorded sound hcurrent hi with
        ⟨stop, hfail, hfail'⟩ | ⟨h₁, hopen, hopen', faulted, opened⟩
      · rw [hfail, hfail']
        exact .fails stop
      · have hlt : i < limit := Nat.lt_of_lt_of_le hi sound.few
        have hcurrent₁ : h₁.process.current = some t := faulted.served.current.trans hcurrent
        have window := inWindow (sound.faulted faulted)
        have hsame : ((h₁.recorded t limit).records i)._malloc
            ((h₁.recorded t limit).heap.trunkBase i) size =
            (h₁.metadata i)._malloc (h₁.trunkBase i) size := by
          rw [records_of_lt hlt, opened.metadata_eq hcurrent₁ window.metadataAt]
          rfl
        rw [hopen, hopen']
        simp only [hsame]
        cases hmalloc : (h₁.metadata i)._malloc (h₁.trunkBase i) size with
        | mk md ptr =>
            cases ptr with
            | none => exact .misses ⟨rfl, faulted⟩
            | some a =>
                refine .hits a ⟨⟨_, rfl⟩, ?_⟩
                exact window.records_setMetadata opened hcurrent₁ hlt md

theorem mallocFrom_eq (size turns i : Nat) (h : ThreadHeap) :
    mallocFrom size turns i h = searchFrom (fun i h => h.mallocTrunk i size) turns i h := by
  induction turns generalizing i h with
  | zero => rfl
  | succ turns ih =>
      rw [mallocFrom, searchFrom]
      cases h.mallocTrunk i size with
      | error stop => rfl
      | ok outcome =>
          obtain ⟨h₁, ptr⟩ := outcome
          cases ptr with
          | none => exact ih (i + 1) h₁
          | some a => rfl

theorem mallocFrom_matches (sound : (h.recorded t limit).Sound t limit blocks)
    (hcurrent : h.process.current = some t) (size : Nat) :
    Matches (h.Follows t limit) (RecordHeap.Bytes t limit)
      (mallocFrom size h.heapTrunkCount 0 h)
      (RecordHeap.mallocFrom size h.heapTrunkCount 0 (h.recorded t limit)) := by
  rw [mallocFrom_eq, RecordHeap.mallocFrom]
  apply searchFrom_matches
  · rintro k h₁ r₁ - hk ⟨rfl, faulted⟩
    have hcurrent₁ : h₁.process.current = some t := faulted.served.current.trans hcurrent
    have hk₁ : k < h₁.heapTrunkCount := by
      have hcount := faulted.count_eq
      change h₁.heapTrunkCount = h.heapTrunkCount at hcount
      omega
    refine (mallocTrunk_matches (sound.faulted faulted) hcurrent₁ hk₁ size).imp ?_
    exact fun h₂ r₂ follows => ⟨follows.1, faulted.trans follows.2⟩
  · exact ⟨rfl, .refl sound.pages.inv⟩

/-- `mm_allocate_page` fails alike, or leaves bytes that stand for the same records. -/
theorem morePage_recorded (sound : (h.recorded t limit).Sound t limit blocks)
    (hcurrent : h.process.current = some t) (more : h.heapTrunkCount < limit) :
    (∃ stop, h.morePage = .error stop ∧ (h.recorded t limit).morePage = .error stop) ∨
    ∃ h₁ : ThreadHeap, h.morePage = .ok h₁ ∧
      (h.recorded t limit).morePage = .ok (h₁.recorded t limit) ∧
      (h₁.withTrunk.recorded t limit).Sound t limit blocks ∧
      h₁.process.current = some t ∧ h₁.heapTrunkCount = h.heapTrunkCount := by
  cases hpage : h.morePage with
  | error stop => exact .inl ⟨stop, rfl, by simp only [RecordHeap.morePage, recorded, hpage]⟩
  | ok h₁ =>
      have hmore : (h.recorded t limit).morePage = .ok ⟨h₁, (h.recorded t limit).records⟩ := by
        simp only [RecordHeap.morePage, recorded, hpage]
      rcases sound.morePage hcurrent more with ⟨hpanic, -⟩ | ⟨r₁, hok, grown, sound₁⟩
      · rw [hmore] at hpanic
        cases hpanic
      · rw [hmore] at hok
        cases hok
        have hpages := sound.pages
        have hrest : h₁.withTrunk = { h with
            process := h₁.process
            heapTrunkCount := h.heapTrunkCount + 1 } := congrArg RecordHeap.heap grown.rest
        have hsame : (h₁.withTrunk.recorded t limit).records = (h.recorded t limit).records := by
          rw [hrest]
          refine (inWindow sound).records_congr rfl ?_
          refine (inWindow sound).shown_granted ?_ grown.memory
          intro hlt
          have hunused := hpages.rest (h.heapTrunkCount + 1) (Nat.min_le_left _ _) hlt
          exact Process.privateMemory_of_unused hunused
        have hcount : h₁.heapTrunkCount = h.heapTrunkCount :=
          Nat.succ.inj (congrArg ThreadHeap.heapTrunkCount hrest)
        refine .inr ⟨h₁, rfl, ?_, ?_, grown.current, hcount⟩
        · rw [hmore, ← hsame]
          rfl
        · rw [← hsame] at sound₁
          exact sound₁

/-- `my_malloc` on an initialised heap: the bytes follow the records. -/
theorem mallocInitialised_matches (sound : (h.recorded t limit).Sound t limit blocks)
    (hcurrent : h.process.current = some t)
    (room : (h.recorded t limit).NoneFits size → h.heapTrunkCount < limit) :
    Matches (RecordHeap.Bytes t limit) (RecordHeap.Bytes t limit)
      (h.mallocInitialised size) ((h.recorded t limit).mallocInitialised size) := by
  have search := mallocFrom_matches sound hcurrent size
  have count : (h.recorded t limit).heap.heapTrunkCount = h.heapTrunkCount := rfl
  rw [ThreadHeap.mallocInitialised, RecordHeap.mallocInitialised, count]
  generalize hfrom : mallocFrom size h.heapTrunkCount 0 h = x at search ⊢
  generalize hfrom' : RecordHeap.mallocFrom size h.heapTrunkCount 0 (h.recorded t limit) = x'
    at search ⊢
  cases search with
  | fails stop => exact .fails stop
  | hits a bytes => exact .hits a bytes
  | misses follows =>
      rename_i h₁ r₁
      obtain ⟨rfl, faulted⟩ := follows
      have noneFits : (h.recorded t limit).NoneFits size := by
        rcases sound.mallocFrom_cases hcurrent size with
          ⟨hpanic, -⟩ | ⟨-, -, -, noneFits⟩ | ⟨k, r, a, -, -, hhit, -⟩
        · cases hfrom'.symm.trans hpanic
        · exact noneFits
        · cases hfrom'.symm.trans hhit
      have sound₁ := sound.faulted faulted
      have hcurrent₁ : h₁.process.current = some t := faulted.served.current.trans hcurrent
      have hcount : h₁.heapTrunkCount = h.heapTrunkCount := faulted.count_eq
      rcases morePage_recorded sound₁ hcurrent₁ (hcount ▸ room noneFits) with
        ⟨stop, hfail, hfail'⟩ | ⟨h₂, hmore, hmore', sound₂, hcurrent₂, -⟩
      · simp only [hfail, hfail']
        exact .fails stop
      · simp only [hmore, hmore']
        refine (mallocTrunk_matches sound₂ hcurrent₂ (Nat.lt_succ_self _) size).imp ?_
        rintro h₃ r₃ ⟨rfl, -⟩
        exact bytes_recorded h₃ t limit

/-- `my_free` of a pointer that it handles: the bytes follow the records. -/
theorem myFree_bytes (sound : (h.recorded t limit).Sound t limit blocks)
    (hcurrent : h.process.current = some t) {ptr : Nat} (handled : h.Handled blocks ptr)
    (taken : h.myFree ptr = .ok h') :
    ∃ r, (h.recorded t limit).myFree ptr = .ok r ∧ RecordHeap.Bytes t limit h' r := by
  rw [ThreadHeap.myFree_eq] at taken
  rw [RecordHeap.myFree_eq, recorded_heap]
  cases hrecord : h.recordOf ptr with
  | none =>
      simp only [hrecord, Except.ok.injEq] at taken
      exact ⟨_, rfl, taken ▸ bytes_recorded h t limit⟩
  | some i =>
      have hi := (handled i hrecord).1
      rcases openRecord_recorded sound hcurrent hi with
        ⟨stop, hfail, -⟩ | ⟨h₁, hopen, hopen', faulted, opened⟩
      · simp [hrecord, hfail] at taken
      · simp only [hrecord, hopen, Except.ok.injEq] at taken
        have hlt : i < limit := Nat.lt_of_lt_of_le hi sound.few
        have hcurrent₁ : h₁.process.current = some t := faulted.served.current.trans hcurrent
        have window := inWindow (sound.faulted faulted)
        rw [opened.metadata_eq hcurrent₁ window.metadataAt] at taken
        refine ⟨(h₁.recorded t limit).setRecord i ((h₁.seen t i)._free (h₁.trunkBase i) ptr), ?_,
          ⟨_, taken.symm⟩, ?_⟩
        · simp only [hopen', records_of_lt hlt, recorded_heap]
        · rw [← taken]
          exact window.records_setMetadata opened hcurrent₁ hlt _

/-- Where the narrowed pointer names a slot that is taken, the record changes. -/
theorem myFree_changes (sound : (h.recorded t limit).Sound t limit blocks)
    (hcurrent : h.process.current = some t) (served : 0 < h.process.left) {ptr : Nat}
    (hrecord : h.recordOf ptr = some i) (hi : i < h.heapTrunkCount) {region : Region}
    {k : Fin region.slots} (hset : ((h.recorded t limit).records i).flag region k = 1)
    (hplace : ptrOffset (h.trunkBase i) ptr = region.place k) :
    ∃ h', h.myFree ptr = .ok h' ∧ h'.seen t i ≠ h.seen t i := by
  have hlt : i < limit := Nat.lt_of_lt_of_le hi sound.few
  rcases openRecord_recorded sound hcurrent hi with
    ⟨stop, hfail, hfail'⟩ | ⟨h₁, hopen, hopen', faulted, opened⟩
  · rcases sound.openRecord_cases hcurrent hi with ⟨-, hleft⟩ | ⟨r₁, hopen, -⟩
    · exact absurd served (Int.not_lt.mpr hleft)
    · rw [hfail'] at hopen
      cases hopen
  · have hcurrent₁ : h₁.process.current = some t := faulted.served.current.trans hcurrent
    have window := inWindow (sound.faulted faulted)
    have hseen : (h.recorded t limit).records i = h₁.seen t i := by
      rw [← faulted.records_eq, records_of_lt hlt]
    have hholds := sound.hold.held i hi
    have hbase : h₁.trunkBase i = h.trunkBase i := faulted.trunkBase_eq i
    have hfreed : (h₁.seen t i)._free (h₁.trunkBase i) ptr = (h₁.seen t i).vacate region k := by
      rw [hseen] at hset hholds
      rw [hbase, HeapMetadataT.free_of_place k hplace, hholds.freeIn_of_live hset]
    refine ⟨h₁.setMetadata i ((h₁.seen t i).vacate region k), ?_, ?_⟩
    · simp only [ThreadHeap.myFree_eq, hrecord, hopen,
        opened.metadata_eq hcurrent₁ window.metadataAt, hfreed]
    · have hwritten := congrFun
        (window.records_setMetadata opened hcurrent₁ hlt ((h₁.seen t i).vacate region k)) i
      rw [records_of_lt hlt, Function.update_self] at hwritten
      have hbefore : h.seen t i = h₁.seen t i := (records_of_lt hlt).symm.trans hseen
      rw [hwritten, hbefore]
      exact HeapMetadataT.vacate_ne (hseen ▸ hset)

/-- `my_malloc_init` leaves zero bytes where the records will be. -/
theorem myMallocInit_sound (pages : h.process.FirstPages t 0) (hinit : h.heapInit = false)
    (hcount : h.heapTrunkCount = 0) (hcurrent : h.process.current = some t) (positive : 1 ≤ limit)
    (fits : limit * metadataSize ≤ maxVirtualPages * pageSize) (taken : h.myMallocInit = .ok h') :
    (h'.recorded t limit).Sound t limit [] ∧ h'.process.current = some t ∧
      h'.heapTrunkCount = 1 := by
  have fresh : (⟨h, fun _ => .zero⟩ : RecordHeap).Fresh t := ⟨pages, hinit, hcount, fun _ => rfl⟩
  have hcall : (⟨h, fun _ => .zero⟩ : RecordHeap).myMallocInit = .ok ⟨h', fun _ => .zero⟩ := by
    simp only [RecordHeap.myMallocInit, taken]
  rcases fresh.myMallocInit hcurrent with
    ⟨⟨stop, hstop⟩, -⟩ | ⟨r, hok, sound, hcurrent', -, -, hone, -, hmemory⟩
  · rw [hcall] at hstop
    cases hstop
  · rw [hcall] at hok
    cases hok
    have window : h'.InWindow limit := ⟨sound.metadataAt, fits⟩
    have hshown : ∀ x, x < virtualHeapStart + limit * metadataSize →
        h'.process.privateMemory.shown t x = 0 := by
      intro x hx
      have hpage := hmemory _ (window.page_lt hx)
      change h'.process.privateMemory t (miGetpteindex x) = _ at hpage
      by_cases hj : miGetpteindex x < 2
      · simp only [PrivateMemory.shown, hpage, if_pos hj]
      · simp only [PrivateMemory.shown, hpage, if_neg hj]
    have hblank : ∀ i, (h'.recorded t limit).records i = .zero := by
      intro i
      by_cases hi : i < limit
      · rw [records_of_lt hi]
        apply HeapMetadataT.load_of_zero
        intro x _ hx
        rw [trunkMetadata, window.metadataAt] at hx
        apply hshown
        change x < 0x60000000 + i * 76 + 76 at hx
        change x < 0x60000000 + limit * 76
        omega
      · simp only [recorded, hi, if_false]
    refine ⟨⟨sound.pages, sound.init, sound.metadataAt, sound.pagesAt, ?_, fits,
      fun i _ _ => hblank i, ?_⟩, hcurrent', hone⟩
    · change h'.heapTrunkCount ≤ limit
      change h'.heapTrunkCount = 1 at hone
      omega
    · exact sound.hold.congr fun i _ => hblank i

end ThreadHeap

end OsDesign.Heap
