import OsDesign.Heap.OwnHeap
import OsDesign.Heap.WindowRecords
import OsDesign.Virt.OwnPages

/-!
The calls of a running thread on the paging layer, next to the same calls on a heap of its
own. While the heap of its own has an outcome, the call has that outcome, unless it ends in
`swap_out`'s panic because hardly a frame or slot is left.
-/
namespace OsDesign.Heap

open Virt ByteStore Outcome

namespace HeapMetadataT

variable {memory memory' : Nat → UInt8} {x : Nat}

theorem storeRegion_apply_congr (md : HeapMetadataT) (a : Nat) (r : Region)
    (same : memory x = memory' x) :
    md.storeRegion a r memory x = md.storeRegion a r memory' x := by
  simp only [storeRegion, write]
  split
  · rfl
  · split
    · rfl
    · exact same

/-- The byte that a record leaves at an address depends on the byte that was there. -/
theorem store_apply_congr (md : HeapMetadataT) (a : Nat) (same : memory x = memory' x) :
    md.store a memory x = md.store a memory' x := by
  simp only [store, storeRegions, List.foldr_cons, List.foldr_nil]
  exact storeRegion_apply_congr md a _ (storeRegion_apply_congr md a _
    (storeRegion_apply_congr md a _ (storeRegion_apply_congr md a _ same)))

end HeapMetadataT

namespace ThreadHeap

/-- The pages and the words of the thread are those of the heap of its own. -/
structure Stands (t : ThreadId) (h : ThreadHeap) (o : OwnHeap) : Prop where
  pages : h.process.FirstPages t o.pages
  few : o.pages ≤ maxVirtualPages
  init : h.heapInit = o.heapInit
  trunks : o.heapInit = true → h.heapTrunkCount = o.heapTrunkCount
  metadataAt : o.heapInit = true → h.gMetadata = virtualHeapStart
  pagesAt : o.heapInit = true → h.gHeapPages = virtualHeapStart + pageSize
  bytes : ∀ x, virtualHeapStart ≤ x → miGetpteindex x < o.pages →
    h.process.privateMemory.shown t x = o.memory x

/-- What a call of the thread leads to, on both sides. A page that it is granted is a frame
or a slot less. -/
structure Abreast (t : ThreadId) (h : ThreadHeap) (o : OwnHeap) (h' : ThreadHeap)
    (o' : OwnHeap) : Prop where
  stands : h'.Stands t o'
  acted : h.process.ActedFor t h'.process
  left : h'.process.left + o'.pages = h.process.left + o.pages
  globals : (h'.gMetadata = h.gMetadata ∧ h'.gHeapPages = h.gHeapPages) ∨
    h'.gMetadata = virtualHeapStart ∧ h'.gHeapPages = virtualHeapStart + pageSize

variable {t : ThreadId} {h h' h'' : ThreadHeap} {o o' o'' : OwnHeap} {i address size : Nat}

theorem Stands.abreast (stands : h.Stands t o) : h.Abreast t o h o :=
  ⟨stands, .refl t stands.pages.inv, rfl, .inl ⟨rfl, rfl⟩⟩

theorem Abreast.trans (first : h.Abreast t o h' o') (second : h'.Abreast t o' h'' o'') :
    h.Abreast t o h'' o'' := by
  refine ⟨second.stands, first.acted.trans second.acted, second.left.trans first.left, ?_⟩
  rcases second.globals with ⟨metadata, pages⟩ | fixed
  · rw [metadata, pages]
    exact first.globals
  · exact .inr fixed

theorem Abreast.current (abreast : h.Abreast t o h' o') (current : h.process.current = some t) :
    h'.process.current = some t :=
  abreast.acted.current.trans current

theorem Stands.page_lt (stands : h.Stands t o) {x : Nat} (hx : miGetpteindex x < o.pages) :
    miGetpteindex x < maxVirtualPages :=
  Nat.lt_of_lt_of_le hx stands.few

/-- The pages of the thread are as before, whoever ran. -/
theorem Stands.of_kept (stands : h.Stands t o) {process : Process} (inv : process.Inv)
    (live : process.live t = true)
    (kept : ∀ j, j < maxVirtualPages →
      process.privateMemory t j = h.process.privateMemory t j) :
    ({ h with process := process } : ThreadHeap).Stands t o := by
  refine ⟨stands.pages.of_kept inv live kept, stands.few, stands.init, stands.trunks,
    stands.metadataAt, stands.pagesAt, ?_⟩
  intro x hlow hx
  rw [← stands.bytes x hlow hx]
  simp only [PrivateMemory.shown, kept _ (stands.page_lt hx)]

/-- The globals of `my_malloc.c` are set once, for all threads alike. -/
theorem Stands.setGlobals (stands : h.Stands t o) {metadata pages : Nat}
    (globals : (metadata = h.gMetadata ∧ pages = h.gHeapPages) ∨
      metadata = virtualHeapStart ∧ pages = virtualHeapStart + pageSize) :
    ({ h with gMetadata := metadata, gHeapPages := pages } : ThreadHeap).Stands t o := by
  refine ⟨stands.pages, stands.few, stands.init, stands.trunks, ?_, ?_, stands.bytes⟩
  · intro init
    rcases globals with ⟨same, -⟩ | ⟨fixed, -⟩
    · exact same.trans (stands.metadataAt init)
    · exact fixed
  · intro init
    rcases globals with ⟨-, same⟩ | ⟨-, fixed⟩
    · exact same.trans (stands.pagesAt init)
    · exact fixed

/-- A thread that has no page and has not called `my_malloc`. -/
theorem stands_fresh (pages : h.process.FirstPages t 0) (init : h.heapInit = false) :
    h.Stands t .fresh :=
  ⟨pages, Nat.zero_le _, init, nofun, nofun, nofun, fun _ _ hx => absurd hx (Nat.not_lt_zero _)⟩

/-- Page faults of the thread. -/
theorem Stands.accessed (stands : h.Stands t o) {process : Process}
    (taken : h.process.access address = .ok process) :
    h.Abreast t o { h with process := process } o := by
  have served := stands.pages.inv.served_of_access taken
  refine ⟨⟨stands.pages.served served, stands.few, stands.init, stands.trunks, stands.metadataAt,
    stands.pagesAt, ?_⟩, stands.pages.inv.actedFor_of_access t taken, ?_, .inl ⟨rfl, rfl⟩⟩
  · intro x hlow hx
    rw [← stands.bytes x hlow hx]
    simp only [PrivateMemory.shown, served.kept t _ stands.pages.live (stands.page_lt hx)]
  · rw [served.left]

theorem Stands.access (stands : h.Stands t o) (current : h.process.current = some t)
    (reaches : o.Reaches address) :
    (∃ stop, h.process.access address = .error stop ∧ h.process.Panics 0 stop) ∨
    ∃ process p, h.process.access address = .ok process ∧
      h.Abreast t o { h with process := process } o ∧
      process.vm.view t (miGetpteindex address) = .inMemory p := by
  obtain ⟨hlow, hhigh, hpage⟩ := reaches
  rcases stands.pages.access current hlow hhigh hpage with
    ⟨panics, left⟩ | ⟨process, p, taken, -, hview⟩
  · exact .inl ⟨_, panics, rfl, left⟩
  · exact .inr ⟨process, p, taken, stands.accessed taken, hview⟩

theorem Stands.trunkMetadata_eq (stands : h.Stands t o) (init : o.heapInit = true) (i : Nat) :
    h.trunkMetadata i = OwnHeap.trunkMetadata i := by
  rw [trunkMetadata, stands.metadataAt init, OwnHeap.trunkMetadata]

theorem Stands.trunkBase_eq (stands : h.Stands t o) (init : o.heapInit = true) (i : Nat) :
    h.trunkBase i = OwnHeap.trunkBase i := by
  rw [trunkBase, stands.pagesAt init, OwnHeap.trunkBase]

theorem Stands.openRecord (stands : h.Stands t o) (current : h.process.current = some t)
    (init : o.heapInit = true) (opens : o.Opens i) :
    Ensures (h.process.Panics 0) (fun h' => h.Abreast t o h' o ∧ h'.Opened t i)
      (h.openRecord i) := by
  have record := stands.trunkMetadata_eq init i
  obtain ⟨first, last⟩ := opens
  rw [← record] at first last
  rw [ThreadHeap.openRecord]
  rcases stands.access current first with ⟨stop, fails, panics⟩ | ⟨p₁, q, taken, abreast, hview⟩
  · rw [fails]
    exact .error panics
  · rcases abreast.stands.access (abreast.current current) last with
      ⟨stop, fails, panics, left⟩ | ⟨p₂, q', taken', abreast', hview'⟩
    · simp only [taken, fails]
      have same : p₁.left = h.process.left := by simpa using abreast.left
      exact .error ⟨panics, same ▸ left⟩
    · simp only [taken, taken']
      refine .ok ⟨abreast.trans abreast', ?_, q', hview'⟩
      have served := abreast.stands.pages.inv.served_of_access taken'
      exact ⟨q, served.resident t _ q (abreast.current current) hview⟩

/-- An opened record is the one in the heap of its own. -/
theorem Stands.metadata_eq (stands : h.Stands t o) (current : h.process.current = some t)
    (init : o.heapInit = true) (opens : o.Opens i) (opened : h.Opened t i) :
    h.metadata i = o.metadata i := by
  rw [opened.metadata_eq current (stands.metadataAt init), seen, stands.trunkMetadata_eq init]
  apply HeapMetadataT.load_congr
  intro x hlow hhigh
  obtain ⟨hstart, -, hpage⟩ := opens.reaches hlow hhigh
  exact stands.bytes x hstart hpage

/-- The pages of an opened record are in memory. -/
theorem Opened.view_eq (opened : h.Opened t i) (metadataAt : h.gMetadata = virtualHeapStart)
    {x : Nat} (hlow : h.trunkMetadata i ≤ x) (hhigh : x < h.trunkMetadata i + metadataSize) :
    ∃ p, h.process.vm.view t (miGetpteindex x) = .inMemory p := by
  obtain ⟨⟨p, hfirst⟩, q, hlast⟩ := opened
  rw [trunkMetadata, metadataAt] at hfirst hlast hlow hhigh
  change 0x60000000 + i * 76 ≤ x at hlow
  change x < 0x60000000 + i * 76 + 76 at hhigh
  have hpage : miGetpteindex x = miGetpteindex (virtualHeapStart + i * metadataSize) ∨
      miGetpteindex x =
        miGetpteindex (virtualHeapStart + i * metadataSize + (metadataSize - 1)) := by
    change (x - 0x60000000) / 4096 = (0x60000000 + i * 76 - 0x60000000) / 4096 ∨
      (x - 0x60000000) / 4096 = (0x60000000 + i * 76 + 75 - 0x60000000) / 4096
    omega
  rcases hpage with hpage | hpage
  · exact ⟨p, hpage.symm ▸ hfirst⟩
  · exact ⟨q, hpage.symm ▸ hlast⟩

/-- Bytes written in pages that are in memory, on both sides. -/
theorem Stands.written (stands : h.Stands t o) (current : h.process.current = some t)
    {bytes memory : Nat → UInt8}
    (share : ∀ x, virtualShareStart ≤ x → bytes x = h.process.vm.memory x)
    (agree : ∀ x, virtualHeapStart ≤ x → miGetpteindex x < o.pages →
      (bytes x = h.process.vm.memory x ∧ memory x = o.memory x) ∨
      ((∃ p, h.process.vm.view t (miGetpteindex x) = .inMemory p) ∧
        (h.process.vm.memory x = o.memory x → bytes x = memory x))) :
    h.Abreast t o { h with process := { h.process with vm := { h.process.vm with
      memory := bytes } } } { o with memory := memory } := by
  refine ⟨⟨stands.pages.stored _, stands.few, stands.init, stands.trunks, stands.metadataAt,
    stands.pagesAt, ?_⟩, stands.pages.inv.actedFor_of_write current share, rfl, .inl ⟨rfl, rfl⟩⟩
  intro x hlow hx
  rcases agree x hlow hx with ⟨sameBytes, sameMemory⟩ | ⟨⟨p, hview⟩, written⟩
  · exact (Process.shown_stored current hlow sameBytes).trans
      ((stands.bytes x hlow hx).trans sameMemory.symm)
  · have before := Process.shown_eq_memory current hlow hview
    have after := Process.shown_eq_memory (s := { h.process with vm := { h.process.vm with
      memory := bytes } }) current hlow hview
    exact after.trans (written (before.symm.trans (stands.bytes x hlow hx)))

/-- A record written where it was opened. -/
theorem Stands.setMetadata (stands : h.Stands t o) (current : h.process.current = some t)
    (init : o.heapInit = true) (opens : o.Opens i) (opened : h.Opened t i) (md : HeapMetadataT) :
    h.Abreast t o (h.setMetadata i md) (o.setMetadata i md) := by
  have record := stands.trunkMetadata_eq init i
  have change_eq : h.setMetadata i md = { h with process := { h.process with
      vm := { h.process.vm with
        memory := md.store (OwnHeap.trunkMetadata i) h.process.vm.memory } } } := by
    rw [ThreadHeap.setMetadata, record]
  rw [change_eq]
  apply stands.written current
  · intro x hx
    apply HeapMetadataT.store_apply_of_outside
    right
    obtain ⟨-, hend, -⟩ := opens.2
    generalize OwnHeap.trunkMetadata i = a at hend ⊢
    change a + 75 < 0x607FBFFF at hend
    change 0x607FC000 ≤ x at hx
    change a + 76 ≤ x
    omega
  · intro x _ _
    by_cases inside : OwnHeap.trunkMetadata i ≤ x ∧ x < OwnHeap.trunkMetadata i + metadataSize
    · right
      refine ⟨?_, HeapMetadataT.store_apply_congr md _⟩
      exact Opened.view_eq opened (stands.metadataAt init) (record.symm ▸ inside.1)
        (record.symm ▸ inside.2)
    · left
      have outside : x < OwnHeap.trunkMetadata i ∨
          OwnHeap.trunkMetadata i + metadataSize ≤ x := by omega
      exact ⟨HeapMetadataT.store_apply_of_outside md outside,
        HeapMetadataT.store_apply_of_outside md outside⟩

/-- A panic behind some pages that were granted. -/
theorem Abreast.panics (abreast : h.Abreast t o h' o') {m : Nat} (few : o'.pages ≤ o.pages + m)
    {k : Int} {stop : Stop} (panics : h'.process.Panics k stop) :
    h.process.Panics (k + m) stop := by
  have left := abreast.left
  refine ⟨panics.1, ?_⟩
  have := panics.2
  omega

/-- `_malloc` on a trunk. -/
theorem Stands.mallocTrunk (stands : h.Stands t o) (current : h.process.current = some t)
    (init : o.heapInit = true) {r : Option Nat} (own : o.mallocTrunk size i = some (o', r)) :
    Ensures (h.process.Panics 0) (fun r' => r'.2 = r ∧ h.Abreast t o r'.1 o')
      (h.mallocTrunk i size) := by
  rw [OwnHeap.mallocTrunk] at own
  rw [ThreadHeap.mallocTrunk]
  cases hr : Region.ofSize size with
  | none =>
      rw [hr] at own
      cases own
      exact .ok ⟨rfl, stands.abreast⟩
  | some region =>
      simp only [hr] at own
      by_cases opens : o.Opens i
      · have opening := stands.openRecord current init opens
        cases hopen : h.openRecord i with
        | error stop => exact .error (opening.of_error hopen)
        | ok h₁ =>
            obtain ⟨abreast, opened⟩ := opening.of_ok hopen
            have current₁ := abreast.current current
            have record := abreast.stands.metadata_eq current₁ init opens opened
            have base := abreast.stands.trunkBase_eq init i
            simp only [if_pos opens] at own
            simp only [record, base]
            cases hmalloc : (o.metadata i)._malloc (OwnHeap.trunkBase i) size with
            | mk md ptr =>
                rw [hmalloc] at own
                cases ptr with
                | none =>
                    cases own
                    exact .ok ⟨rfl, abreast⟩
                | some a =>
                    cases own
                    exact .ok ⟨rfl, abreast.trans
                      (abreast.stands.setMetadata current₁ init opens opened md)⟩
      · rw [if_neg opens] at own
        cases own

theorem Stands.mallocFrom (stands : h.Stands t o) (current : h.process.current = some t)
    (init : o.heapInit = true) {turns : Nat} {r : Option Nat}
    (own : OwnHeap.mallocFrom size turns i o = some (o', r)) :
    Ensures (h.process.Panics 0) (fun r' => r'.2 = r ∧ h.Abreast t o r'.1 o')
      (ThreadHeap.mallocFrom size turns i h) := by
  induction turns generalizing i h o with
  | zero =>
      cases own
      exact .ok ⟨rfl, stands.abreast⟩
  | succ turns ih =>
      rw [OwnHeap.mallocFrom] at own
      rw [ThreadHeap.mallocFrom]
      cases hown : o.mallocTrunk size i with
      | none =>
          rw [hown] at own
          cases own
      | some outcome =>
          obtain ⟨o₁, ptr⟩ := outcome
          have trunk := stands.mallocTrunk current init hown
          rw [hown] at own
          cases hcall : h.mallocTrunk i size with
          | error stop => exact .error (trunk.of_error hcall)
          | ok outcome' =>
              obtain ⟨h₁, ptr'⟩ := outcome'
              obtain ⟨same, abreast⟩ := trunk.of_ok hcall
              obtain rfl : ptr' = ptr := same
              cases ptr' with
              | some a =>
                  cases own
                  exact .ok ⟨rfl, abreast⟩
              | none =>
                  obtain ⟨memory, rfl⟩ := OwnHeap.mallocTrunk_rest hown
                  have rest := ih abreast.stands (abreast.current current) init own
                  refine (rest.mono ?_).weaken ?_
                  · exact fun r' next => ⟨next.1, abreast.trans next.2⟩
                  · exact fun stop panics => abreast.panics (m := 0) (Nat.le_refl _) panics

/-- `mm_allocate_page` for the thread, whether or not its window is full. -/
theorem Stands.morePage (stands : h.Stands t o) (current : h.process.current = some t) :
    Ensures (h.process.Panics 0) (fun h' => h.Abreast t o h' o.morePage) h.morePage := by
  rw [ThreadHeap.morePage]
  by_cases room : o.pages < maxVirtualPages
  · rcases stands.pages.allocatePage current room with
      ⟨fails, left⟩ | ⟨process, granted, pages, -, -, left, memory⟩
    · rw [fails]
      exact .error ⟨rfl, left⟩
    · rw [granted]
      have more : o.morePage.pages = o.pages + 1 := by rw [OwnHeap.morePage, if_pos room]
      have init := OwnHeap.heapInit_morePage o
      have count := OwnHeap.heapTrunkCount_morePage o
      refine .ok ⟨⟨more ▸ pages, more ▸ room, ?_, ?_, ?_, ?_, ?_⟩,
        stands.pages.inv.actedFor_of_allocatePage current granted, ?_, .inl ⟨rfl, rfl⟩⟩
      · rw [init]
        exact stands.init
      · rw [init, count]
        exact stands.trunks
      · rw [init]
        exact stands.metadataAt
      · rw [init]
        exact stands.pagesAt
      · intro x hlow hx
        rw [more] at hx
        rw [OwnHeap.memory_morePage o hlow]
        simp only [PrivateMemory.shown, memory _ (Nat.lt_of_lt_of_le hx room), room, true_and]
        by_cases new : miGetpteindex x = o.pages
        · rw [if_pos new, if_pos new]
        · rw [if_neg new, if_neg new]
          exact stands.bytes x hlow (by omega)
      · rw [more]
        change process.left + (o.pages + 1 : Nat) = _
        omega
  · rw [stands.pages.allocatePage_full current (Nat.not_lt.mp room)]
    have same : o.morePage = o := if_neg room
    rw [same]
    exact .ok stands.abreast

theorem Stands.myMallocInit (stands : h.Stands t o) (current : h.process.current = some t) :
    Ensures (h.process.Panics 1) (fun h' => h.Abreast t o h' o.myMallocInit) h.myMallocInit := by
  rw [ThreadHeap.myMallocInit]
  have first := stands.morePage current
  cases hfirst : h.morePage with
  | error stop =>
      exact .error (stands.abreast.panics (m := 1) (Nat.le_succ _) (first.of_error hfirst))
  | ok h₁ =>
      have abreast₁ := first.of_ok hfirst
      have second := abreast₁.stands.morePage (abreast₁.current current)
      cases hsecond : h₁.morePage with
      | error stop =>
          simp only [hsecond]
          exact .error (abreast₁.panics o.pages_morePage_le (second.of_error hsecond))
      | ok h₂ =>
          simp only [hsecond]
          have abreast₂ := abreast₁.trans (second.of_ok hsecond)
          have stands₂ := abreast₂.stands
          exact .ok ⟨⟨stands₂.pages, stands₂.few, rfl, fun _ => rfl, fun _ => rfl, fun _ => rfl,
            stands₂.bytes⟩, abreast₂.acted, abreast₂.left, .inr ⟨rfl, rfl⟩⟩

/-- A trunk more behind a page that was granted, or was not. -/
theorem Abreast.withTrunk (abreast : h.Abreast t o h' o') (init : o'.heapInit = true) :
    h.Abreast t o { h' with heapTrunkCount := h'.heapTrunkCount + 1 } o'.withTrunk := by
  have stands := abreast.stands
  refine ⟨⟨stands.pages, stands.few, stands.init, ?_, stands.metadataAt, stands.pagesAt,
    stands.bytes⟩, abreast.acted, abreast.left, abreast.globals⟩
  intro _
  change h'.heapTrunkCount + 1 = o'.heapTrunkCount + 1
  rw [stands.trunks init]

/-- `my_malloc` behind the initialisation. -/
theorem Stands.mallocInitialised (stands : h.Stands t o) (current : h.process.current = some t)
    (init : o.heapInit = true) {r : Option Nat}
    (own : o.mallocInitialised size = some (o', r)) :
    Ensures (h.process.Panics 1) (fun r' => r'.2 = r ∧ h.Abreast t o r'.1 o')
      (h.mallocInitialised size) := by
  rw [OwnHeap.mallocInitialised] at own
  rw [ThreadHeap.mallocInitialised, stands.trunks init]
  cases hown : OwnHeap.mallocFrom size o.heapTrunkCount 0 o with
  | none =>
      rw [hown] at own
      cases own
  | some outcome =>
      obtain ⟨o₁, ptr⟩ := outcome
      have search := stands.mallocFrom current init hown
      rw [hown] at own
      cases hcall : ThreadHeap.mallocFrom size o.heapTrunkCount 0 h with
      | error stop =>
          exact .error (stands.abreast.panics (m := 1) (Nat.le_succ _) (search.of_error hcall))
      | ok outcome' =>
          obtain ⟨h₁, ptr'⟩ := outcome'
          obtain ⟨same, abreast₁⟩ := search.of_ok hcall
          obtain rfl : ptr' = ptr := same
          cases ptr' with
          | some a =>
              cases own
              exact .ok ⟨rfl, abreast₁⟩
          | none =>
              obtain ⟨memory, rfl⟩ := OwnHeap.mallocFrom_rest hown
              have more := abreast₁.stands.morePage (abreast₁.current current)
              cases hmore : h₁.morePage with
              | error stop =>
                  simp only [hmore]
                  exact .error (abreast₁.panics (m := 1) (Nat.le_succ _) (more.of_error hmore))
              | ok h₂ =>
                  have init₂ : OwnHeap.heapInit (.morePage { o with memory := memory }) = true :=
                    (OwnHeap.heapInit_morePage _).trans init
                  have abreast₂ := (abreast₁.trans (more.of_ok hmore)).withTrunk init₂
                  have current₂ := abreast₂.current current
                  have trunks₂ : h₂.heapTrunkCount =
                      OwnHeap.heapTrunkCount (.morePage { o with memory := memory }) :=
                    (more.of_ok hmore).stands.trunks init₂
                  simp only [hmore, Nat.add_sub_cancel, trunks₂]
                  have last := abreast₂.stands.mallocTrunk current₂ init₂ own
                  rw [trunks₂] at last
                  refine (last.mono ?_).weaken ?_
                  · rw [trunks₂] at abreast₂
                    exact fun r' next => ⟨next.1, abreast₂.trans next.2⟩
                  · exact fun stop panics => abreast₂.panics (OwnHeap.pages_morePage_le _) panics

/-- `my_malloc` of the thread. -/
theorem Stands.myMalloc (stands : h.Stands t o) (current : h.process.current = some t)
    {r : Option Nat} (own : o.myMalloc size = some (o', r)) :
    Ensures (h.process.Panics 3) (fun r' => r'.2 = r ∧ h.Abreast t o r'.1 o')
      (h.myMalloc size) := by
  rw [OwnHeap.myMalloc] at own
  simp only [ThreadHeap.myMalloc, current, stands.init]
  by_cases init : o.heapInit = false
  · simp only [if_pos init] at own ⊢
    have setUp := stands.myMallocInit current
    cases hinit : h.myMallocInit with
    | error stop =>
        exact .error (stands.abreast.panics (m := 2) (Nat.le_add_right _ _)
          (setUp.of_error hinit))
    | ok h₁ =>
        have abreast := setUp.of_ok hinit
        have initialised : o.myMallocInit.heapInit = true := rfl
        have rest := abreast.stands.mallocInitialised (abreast.current current) initialised own
        have few : o.myMallocInit.pages ≤ o.pages + 2 :=
          (OwnHeap.pages_morePage_le _).trans (Nat.succ_le_succ o.pages_morePage_le)
        refine (rest.mono ?_).weaken ?_
        · exact fun r' next => ⟨next.1, abreast.trans next.2⟩
        · exact fun stop panics => abreast.panics few panics
  · simp only [if_neg init] at own ⊢
    have initialised : o.heapInit = true := by simpa using init
    refine (stands.mallocInitialised current initialised own).weaken ?_
    exact fun stop panics => stands.abreast.panics (m := 2) (Nat.le_add_right _ _) panics

/-- `my_free` of the thread, which has called `my_malloc` before. -/
theorem Stands.myFree (stands : h.Stands t o) (current : h.process.current = some t) {ptr : Nat}
    (own : o.myFree ptr = some o') :
    Ensures (h.process.Panics 0) (fun h' => h.Abreast t o h' o') (h.myFree ptr) := by
  rw [OwnHeap.myFree] at own
  split at own
  · cases own
  · rename_i initialised
    have init : o.heapInit = true := by simpa using initialised
    rw [ThreadHeap.myFree_eq, OwnHeap.recordOf_eq (stands.pagesAt init)]
    cases hrecord : OwnHeap.recordOf ptr with
    | none =>
        rw [hrecord] at own
        cases own
        exact .ok stands.abreast
    | some i =>
        simp only [hrecord] at own
        by_cases opens : o.Opens i
        · rw [if_pos opens] at own
          cases own
          have opening := stands.openRecord current init opens
          cases hopen : h.openRecord i with
          | error stop =>
              simp only [hopen]
              exact .error (opening.of_error hopen)
          | ok h₁ =>
              obtain ⟨abreast, opened⟩ := opening.of_ok hopen
              have current₁ := abreast.current current
              have written := abreast.stands.setMetadata current₁ init opens opened
                ((o.metadata i)._free (OwnHeap.trunkBase i) ptr)
              simp only [hopen, abreast.stands.metadata_eq current₁ init opens opened,
                abreast.stands.trunkBase_eq init]
              exact .ok (abreast.trans written)
        · rw [if_neg opens] at own
          cases own

/-- `my_free` reads neither of the two words of the thread, and writes bytes only. -/
theorem myFree_words (h : ThreadHeap) (init : Bool) (count ptr : Nat) :
    ({ h with heapInit := init, heapTrunkCount := count } : ThreadHeap).myFree ptr =
      (h.myFree ptr).map fun h' => { h with
        process := h'.process
        heapInit := init
        heapTrunkCount := count } := by
  have record : ({ h with heapInit := init, heapTrunkCount := count } : ThreadHeap).recordOf ptr =
      h.recordOf ptr := rfl
  rw [ThreadHeap.myFree_eq, ThreadHeap.myFree_eq, record]
  cases h.recordOf ptr with
  | none => rfl
  | some i =>
      simp only [ThreadHeap.openRecord, ThreadHeap.trunkMetadata]
      cases h.process.access (h.gMetadata + i * metadataSize) with
      | error stop => rfl
      | ok process =>
          dsimp only
          cases process.access (h.gMetadata + i * metadataSize + (metadataSize - 1)) with
          | error stop => rfl
          | ok process => rfl

theorem myFree_rest {ptr : Nat} (h : ThreadHeap) (taken : h.myFree ptr = .ok h') :
    h' = { h with process := h'.process } := by
  have words := myFree_words h h.heapInit h.heapTrunkCount ptr
  change h.myFree ptr = _ at words
  rw [taken] at words
  exact Except.ok.inj words

/-- A byte that the thread reads. -/
theorem Stands.load (stands : h.Stands t o) (current : h.process.current = some t)
    {byte : UInt8} (own : o.load address = some byte) :
    Ensures (h.process.Panics 0)
      (fun r => r.2 = byte ∧ h.Abreast t o { h with process := r.1 } o)
      (h.process.load address) := by
  rw [OwnHeap.load] at own
  split at own
  · rename_i reaches
    cases own
    rw [Process.load]
    rcases stands.access current reaches with
      ⟨stop, fails, panics⟩ | ⟨process, p, taken, abreast, hview⟩
    · rw [fails]
      exact .error panics
    · rw [taken]
      have shown := Process.shown_eq_memory (abreast.current current) reaches.1 hview
      refine .ok ⟨?_, abreast⟩
      exact shown.symm.trans (abreast.stands.bytes _ reaches.1 reaches.2.2)
  · cases own

/-- A byte that the thread writes. -/
theorem Stands.store (stands : h.Stands t o) (current : h.process.current = some t)
    {byte : UInt8} (own : o.store address byte = some o') :
    Ensures (h.process.Panics 0) (fun process => h.Abreast t o { h with process := process } o')
      (h.process.store address byte) := by
  rw [OwnHeap.store] at own
  split at own
  · rename_i reaches
    cases own
    rw [Process.store]
    rcases stands.access current reaches with
      ⟨stop, fails, panics⟩ | ⟨process, p, taken, abreast, hview⟩
    · rw [fails]
      exact .error panics
    · rw [taken]
      refine .ok (abreast.trans (abreast.stands.written (abreast.current current) ?_ ?_))
      · intro x hx
        apply Function.update_of_ne
        have hend := reaches.2.1
        change address < 0x607FBFFF at hend
        change 0x607FC000 ≤ x at hx
        omega
      · intro x _ _
        by_cases same : x = address
        · subst same
          exact .inr ⟨⟨p, hview⟩, fun _ => by simp⟩
        · exact .inl ⟨Function.update_of_ne same _ _, Function.update_of_ne same _ _⟩
  · cases own

end ThreadHeap

end OsDesign.Heap
