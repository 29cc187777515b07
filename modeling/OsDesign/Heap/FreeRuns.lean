import OsDesign.Heap.RecordRuns
import OsDesign.Heap.WindowCalls
import OsDesign.Heap.HeapRuns

/-!
What `my_free` does to the records for an arbitrary pointer, in every run of a
thread's heap among the steps of the other threads. It changes no more than it
should exactly if the narrowed pointer stays with the trunks in use and meets no
block that the pointer itself does not name.
-/
namespace OsDesign.Heap

open Virt ThreadHeap

namespace HeapRun

def withProcess (s : HeapRun) (process : Process) : HeapRun :=
  { s with heap := { s.heap with process := process } }

def nextAmong (s : HeapRun) : ThreadUse → Except Stop HeapRun
  | .malloc size =>
      match s.heap.myMalloc size with
      | .error stop => .error stop
      | .ok (heap, ptr) => .ok ⟨heap, grow s.blocks size ptr⟩
  | .free ptr =>
      match s.heap.myFree ptr with
      | .error stop => .error stop
      | .ok heap => .ok ⟨heap, release s.blocks ptr⟩
  | .process e =>
      match s.heap.process.next e with
      | .error stop => .error stop
      | .ok process => .ok (s.withProcess process)

def StepAmong (s : HeapRun) (e : ThreadUse) (s' : HeapRun) : Prop := s.nextAmong e = .ok s'

/-- The thread has no page, and its heap is not initialised. -/
structure Unstarted (t : ThreadId) (s : HeapRun) : Prop where
  reach : ∃ main, Runs.Reachable (fun p => p = Process.start main) Process.Enabled Process.Step
    s.heap.process
  live : s.heap.process.live t = true
  unused : ∀ j, j < maxVirtualPages → s.heap.process.vm.view t j = .unused
  init : s.heap.heapInit = false
  trunks : s.heap.heapTrunkCount = 0
  blocks : s.blocks = []

/-- `t` stores outside the first `limit` records. -/
def StoresApart (t : ThreadId) (limit : Nat) (s : Process) : Event → Prop
  | .store address _ => s.current = some t →
      virtualHeapStart ≤ address → virtualHeapStart + limit * metadataSize ≤ address
  | _ => True

/-- `t` has at most `limit` trunks, stores apart from their records and frees
pointers that are handled. Between its calls any thread may run. -/
def Disciplined (t : ThreadId) (limit : Nat) (s : HeapRun) : ThreadUse → Prop
  | .malloc size => s.heap.process.current = some t ∧
      ((s.heap.recorded t limit).NoneFits size → s.heap.heapTrunkCount < limit)
  | .free ptr => s.heap.process.current = some t ∧ s.heap.Handled s.blocks ptr
  | .process e => Process.Beside t s.heap.process e ∧ StoresApart t limit s.heap.process e

/-- `my_free(ptr)` reads no record behind those in use, and changes one only if
`ptr` is a live block. -/
structure FreesOnlyLive (s : HeapRun) (t : ThreadId) (ptr : Nat) : Prop where
  bounded : ∀ i, s.heap.recordOf ptr = some i → i < s.heap.heapTrunkCount
  changed : ∀ h', s.heap.myFree ptr = .ok h' →
    (∃ i, i < s.heap.heapTrunkCount ∧ h'.seen t i ≠ s.heap.seen t i) →
    ∃ b, b ∈ s.blocks ∧ b.address = ptr

/-- Before and behind `my_malloc_init`. -/
inductive Follows (t : ThreadId) (limit : Nat) (s : HeapRun) : Prop
  | fresh (pages : s.heap.process.FirstPages t 0) (init : s.heap.heapInit = false)
      (trunks : s.heap.heapTrunkCount = 0) (blocks : s.blocks = [])
  | sound (sound : (s.heap.recorded t limit).Sound t limit s.blocks)

variable {s s' : HeapRun} {t : ThreadId} {limit size : Nat}

theorem Unstarted.follows (h : s.Unstarted t) : s.Follows t limit := by
  obtain ⟨main, reach⟩ := h.reach
  have inv := Process.Inv.reachable (fun _ _ h => h) reach
  exact .fresh ⟨inv, h.live, fun j hj => absurd hj (Nat.not_lt_zero j), fun j _ => h.unused j⟩
    h.init h.trunks h.blocks

/-- A request that is within the limit keeps the records sound. -/
theorem Follows.mallocInitialised {h h' : ThreadHeap} {blocks : List Block}
    {result : Option Nat} (sound : (h.recorded t limit).Sound t limit blocks)
    (hcurrent : h.process.current = some t)
    (room : (h.recorded t limit).NoneFits size → h.heapTrunkCount < limit)
    (taken : h.mallocInitialised size = .ok (h', result)) :
    (⟨h', grow blocks size result⟩ : HeapRun).Follows t limit := by
  obtain ⟨r, hok, bytes⟩ := (mallocInitialised_matches sound hcurrent room).of_ok taken
  have bytes : RecordHeap.Bytes t limit h' r := bytes.elim id id
  refine .sound (sound_bytes ?_ bytes)
  cases sound.mallocInitialised hcurrent size with
  | panic refused left =>
      rw [refused] at hok
      cases hok
  | found k r' a ok inUse before gives =>
      rw [ok] at hok
      cases hok
      exact sound.gives inUse gives
  | grown r₁ r' a ok noneFits more sound₁ gives =>
      rw [ok] at hok
      cases hok
      exact sound₁.gives (by rw [more.count_eq]; exact Nat.lt_succ_self _) gives
  | refused r₁ r' ok noneFits more sound₁ faulted null =>
      rw [ok] at hok
      cases hok
      exact sound₁.faulted faulted
  | beyond noneFits bound => exact absurd (room noneFits) (Nat.not_lt.mpr bound)

theorem Follows.malloc (follows : s.Follows t limit) (positive : 2 ≤ limit)
    (fits : limit * metadataSize ≤ maxVirtualPages * pageSize)
    (permitted : s.Disciplined t limit (.malloc size)) {heap : ThreadHeap} {ptr : Option Nat}
    (taken : s.heap.myMalloc size = .ok (heap, ptr)) :
    (⟨heap, grow s.blocks size ptr⟩ : HeapRun).Follows t limit := by
  obtain ⟨hcurrent, room⟩ := permitted
  cases follows with
  | fresh pages init trunks blocks =>
      simp only [ThreadHeap.myMalloc, hcurrent, init, if_true] at taken
      cases hstarted : s.heap.myMallocInit with
      | error stop => simp [hstarted] at taken
      | ok h₁ =>
          simp only [hstarted] at taken
          obtain ⟨sound, hcurrent₁, hone⟩ :=
            myMallocInit_sound pages init trunks hcurrent (by omega) fits hstarted
          rw [blocks]
          exact .mallocInitialised sound hcurrent₁ (fun _ => by omega) taken
  | sound sound =>
      have hinit : s.heap.heapInit = true := sound.init
      simp only [ThreadHeap.myMalloc, hcurrent, hinit, Bool.true_eq_false, if_false] at taken
      exact .mallocInitialised sound hcurrent room taken

/-- A step of the process leaves the records of `t` as they are. -/
theorem records_of_step {h : ThreadHeap} {blocks : List Block}
    (sound : (h.recorded t limit).Sound t limit blocks) {e : Event} {process : Process}
    (beside : Process.Beside t h.process e) (apart : StoresApart t limit h.process e)
    (taken : h.process.Step e process) :
    (({ h with process := process } : ThreadHeap).recorded t limit).records =
      (h.recorded t limit).records := by
  have window := inWindow sound
  have kept : Process.Spares h.process t e →
      (({ h with process := process } : ThreadHeap).recorded t limit).records =
        (h.recorded t limit).records := by
    intro spares
    obtain ⟨-, hkept⟩ :=
      sound.pages.inv.kept_of_step beside.1 spares sound.pages.live taken
    refine window.records_congr rfl ?_
    intro x _ hx
    have hpage := hkept _ (window.page_lt hx)
    change process.privateMemory t _ = h.process.privateMemory t _ at hpage
    simp only [PrivateMemory.shown, hpage]
  cases e with
  | store address byte =>
      by_cases hmine : h.process.current = some t
      · obtain ⟨process₁, haccess, hprocess⟩ := Process.access_of_store taken
        have served := sound.pages.inv.served_of_access haccess
        rw [← window.records_served sound.pages.live served, hprocess]
        refine InWindow.records_congr (h := { h with process := process₁ })
          ⟨window.metadataAt, window.fits⟩ rfl ?_
        intro x hlow hx
        refine Process.shown_stored (served.current.trans hmine) hlow ?_
        apply Function.update_of_ne
        rintro rfl
        exact absurd hx (Nat.not_lt.mpr (apart hmine hlow))
      · exact kept hmine
  | allocatePage | load _ | switchTo _ | create _ | exit _ => exact kept beside.2

theorem Follows.step (follows : s.Follows t limit) (positive : 2 ≤ limit)
    (fits : limit * metadataSize ≤ maxVirtualPages * pageSize) {e : ThreadUse}
    (permitted : s.Disciplined t limit e) (taken : s.StepAmong e s') : s'.Follows t limit := by
  cases e with
  | malloc size =>
      simp only [StepAmong, nextAmong] at taken
      cases h : s.heap.myMalloc size with
      | error stop => simp [h] at taken
      | ok result =>
          simp only [h, Except.ok.injEq] at taken
          rw [← taken]
          exact follows.malloc positive fits permitted h
  | free ptr =>
      obtain ⟨hcurrent, handled⟩ := permitted
      simp only [StepAmong, nextAmong] at taken
      cases h : s.heap.myFree ptr with
      | error stop => simp [h] at taken
      | ok heap =>
          simp only [h, Except.ok.injEq] at taken
          rw [← taken]
          cases follows with
          | fresh pages init trunks blocks =>
              have hnone : s.heap.recordOf ptr = none := by
                apply Option.eq_none_iff_forall_ne_some.mpr
                intro i hi
                have hlt := (handled i hi).1
                omega
              simp only [ThreadHeap.myFree_eq, hnone, Except.ok.injEq] at h
              rw [← h, blocks]
              exact .fresh pages init trunks rfl
          | sound sound =>
              obtain ⟨r, hok, bytes⟩ := myFree_bytes sound hcurrent handled h
              exact .sound (sound_bytes (sound.myFree hcurrent handled hok) bytes)
  | process e =>
      obtain ⟨beside, apart⟩ := permitted
      simp only [StepAmong, nextAmong] at taken
      cases h : s.heap.process.next e with
      | error stop => simp [h] at taken
      | ok process =>
          simp only [h, Except.ok.injEq] at taken
          rw [← taken]
          cases follows with
          | fresh pages init trunks blocks =>
              exact .fresh (pages.step beside.1 beside.2 h) init trunks blocks
          | sound sound =>
              have hrecords := records_of_step sound beside apart h
              have moved := sound.moved (sound.pages.step beside.1 beside.2 h)
              refine .sound (sound_bytes moved ⟨⟨process.vm.memory, rfl⟩, hrecords⟩)

theorem Follows.reachable (positive : 2 ≤ limit)
    (fits : limit * metadataSize ≤ maxVirtualPages * pageSize)
    (reach : Runs.Reachable (Unstarted t) (Disciplined t limit) StepAmong s) :
    s.Follows t limit := by
  refine reach.invariant (Follows t limit) ?_ ?_
  · exact fun s h => h.follows
  · exact fun s e s' permitted taken follows => follows.step positive fits permitted taken

/-- A pointer that is handled touches a live block at most. -/
theorem Follows.freesOnlyLive (follows : s.Follows t limit)
    (hcurrent : s.heap.process.current = some t) {ptr : Nat}
    (handled : s.heap.Handled s.blocks ptr) : s.FreesOnlyLive t ptr := by
  refine ⟨fun i hi => (handled i hi).1, ?_⟩
  rintro h' taken ⟨i, hi, hchanged⟩
  cases follows with
  | fresh pages init trunks blocks => omega
  | sound sound =>
      obtain ⟨r, hok, bytes⟩ := myFree_bytes sound hcurrent handled taken
      have hlt : i < limit := Nat.lt_of_lt_of_le hi sound.few
      rw [← records_of_lt hlt, ← records_of_lt hlt, bytes.records] at hchanged
      rw [RecordHeap.myFree_eq, recorded_heap] at hok
      cases hrecord : s.heap.recordOf ptr with
      | none =>
          simp only [hrecord, Except.ok.injEq] at hok
          exact absurd (congrFun (congrArg RecordHeap.records hok.symm) i) hchanged
      | some k =>
          rcases sound.free_cases handled hrecord with ⟨b, hb, haddress, -⟩ | ⟨-, hsame⟩
          · exact ⟨b, hb, haddress⟩
          · rcases sound.openRecord_cases hcurrent (handled k hrecord).1 with
              ⟨hpanic, -⟩ | ⟨r₁, hopen, faulted⟩
            · simp [hrecord, hpanic] at hok
            · simp only [hrecord, hopen, faulted.records_eq, faulted.trunkBase_eq, hsame,
                Except.ok.injEq] at hok
              apply absurd _ hchanged
              rw [← hok]
              change Function.update r₁.records k ((s.heap.recorded t limit).records k) i = _
              rw [faulted.records_eq, Function.update_eq_self]

/-- A pointer that is not handled reads a record behind those in use, or changes
one for a block that it does not name. -/
theorem Follows.handled (follows : s.Follows t limit)
    (hcurrent : s.heap.process.current = some t) (served : 0 < s.heap.process.left) {ptr : Nat}
    (frees : s.FreesOnlyLive t ptr) : s.heap.Handled s.blocks ptr := by
  intro i hrecord
  have hi := frees.bounded i hrecord
  refine ⟨hi, ?_⟩
  intro b hb haddress
  cases follows with
  | fresh pages init trunks blocks =>
      rw [blocks] at hb
      cases hb
  | sound sound =>
      obtain ⟨r, k, hset, hplace⟩ := sound.flag_of_live hrecord hi hb haddress
      obtain ⟨h', taken, hchanged⟩ := myFree_changes sound hcurrent served hrecord hi hset hplace
      obtain ⟨b', hb', rfl⟩ := frees.changed h' taken ⟨i, hi, hchanged⟩
      have hreal := sound.offset_live hb'
      rw [recorded_heap] at hreal
      omega

/-- The thread calls `my_malloc` and `my_free` as it likes. -/
def Calling (t : ThreadId) (s : HeapRun) : ThreadUse → Prop
  | .malloc _ | .free _ => s.heap.process.current = some t
  | .process e => Process.Beside t s.heap.process e

/-- In every run of a thread that stores apart from the records of its trunks and
frees pointers that are handled, `my_free` of any pointer that is handled touches
a live block at most, and of no other one, as long as page faults are served. -/
theorem frees_only_live_iff (positive : 2 ≤ limit)
    (fits : limit * metadataSize ≤ maxVirtualPages * pageSize)
    (reach : Runs.Reachable (Unstarted t) (Disciplined t limit) StepAmong s)
    (current : s.heap.process.current = some t) (ptr : Nat) :
    (s.heap.Handled s.blocks ptr → s.FreesOnlyLive t ptr) ∧
      (0 < s.heap.process.left → s.FreesOnlyLive t ptr → s.heap.Handled s.blocks ptr) := by
  have follows := Follows.reachable positive fits reach
  exact ⟨follows.freesOnlyLive current, fun served => follows.handled current served⟩

theorem created_unstarted : created.Unstarted 0 := by
  obtain ⟨⟨main, t, reach, hcurrent, hunused⟩, hinit, hcount, hblocks⟩ := created_uninitialised
  cases hcurrent
  exact ⟨⟨main, reach⟩, Process.Layout.created.live.1, hunused, hinit, hcount, hblocks⟩

theorem records_fit : 53 * metadataSize ≤ maxVirtualPages * pageSize := by
  have hmax := maxVirtualPages_eq
  change 53 * 76 ≤ maxVirtualPages * 4096
  omega

/-- The main thread with one block, and the pages to give for it. -/
theorem one_block :
    ∃ s : HeapRun, Runs.Steps (Disciplined 0 53) StepAmong created [.malloc 32] s ∧
      s.blocks = [⟨0x60001000, 32⟩] ∧ s.heap.Ready 0 ∧ s.heap.heapTrunkCount = 1 ∧
      0 < s.heap.process.left ∧ (s.heap.recorded 0 53).Sound 0 53 s.blocks := by
  obtain ⟨heap, taken, ⟨pages, layout, -⟩, ready, hone, -⟩ := first_malloc first_slot
  have permitted : created.Disciplined 0 53 (.malloc 32) := ⟨rfl, fun _ => by decide⟩
  have step : created.StepAmong (.malloc 32) ⟨heap, [⟨0x60001000, 32⟩]⟩ := taken
  have run : Runs.Steps (Disciplined 0 53) StepAmong created [.malloc 32] _ :=
    .single permitted step
  refine ⟨_, run, rfl, ready, hone, ?_, ?_⟩
  · change 0 < heap.process.left
    rw [Process.left, layout.frames, layout.slots, maxPhysicalPages_eq, maxSwapSlots_eq]
    decide
  · cases Follows.reachable (by decide) records_fit ⟨created, _, created_unstarted, run⟩ with
    | fresh pages init trunks blocks => cases blocks
    | sound sound => exact sound

/-- The records for the block of the run above, for a place inside it and for the slot
behind it. -/
theorem recordOf_first (hpages : s.heap.gHeapPages = 0x60001000) :
    s.heap.recordOf 0x60001000 = some 0 ∧ s.heap.recordOf 0x60001010 = none ∧
      s.heap.recordOf 0x60001020 = some 0 := by
  simp only [recordOf, trunkBase, hpages]
  decide

theorem free_block (ready : s.heap.Ready 0) (hblocks : s.blocks = [⟨0x60001000, 32⟩]) :
    ∃ s', s.StepAmong (.free 0x60001000) s' ∧ s'.blocks = [] ∧
      s'.heap.process.current = some 0 ∧ s'.heap.gHeapPages = s.heap.gHeapPages ∧
      s'.heap.heapTrunkCount = s.heap.heapTrunkCount := by
  obtain ⟨hrecord, -, -⟩ := recordOf_first ready.pagesAt
  have hopen := ready.openRecord (by decide : 0 < maxTrunks)
  refine ⟨⟨s.heap.setMetadata 0 ((s.heap.metadata 0)._free (s.heap.trunkBase 0) 0x60001000),
    release s.blocks 0x60001000⟩, ?_, ?_, ready.filled.current, rfl, rfl⟩
  · simp only [StepAmong, nextAmong, myFree_eq, hrecord, hopen]
  · rw [hblocks]
    rfl

/-- A pointer into the block and one to a slot that is free change nothing, and neither
does the block's own pointer once the block is freed. -/
theorem frees_only_live_twice :
    ∃ s s' : HeapRun, s.blocks = [⟨0x60001000, 32⟩] ∧ s.FreesOnlyLive 0 0x60001010 ∧
      s.FreesOnlyLive 0 0x60001020 ∧ s.StepAmong (.free 0x60001000) s' ∧ s'.blocks = [] ∧
      s'.FreesOnlyLive 0 0x60001000 := by
  obtain ⟨s, run, hblocks, ready, hone, -, sound⟩ := one_block
  obtain ⟨s', freed, hempty, hcurrent, hpages', hcount⟩ := free_block ready hblocks
  have hpages : s.heap.gHeapPages = 0x60001000 := ready.pagesAt
  have hmem : (⟨0x60001000, 32⟩ : Block) ∈ s.blocks := by
    rw [hblocks]
    exact List.mem_cons_self
  have handled := sound.handled_live hmem
  rw [recorded_heap] at handled
  have permitted : s.Disciplined 0 53 (.free 0x60001000) := ⟨ready.filled.current, handled⟩
  have reach : Runs.Reachable (Unstarted 0) (Disciplined 0 53) StepAmong s :=
    ⟨created, _, created_unstarted, run⟩
  obtain ⟨-, hinside, hvacant⟩ := recordOf_first hpages
  obtain ⟨hagain, -, -⟩ := recordOf_first (hpages'.trans hpages)
  have inside : s.heap.Handled s.blocks 0x60001010 := by
    intro i hi
    rw [hinside] at hi
    cases hi
  have vacant : s.heap.Handled s.blocks 0x60001020 := by
    intro i hi
    obtain rfl : 0 = i := Option.some.inj (hvacant.symm.trans hi)
    refine ⟨by omega, ?_⟩
    intro b hb haddress
    rw [hblocks, List.mem_singleton] at hb
    rw [hb, hpages] at haddress
    exact absurd haddress (by decide)
  have again : s'.heap.Handled s'.blocks 0x60001000 := by
    intro i hi
    obtain rfl : 0 = i := Option.some.inj (hagain.symm.trans hi)
    refine ⟨by omega, ?_⟩
    rw [hempty]
    exact fun b hb => absurd hb List.not_mem_nil
  have live := frees_only_live_iff (by decide) records_fit reach ready.filled.current
  have freedOnce := frees_only_live_iff (by decide) records_fit
    (reach.extend (.single permitted freed)) hcurrent
  exact ⟨s, s', hblocks, (live _).1 inside, (live _).1 vacant, freed, hempty,
    (freedOnce _).1 again⟩

/-- A pointer 2^32 past the only block is not live, and `my_free` frees the block. -/
theorem far_pointer_frees_block :
    ¬ ∀ (s : HeapRun) (t : ThreadId) (ptr : Nat),
      Runs.Reachable (Unstarted t) (Calling t) StepAmong s →
      s.heap.process.current = some t → ptr < 2 ^ 64 → s.FreesOnlyLive t ptr := by
  intro always
  obtain ⟨s, run, hblocks, ready, -, hleft, sound⟩ := one_block
  have hcurrent := ready.filled.current
  have called : Runs.Steps (Calling 0) StepAmong created [.malloc 32] s := by
    refine run.mono_of_mem ?_
    rintro e he s permitted
    obtain rfl := List.mem_singleton.mp he
    exact permitted.1
  have frees := always s 0 (0x60001000 + 2 ^ 32) ⟨created, _, created_unstarted, called⟩ hcurrent
    (by decide)
  have handled := (Follows.sound sound).handled hcurrent hleft frees
  have hfirst : s.heap.gHeapPages = 0x60001000 := sound.pagesAt
  have hoffset : ptrOffset s.heap.gHeapPages (0x60001000 + 2 ^ 32) =
      (0 * pageSize + Region.region32.place (0 : Fin 32) : Nat) := by
    rw [hfirst]
    decide
  obtain ⟨-, only⟩ := handled 0 (recordOf_eq_some.mpr ⟨.region32, (0 : Fin 32), hoffset⟩)
  have hsame := only ⟨0x60001000, 32⟩ (by rw [hblocks]; exact List.mem_cons_self) (by
    rw [hoffset, hfirst]
    decide)
  exact absurd hsame (by decide)

end HeapRun

end OsDesign.Heap
